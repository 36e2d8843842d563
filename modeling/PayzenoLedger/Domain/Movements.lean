import PayzenoLedger.Domain.Sale

/-!
# Net movements

What the legs of a transaction move on the accounts of one type, debits less
credits.  The zero legs that a rule drops move nothing, so a rule's movement is
that of the legs it was written with.
-/

set_option autoImplicit false

namespace PayzenoLedger

/-- Debits less credits on the accounts of one type. -/
def netMovement (accountType : AccountType) (lines : List PostingLine) : Int :=
  (lines.map fun line => if line.accountType = accountType then line.signedMinor else 0).sum

section

variable (accountType : AccountType)

@[simp]
theorem netMovement_nil : netMovement accountType [] = 0 :=
  rfl

@[simp]
theorem netMovement_append (lines more : List PostingLine) :
    netMovement accountType (lines ++ more) =
      netMovement accountType lines + netMovement accountType more := by
  simp [netMovement]

@[simp]
theorem netMovement_debit (moved : AccountType) (amountMinor : Int) (lines : List PostingLine) :
    netMovement accountType (debit moved amountMinor :: lines) =
      (if moved = accountType then amountMinor else 0) + netMovement accountType lines := by
  simp [netMovement, debit, PostingLine.signedMinor]

@[simp]
theorem netMovement_credit (moved : AccountType) (amountMinor : Int)
    (lines : List PostingLine) :
    netMovement accountType (credit moved amountMinor :: lines) =
      (if moved = accountType then -amountMinor else 0) + netMovement accountType lines := by
  simp [netMovement, credit, PostingLine.signedMinor]

/-- Zero legs move nothing. -/
theorem netMovement_filter (lines : List PostingLine) :
    netMovement accountType (lines.filter fun line => line.amountMinor ≠ 0) =
      netMovement accountType lines := by
  induction lines with
  | nil => rfl
  | cons line lines ih =>
      by_cases hzero : line.amountMinor = 0
      · rw [List.filter_cons_of_neg (by simpa using hzero), ih]
        simp [netMovement, PostingLine.signedMinor, hzero]
      · rw [List.filter_cons_of_pos (by simpa using hzero)]
        unfold netMovement at ih ⊢
        rw [List.map_cons, List.sum_cons, ih, List.map_cons, List.sum_cons]

/-- A reversal moves back what its original moved. -/
theorem netMovement_mirrored (lines : List PostingLine) :
    netMovement accountType (mirrored lines) = -netMovement accountType lines := by
  induction lines with
  | nil => rfl
  | cons line lines ih =>
      unfold netMovement mirrored at ih ⊢
      rw [List.map_cons, List.map_cons, List.sum_cons, ih, List.map_cons, List.sum_cons,
        neg_add]
      congr 1
      by_cases hsame : line.accountType = accountType
      · cases hdirection : line.direction <;>
          simp [PostingLine.mirror, PostingLine.signedMinor, Direction.flip, hsame, hdirection]
      · simp [PostingLine.mirror, hsame]

end

/-! ## The rules -/

section Rules

variable {purpose : Purpose} {ctx : PostingContext} {lines kept : List PostingLine}

theorem netMovement_built (h : PostingRule.built purpose ctx lines = .ok kept)
    (accountType : AccountType) :
    netMovement accountType kept = netMovement accountType lines := by
  rw [(built_ok h).1]
  exact netMovement_filter accountType lines

/-- A leg that is not zero is kept, so it is positive. -/
theorem built_pos (h : PostingRule.built purpose ctx lines = .ok kept) {line : PostingLine}
    (hline : line ∈ lines) (hzero : line.amountMinor ≠ 0) : 0 < line.amountMinor := by
  obtain ⟨rfl, balanced⟩ := built_ok h
  exact balanced.positive line (List.mem_filter.mpr ⟨hline, by simpa using hzero⟩)

/-- Some leg is not zero. -/
theorem built_ne_zero (h : PostingRule.built purpose ctx lines = .ok kept) :
    ∃ line ∈ lines, line.amountMinor ≠ 0 := by
  obtain ⟨hkept, balanced⟩ := built_ok h
  have hlength := balanced.two
  cases hlines : kept with
  | nil =>
      rw [hlines, List.length_nil] at hlength
      omega
  | cons line rest =>
      have hmem : line ∈ lines.filter fun line => line.amountMinor ≠ 0 := by
        rw [← hkept, hlines]
        exact List.mem_cons_self
      obtain ⟨hline, hzero⟩ := List.mem_filter.mp hmem
      exact ⟨line, hline, by simpa using hzero⟩

end Rules

end PayzenoLedger
