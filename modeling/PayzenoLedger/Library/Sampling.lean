import Mathlib.Data.List.Sort
import Mathlib.Data.List.Permutation

/-!
# Samples in order

A query that takes the first rows in the order of a key leaves rows of one key in any
order.  It is sure to take a row just when few enough others come no later.
-/

set_option autoImplicit false

namespace PayzenoLedger.Library

variable {α κ : Type} [DecidableEq α] [LinearOrder κ] {key : α → κ}

/-- The other rows that may come before a row. -/
def rivals (key : α → κ) (row : α) (rows : List α) : Nat :=
  rows.countP fun other => other ≠ row ∧ key other ≤ key row

theorem rivals_perm {row : α} {rows rows' : List α} (hperm : rows.Perm rows') :
    rivals key row rows = rivals key row rows' :=
  hperm.countP_eq _

/-- A row with few rivals is taken, whatever the order among equals. -/
theorem mem_take_of_rivals {row : α} {rows : List α} {limit : Nat}
    (sorted : rows.Pairwise fun first second => key first ≤ key second) (hrow : row ∈ rows)
    (hfew : rivals key row rows < limit) : row ∈ rows.take limit := by
  by_contra hmissed
  have hsplit := List.take_append_drop limit rows
  have hlate : row ∈ rows.drop limit := by
    rw [← hsplit] at hrow
    exact (List.mem_append.mp hrow).resolve_left hmissed
  have hlength : (rows.take limit).length = limit := by
    rw [List.length_take]
    have := List.length_pos_of_mem hlate
    rw [List.length_drop] at this
    omega
  have hall : (rows.take limit).countP (fun other => other ≠ row ∧ key other ≤ key row) =
      (rows.take limit).length := by
    rw [List.countP_eq_length]
    intro other hother
    rw [← hsplit, List.pairwise_append] at sorted
    have hle := sorted.2.2 other hother row hlate
    have hne : other ≠ row := by
      rintro rfl
      exact hmissed hother
    simp [hne, hle]
  have hmore : (rows.take limit).countP (fun other => other ≠ row ∧ key other ≤ key row) ≤
      rivals key row rows :=
    (List.take_sublist limit rows).countP_le
  omega

/-- The order that puts a row behind all its equals. -/
def lateOrder (key : α → κ) (row first second : α) : Bool :=
  decide (key first < key second) ||
    (decide (key first = key second) && (decide (first ≠ row) || decide (second = row)))

theorem lateOrder_iff {row first second : α} :
    lateOrder key row first second = true ↔
      key first < key second ∨ key first = key second ∧ (first ≠ row ∨ second = row) := by
  simp [lateOrder]

/-- In some order a row is taken only if it has few rivals. -/
theorem exists_late (key : α → κ) (row : α) (rows : List α) (limit : Nat) :
    ∃ late : List α, late.Perm rows ∧
      (late.Pairwise fun first second => key first ≤ key second) ∧
      (row ∈ late.take limit → rivals key row rows < limit) := by
  let late := rows.mergeSort (lateOrder key row)
  have hperm : late.Perm rows := List.mergeSort_perm rows _
  have hsorted : late.Pairwise fun first second => lateOrder key row first second = true := by
    refine List.pairwise_mergeSort (fun a b c hab hbc => ?_) (fun a b => ?_) rows
    · rw [lateOrder_iff] at hab hbc ⊢
      rcases hab with hab | ⟨hab, hab'⟩
      · rcases hbc with hbc | ⟨hbc, -⟩
        · exact .inl (hab.trans hbc)
        · exact .inl (hbc ▸ hab)
      · rcases hbc with hbc | ⟨hbc, hbc'⟩
        · exact .inl (hab ▸ hbc)
        · refine .inr ⟨hab.trans hbc, ?_⟩
          rcases hab' with ha | rfl
          · exact .inl ha
          · exact .inr (hbc'.resolve_left (by simp))
    · rw [Bool.or_eq_true, lateOrder_iff, lateOrder_iff]
      rcases lt_trichotomy (key a) (key b) with hlt | heq | hgt
      · exact .inl (.inl hlt)
      · by_cases ha : a = row
        · exact .inr (.inr ⟨heq.symm, .inr ha⟩)
        · exact .inl (.inr ⟨heq, .inl ha⟩)
      · exact .inr (.inl hgt)
  refine ⟨late, hperm, hsorted.imp fun {first second} hlate => ?_, fun htaken => ?_⟩
  · rcases lateOrder_iff.mp hlate with hlt | ⟨heq, -⟩
    · exact hlt.le
    · exact heq.le
  · obtain ⟨i, hi, hrow⟩ := List.mem_take_iff_getElem.mp htaken
    have hsplit := List.take_append_drop i late
    -- Behind the row no rival is left.
    have hnone : (late.drop i).countP (fun other => other ≠ row ∧ key other ≤ key row) = 0 := by
      rw [List.countP_eq_zero]
      intro other hother hrival
      simp only [decide_eq_true_eq] at hrival
      have hdrop : late.drop i = row :: late.drop (i + 1) := by
        rw [List.drop_eq_getElem_cons (by omega), hrow]
      rw [hdrop] at hother
      rcases List.mem_cons.mp hother with rfl | hbehind
      · exact hrival.1 rfl
      · have hpair := (hsplit ▸ hsorted : (late.take i ++ late.drop i).Pairwise _)
        rw [List.pairwise_append, hdrop, List.pairwise_cons] at hpair
        rcases lateOrder_iff.mp (hpair.2.1.1 other hbehind) with hlt | ⟨-, hself | hsame⟩
        · exact absurd hrival.2 (not_le.mpr hlt)
        · exact hself rfl
        · exact hrival.1 hsame
    have hcount : rivals key row late =
        (late.take i).countP (fun other => other ≠ row ∧ key other ≤ key row) := by
      unfold rivals
      nth_rewrite 1 [← hsplit]
      rw [List.countP_append, hnone, Nat.add_zero]
    rw [← rivals_perm hperm, hcount]
    have hbound := (late.take i).countP_le_length
      (p := fun other => other ≠ row ∧ key other ≤ key row)
    rw [List.length_take] at hbound
    omega

end PayzenoLedger.Library
