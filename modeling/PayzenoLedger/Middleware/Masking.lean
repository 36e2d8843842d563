import PayzenoLedger.Middleware.Fields

/-!
# What redaction leaves

The two substitutions do not meddle with each other: a field lies between the numbers that are
masked, and its value is too short for a number.  So the text that is left holds a card number
exactly if a stretch between two masked numbers does, and another pass would change it only if
it holds one or if two fields overlap.
-/

set_option autoImplicit false

namespace PayzenoLedger

open Library Library.Regex

/-! ## Regions between numbers -/

section

variable {image : Portion → List Char} {portions : List Portion}

/-- A region that ends in a quote and has no number in it begins with plain portions. -/
theorem plain_of_prefix (hplain : ∀ char, image (.plain char) = [char]) {region right : List Char}
    (hquote : ∀ run, .number run ∈ portions → '"' ∉ image (.number run))
    (hinside : ∀ run, .number run ∈ portions → ¬ image (.number run) <:+: region)
    (hlast : region.getLast? = some '"') (h : portions.flatMap image = region ++ right) :
    ∃ after, portions = region.map Portion.plain ++ after ∧ after.flatMap image = right := by
  induction portions generalizing region with
  | nil =>
      obtain ⟨rfl, -⟩ := List.append_eq_nil_iff.mp h.symm
      cases hlast
  | cons portion portions ih =>
      have hquote' := fun run hrun => hquote run (List.mem_cons_of_mem _ hrun)
      rw [List.flatMap_cons] at h
      cases portion with
      | plain char =>
          rw [hplain] at h
          cases region with
          | nil => cases hlast
          | cons first region =>
              obtain ⟨rfl, hrest⟩ := List.cons_eq_cons.mp h
              cases region with
              | nil => exact ⟨portions, rfl, hrest⟩
              | cons second region =>
                  obtain ⟨after, rfl, hafter⟩ := ih hquote' (fun run hrun hin =>
                    hinside run (List.mem_cons_of_mem _ hrun) (hin.trans (List.infix_cons
                      (List.infix_refl _)))) hlast hrest
                  exact ⟨after, rfl, hafter⟩
      | number run =>
          rcases List.append_eq_append_iff.mp h with ⟨later, hregion, -⟩ | ⟨later, hrun, -⟩
          · refine absurd ?_ (hinside run List.mem_cons_self)
            rw [hregion]
            exact (List.prefix_append _ _).isInfix
          · refine absurd ?_ (hquote run List.mem_cons_self)
            rw [hrun]
            exact List.mem_append_left _ (List.mem_of_getLast? hlast)

/-- A region between quotes that has no number in it is made of plain portions. -/
theorem plain_of_infix (hplain : ∀ char, image (.plain char) = [char])
    {left region right : List Char}
    (hquote : ∀ run, .number run ∈ portions → '"' ∉ image (.number run))
    (hinside : ∀ run, .number run ∈ portions → ¬ image (.number run) <:+: region)
    (hfirst : region.head? = some '"') (hlast : region.getLast? = some '"')
    (h : portions.flatMap image = left ++ (region ++ right)) :
    ∃ before after, portions = before ++ region.map Portion.plain ++ after ∧
      before.flatMap image = left ∧ after.flatMap image = right := by
  induction portions generalizing left with
  | nil =>
      obtain ⟨-, hnil⟩ := List.append_eq_nil_iff.mp h.symm
      obtain ⟨rfl, -⟩ := List.append_eq_nil_iff.mp hnil
      cases hlast
  | cons portion portions ih =>
      have hquote' := fun run hrun => hquote run (List.mem_cons_of_mem _ hrun)
      have hinside' := fun run hrun => hinside run (List.mem_cons_of_mem _ hrun)
      by_cases hleft : left = []
      · rw [hleft, List.nil_append] at h
        obtain ⟨after, hportions, hafter⟩ := plain_of_prefix hplain hquote hinside hlast h
        exact ⟨[], after, hportions, hleft.symm, hafter⟩
      · rw [List.flatMap_cons] at h
        rcases List.append_eq_append_iff.mp h with ⟨later, hleft', hrest⟩ | ⟨later, hhead, hrest⟩
        · obtain ⟨before, after, rfl, hbefore, hafter⟩ := ih hquote' hinside' hrest
          refine ⟨portion :: before, after, by simp, ?_, hafter⟩
          rw [List.flatMap_cons, hbefore, hleft']
        · cases later with
          | nil =>
              rw [List.append_nil] at hhead
              rw [List.nil_append] at hrest
              obtain ⟨after, rfl, hafter⟩ := plain_of_prefix hplain hquote' hinside' hlast
                hrest.symm
              refine ⟨[portion], after, by simp, ?_, hafter⟩
              rw [List.flatMap_singleton, hhead]
          | cons char later =>
              -- the region would begin within a portion
              have hchar : char = '"' := by
                cases region with
                | nil => cases hlast
                | cons first region =>
                    obtain ⟨rfl, -⟩ := List.cons_eq_cons.mp hrest
                    exact Option.some.inj hfirst
              cases portion with
              | plain other =>
                  rw [hplain] at hhead
                  have hlength := congrArg List.length hhead
                  rw [List.length_append, List.length_cons, List.length_cons,
                    List.length_nil] at hlength
                  have hpos := List.length_pos_iff.mpr hleft
                  omega
              | number run =>
                  refine absurd ?_ (hquote run List.mem_cons_self)
                  rw [hhead, hchar]
                  exact List.mem_append_right _ List.mem_cons_self

end

/-! ## Numbers and fields apart -/

theorem isDecimal_of_foldsTo {letter char : Char} (hletter : letter ∈ keyLetters)
    (hfold : foldsTo letter char = true) (h : isDecimal char = true) : letter = '2' := by
  have hall : (keyLetters.all fun letter =>
      letter == '2' || (!isDecimal letter && !isDecimal letter.toUpper)) = true := by
    decide
  have hone := List.all_eq_true.mp hall letter hletter
  by_contra hother
  simp only [Bool.or_eq_true, Bool.and_eq_true, beq_iff_eq, Bool.not_eq_true'] at hone
  obtain ⟨hlower, hupper⟩ := hone.resolve_left hother
  unfold foldsTo at hfold
  simp only [Bool.or_eq_true, Bool.and_eq_true, beq_iff_eq] at hfold
  rcases hfold with ((rfl | rfl) | ⟨-, rfl⟩) | ⟨-, rfl | rfl⟩
  · exact Bool.false_ne_true (hlower.symm.trans h)
  · exact Bool.false_ne_true (hupper.symm.trans h)
  · exact absurd h (by decide)
  · exact absurd h (by decide)
  · exact absurd h (by decide)

/-- A key has at most one digit. -/
theorem CvvKey.countP_isDecimal {key : List Char} (h : CvvKey key) :
    key.countP isDecimal ≤ 1 := by
  obtain ⟨name, hname, hfolds⟩ := h
  have hnames : (["cvc", "cvv", "cvv2", "security_code"].all fun name =>
      name.toList.all (keyLetters.contains ·) && decide (name.toList.count '2' ≤ 1)) = true := by
    decide
  obtain ⟨hall, hcount⟩ := Bool.and_eq_true_iff.mp (List.all_eq_true.mp hnames name hname)
  have hletters : ∀ letter ∈ name.toList, letter ∈ keyLetters := fun letter hletter =>
    List.contains_iff_mem.mp (List.all_eq_true.mp hall letter hletter)
  refine le_trans ?_ (of_decide_eq_true hcount)
  clear hname hcount hnames hall
  generalize name.toList = letters at hfolds hletters
  induction hfolds with
  | nil => exact le_refl _
  | @cons letter char letters key hfold _ ih =>
      obtain ⟨hletter, hletters⟩ := List.forall_mem_cons.mp hletters
      have hrest := ih hletters
      rw [List.countP_cons, List.count_cons]
      by_cases hdecimal : isDecimal char = true
      · rw [if_pos hdecimal, if_pos (beq_iff_eq.mpr (isDecimal_of_foldsTo hletter hfold hdecimal))]
        omega
      · rw [if_neg hdecimal]
        omega

theorem not_isDecimal_of_isSpace {char : Char} (h : isSpace char = true) :
    isDecimal char = false := by
  have hall : ∀ code ∈ [0x9, 0xA, 0xB, 0xC, 0xD, 0x1C, 0x1D, 0x1E, 0x1F, 0x20, 0x85, 0xA0, 0x1680,
      0x2000, 0x2001, 0x2002, 0x2003, 0x2004, 0x2005, 0x2006, 0x2007, 0x2008, 0x2009, 0x200A,
      0x2028, 0x2029, 0x202F, 0x205F, 0x3000],
      (digitZeros.find? fun first => first ≤ code ∧ code < first + 10) = none := by
    decide +kernel
  unfold isDecimal digitValue
  rw [hall char.toNat (List.contains_iff_mem.mp h)]
  rfl

theorem countP_isDecimal_blank {blank : List Char} (h : ∀ char ∈ blank, isSpace char = true) :
    blank.countP isDecimal = 0 :=
  List.countP_eq_zero.mpr fun char hchar =>
    (Bool.not_eq_true _).mpr (not_isDecimal_of_isSpace (h char hchar))

theorem Opens.countP_isDecimal {opening : List Char} (h : Opens opening) :
    opening.countP isDecimal ≤ 1 := by
  obtain ⟨key, blank, space, hkey, hblank, hspace, rfl⟩ := h
  have hquote : ['"'].countP isDecimal = 0 := by decide
  have hcolon : [':'].countP isDecimal = 0 := by decide
  simp only [List.countP_append, hquote, hcolon, countP_isDecimal_blank hblank,
    countP_isDecimal_blank hspace]
  have hone := hkey.countP_isDecimal
  omega

theorem IsField.countP_isDecimal {field : List Char} (h : IsField field) :
    field.countP isDecimal ≤ 5 := by
  obtain ⟨opening, value, hopening, hvalue, rfl⟩ := h
  have hquote : ['"'].countP isDecimal = 0 := by decide
  have hone := hopening.countP_isDecimal
  have hfour : value.countP isDecimal ≤ 4 := le_trans List.countP_le_length hvalue.2.1
  rw [List.countP_append, List.countP_append, hquote]
  omega

theorem IsOverlap.countP_isDecimal {overlap : List Char} (h : IsOverlap overlap) :
    overlap.countP isDecimal ≤ 10 := by
  obtain ⟨opening, value, tail, hopening, hvalue, hfield, rfl⟩ := h
  have hone := hopening.countP_isDecimal
  have hfour : value.countP isDecimal ≤ 4 := le_trans List.countP_le_length hvalue.2.1
  have hfive := hfield.countP_isDecimal
  rw [List.countP_append, List.countP_append]
  omega

theorem DigitRun.countP_isDecimal {count : Nat} {run : List Char} (h : DigitRun count run) :
    count ≤ run.countP isDecimal := by
  induction h with
  | last h =>
      rw [List.countP_cons, if_pos h]
      exact le_refl _
  | next h _ ih =>
      rw [List.countP_cons, if_pos h]
      omega
  | spaced h _ _ ih =>
      rw [List.countP_cons, List.countP_cons, if_pos h]
      omega

/-- A region with few digits has no card number in it. -/
theorem CardNumber.not_infix {words : WordChars} {before run after region : List Char}
    (card : CardNumber words before run after) (hregion : region.countP isDecimal ≤ 10) :
    ¬ run <:+: region := by
  intro hinside
  obtain ⟨count, hleast, -, hrun⟩ := card.digits
  have hcount := hrun.countP_isDecimal
  have hle : run.countP isDecimal ≤ region.countP isDecimal := hinside.sublist.countP_le
  omega

theorem IsOverlap.not_mem_star {overlap : List Char} (h : IsOverlap overlap) : '*' ∉ overlap := by
  obtain ⟨opening, value, tail, hopening, hvalue, hfield, rfl⟩ := h
  have hfirst : IsField (opening ++ value ++ ['"']) := ⟨opening, value, hopening, hvalue, rfl⟩
  have hstar : ∀ {field : List Char}, IsField field → '*' ∉ field := fun hfield =>
    hfield.not_mem (by decide) (by decide) (by decide) (by decide) (by decide)
  intro hmem
  rcases List.mem_append.mp hmem with hmem | hmem
  · exact hstar hfirst (List.mem_append_left _ hmem)
  · exact hstar hfield hmem

theorem IsOverlap.head {overlap : List Char} (h : IsOverlap overlap) :
    overlap.head? = some '"' := by
  obtain ⟨opening, value, tail, ⟨key, blank, space, -, -, -, rfl⟩, -, -, rfl⟩ := h
  rfl

theorem IsOverlap.getLast? {overlap : List Char} (h : IsOverlap overlap) :
    overlap.getLast? = some '"' := by
  obtain ⟨opening, value, tail, -, -, hfield, rfl⟩ := h
  rw [List.getLast?_append_of_ne_nil _ (List.cons_ne_nil _ _)]
  exact hfield.getLast?

section

variable {words : WordChars}

theorem CardNumber.mem_maskPan {before run after : List Char}
    (card : CardNumber words before run after) :
    '*' ∈ maskPan run ∧ '"' ∉ maskPan run := by
  obtain ⟨count, -, -, hrun⟩ := card.digits
  obtain ⟨stars, hmask⟩ := maskPan_eq card
  have hdigits : '"' ∉ withoutSeparators run := fun hmem =>
    hrun.not_mem (breaks_quote words) (List.mem_of_mem_filter hmem)
  rw [hmask]
  refine ⟨List.mem_append_right _ List.mem_cons_self, ?_⟩
  rw [List.mem_append, List.mem_cons, List.mem_append]
  rintro (hmem | hmem | hmem | hmem)
  · exact hdigits (List.mem_of_mem_take hmem)
  · exact absurd hmem (by decide)
  · exact absurd (List.eq_of_mem_replicate hmem) (by decide)
  · exact hdigits (List.mem_of_mem_drop hmem)

/-- Masking neither makes nor unmakes an overlap of fields. -/
theorem holdsOverlap_scrub_iff (text : List Char) :
    HoldsOverlap (scrub words text) ↔ HoldsOverlap text := by
  have hcard : ∀ run, Portion.number run ∈ portions words text →
      ∃ before after, CardNumber words before run after :=
    fun run hrun => (placed_portions text).of_mem hrun
  constructor
  · rintro ⟨left, overlap, right, htext, hoverlap⟩
    rw [← portions_shown, List.append_assoc] at htext
    obtain ⟨before, after, hportions, -, -⟩ := plain_of_infix (fun _ => rfl)
      (fun run hrun => by
        obtain ⟨_, _, card⟩ := hcard run hrun
        exact card.mem_maskPan.2)
      (fun run hrun hinside => by
        obtain ⟨_, _, card⟩ := hcard run hrun
        exact hoverlap.not_mem_star (hinside.subset card.mem_maskPan.1))
      hoverlap.head hoverlap.getLast? htext
    refine ⟨before.flatMap Portion.text, overlap, after.flatMap Portion.text, ?_, hoverlap⟩
    calc text = (portions words text).flatMap Portion.text := (portions_text text).symm
      _ = before.flatMap Portion.text ++ overlap ++ after.flatMap Portion.text := by
        rw [hportions, List.flatMap_append, List.flatMap_append, flatMap_plain fun _ => rfl]
  · rintro ⟨left, overlap, right, htext, hoverlap⟩
    have hwhole : (portions words text).flatMap Portion.text = left ++ (overlap ++ right) := by
      rw [portions_text, htext, List.append_assoc]
    obtain ⟨before, after, hportions, -, -⟩ := plain_of_infix (fun _ => rfl)
      (fun run hrun => by
        obtain ⟨_, _, card⟩ := hcard run hrun
        obtain ⟨_, -, -, hrun⟩ := card.digits
        exact hrun.not_mem (breaks_quote words))
      (fun run hrun => by
        obtain ⟨_, _, card⟩ := hcard run hrun
        exact card.not_infix hoverlap.countP_isDecimal)
      hoverlap.head hoverlap.getLast? hwhole
    refine ⟨before.flatMap Portion.shown, overlap, after.flatMap Portion.shown, ?_, hoverlap⟩
    rw [← portions_shown, hportions, List.flatMap_append, List.flatMap_append,
      flatMap_plain fun _ => rfl]

/-! ## What is changed -/

variable (words) in
/-- A text and what it becomes if nothing is changed but card numbers, which are masked, and the
values of CVV fields, given what is before. -/
inductive Edits : List Char → List Char → List Char → Prop where
  | done {before : List Char} : Edits before [] []
  | kept {before text shown : List Char} {char : Char}
      (hrest : Edits (before ++ [char]) text shown) : Edits before (char :: text) (char :: shown)
  | card {before run text shown : List Char} (card : CardNumber words before run text)
      (hrest : Edits (before ++ run) text shown) : Edits before (run ++ text) (maskPan run ++ shown)
  | value {before opening value text shown : List Char} (hopening : Opens opening)
      (hvalue : IsCvv value)
      (hrest : Edits (before ++ opening ++ value) ('"' :: text) ('"' :: shown)) :
      Edits (before ++ opening) (value ++ '"' :: text) (redacted ++ '"' :: shown)

theorem Edits.keep {before front text shown : List Char}
    (h : Edits words (before ++ front) text shown) :
    Edits words before (front ++ text) (front ++ shown) := by
  induction front generalizing before with
  | nil =>
      rw [List.append_nil] at h
      exact h
  | cons char front ih =>
      rw [List.append_cons] at h
      exact .kept (ih h)

theorem placed_of_plain {before text : List Char} {portions : List Portion}
    (h : Placed words before (text.map Portion.plain ++ portions)) :
    Placed words (before ++ text) portions := by
  induction text generalizing before with
  | nil =>
      rw [List.append_nil]
      exact h
  | cons char text ih =>
      rw [List.append_cons]
      exact ih h

/-- What has no quote in it is scanned for fields character by character. -/
theorem scans_skip {before front text : List Char} {pieces : List Piece}
    (hfront : '"' ∉ front) (h : Scans cvvPattern before (front ++ text) pieces) :
    ∃ before' rest, Scans cvvPattern before' text rest ∧
      substitute changeCvv pieces = front ++ substitute changeCvv rest := by
  induction front generalizing before pieces with
  | nil => exact ⟨before, pieces, h, rfl⟩
  | cons char front ih =>
      rw [List.mem_cons, not_or] at hfront
      rw [List.cons_append] at h
      generalize htext : char :: (front ++ text) = whole at h
      cases h with
      | done => cases htext
      | plain hnone hrest =>
          obtain ⟨rfl, rfl⟩ := List.cons_eq_cons.mp htext
          obtain ⟨before', rest, hscans, hshown⟩ := ih hfront.2 hrest
          refine ⟨before', rest, hscans, ?_⟩
          rw [substitute_plain, hshown]
          rfl
      | found hhit hrest =>
          obtain ⟨first, later, hfield, -⟩ := (isField_found hhit).head
          rw [hfield] at htext
          exact absurd (List.cons_eq_cons.mp htext).1.symm hfront.1

/-- Both substitutions together change nothing else. -/
theorem edits_substitute {before context : List Char} {portions : List Portion}
    {pieces : List Piece} (hplaced : Placed words before portions)
    (hscans : Scans cvvPattern context (portions.flatMap Portion.shown) pieces) :
    Edits words before (portions.flatMap Portion.text) (substitute changeCvv pieces) := by
  induction hlength : portions.length using Nat.strongRecOn
    generalizing before context portions pieces with
  | ind length ih =>
      cases portions with
      | nil =>
          generalize htext : ([] : List Portion).flatMap Portion.shown = whole at hscans
          cases hscans with
          | done => exact .done
          | plain hnone hrest => cases htext
          | found hhit hrest =>
              obtain ⟨first, later, hfield, -⟩ := (isField_found hhit).head
              rw [hfield] at htext
              cases htext
      | cons portion portions =>
          rw [List.length_cons] at hlength
          cases portion with
          | number run =>
              rw [List.flatMap_cons] at hscans
              obtain ⟨card, hplaced⟩ := hplaced
              obtain ⟨context', rest, hrest, hshown⟩ := scans_skip card.mem_maskPan.2 hscans
              rw [hshown]
              exact .card card (ih portions.length (by omega) hplaced hrest rfl)
          | plain char =>
              generalize htext : (Portion.plain char :: portions).flatMap Portion.shown = whole
                at hscans
              cases hscans with
              | done => cases htext
              | plain hnone hrest =>
                  rw [List.flatMap_cons] at htext
                  obtain ⟨rfl, rfl⟩ := List.cons_eq_cons.mp htext
                  exact .kept (ih portions.length (by omega) hplaced hrest rfl)
              | @found _ rest hit pieces hhit hrest =>
                  have hwhole : Placed words before (.plain char :: portions) := hplaced
                  have hfield := isField_found hhit
                  have hmask : ∀ run, Portion.number run ∈ Portion.plain char :: portions →
                      '*' ∈ maskPan run ∧ '"' ∉ maskPan run := by
                    intro run hrun
                    obtain ⟨_, _, card⟩ := hwhole.of_mem hrun
                    exact card.mem_maskPan
                  obtain ⟨after, hportions, rfl⟩ := plain_of_prefix (fun _ => rfl)
                    (fun run hrun => (hmask run hrun).2)
                    (fun run hrun hinside => hfield.not_mem (by decide) (by decide) (by decide)
                      (by decide) (by decide) (hinside.subset (hmask run hrun).1))
                    hfield.getLast? htext
                  have hshorter : after.length < length := by
                    have hlengths := congrArg List.length hportions
                    have hpos : 0 < hit.text.length := by
                      obtain ⟨_, _, hhead, -⟩ := hfield.head
                      rw [hhead]
                      exact Nat.succ_pos _
                    rw [List.length_cons, List.length_append, List.length_map] at hlengths
                    omega
                  rw [hportions] at hwhole ⊢
                  have hafter := ih after.length hshorter (placed_of_plain hwhole) hrest rfl
                  obtain ⟨front, value, hopening, hvalue, hhit', hchange⟩ := found_shape hhit
                  rw [List.flatMap_append, flatMap_plain fun _ => rfl, substitute_found, hchange]
                  rw [hhit'] at hafter ⊢
                  have hvalue' : Edits words (before ++ (front ++ ['"']))
                      (value ++ '"' :: after.flatMap Portion.text)
                      (redacted ++ '"' :: substitute changeCvv pieces) := by
                    refine .value hopening hvalue (.kept ?_)
                    simpa using hafter
                  simpa using hvalue'.keep

/-! ## What is asked of redaction -/

theorem redactText_eq (text : List Char) :
    redactText words text = substitute changeCvv (cvvPattern.scan (scrub words text)) := rfl

theorem edits_redactText (text : List Char) : Edits words [] text (redactText words text) := by
  have hscans := scans_scan cvvPattern (scrub words text)
  rw [← portions_shown] at hscans
  have hedits := edits_substitute (placed_portions text) hscans
  rw [portions_text, portions_shown] at hedits
  exact hedits

theorem Placed.holdsCard {before : List Char} {portions : List Portion}
    (h : Placed words before portions) {run : List Char} (hrun : Portion.number run ∈ portions) :
    HoldsCard words (before ++ portions.flatMap Portion.text) := by
  induction portions generalizing before with
  | nil => cases hrun
  | cons portion portions ih =>
      rw [List.flatMap_cons, ← List.append_assoc]
      cases portion with
      | plain char =>
          rcases List.mem_cons.mp hrun with hsame | hrun
          · cases hsame
          · exact ih h hrun
      | number other =>
          rcases List.mem_cons.mp hrun with hsame | hrun
          · cases hsame
            exact ⟨before, _, _, rfl, h.1⟩
          · exact ih h.2 hrun

/-- A text without card numbers is not masked. -/
theorem scrub_eq_self {text : List Char} (h : ¬ HoldsCard words text) :
    scrub words text = text := by
  have hnone : ∀ run, Portion.number run ∉ portions words text := by
    intro run hrun
    have hholds := (placed_portions text).holdsCard hrun
    rw [portions_text] at hholds
    exact h hholds
  have hsame : ∀ portion ∈ portions words text, portion.shown = portion.text := by
    intro portion hportion
    cases portion with
    | plain char => rfl
    | number run => exact absurd hportion (hnone run)
  calc scrub words text = (portions words text).flatMap Portion.shown := (portions_shown text).symm
    _ = (portions words text).flatMap Portion.text := List.flatMap_congr hsame
    _ = text := portions_text text

theorem holdsCard_redactText_iff (text : List Char) :
    HoldsCard words (redactText words text) ↔
      ∃ stretch ∈ stretches [] [] (portions words text), HoldsCard words stretch.text := by
  have hshown : HoldsCard words ([] ++ [] ++ (portions words text).flatMap Portion.shown) ↔
      ∃ stretch ∈ stretches [] [] (portions words text), HoldsCard words stretch.text :=
    holdsCard_shown_iff [] [] fun run hrun => (placed_portions text).of_mem hrun
  rw [portions_shown] at hshown
  exact (holdsCard_substitute_iff (scans_scan cvvPattern (scrub words text)) []).trans hshown

theorem holdsField_redactText_iff (text : List Char) :
    HoldsField (redactText words text) ↔ HoldsOverlap text := by
  have hscans := scans_scan cvvPattern (scrub words text)
  have hscrub : HoldsOverlap (scrub words text) ↔ HoldsOverlap text := holdsOverlap_scrub_iff text
  rw [← hscrub]
  exact ⟨holdsOverlap_of_substitute hscans, holdsField_substitute hscans⟩

variable (words) in
/-- What redaction is for. -/
structure Redacts (text : List Char) : Prop where
  noCard : ¬ HoldsCard words (redactText words text)
  edits : Edits words [] text (redactText words text)
  idempotent : redactText words (redactText words text) = redactText words text

variable (words) in
/-- No card number is wholly in a text's own part of a stretch, where it was judged as a part of a
longer run of digits; none is completed by digits that masks keep; and no two fields overlap. -/
structure Clear (text : List Char) : Prop where
  judged : ∀ stretch ∈ stretches [] [] (portions words text), ∀ before run after,
    stretch.own = before ++ run ++ after →
      ¬ CardNumber words (stretch.kept ++ before) run (after ++ stretch.next)
  completed : ∀ stretch ∈ stretches [] [] (portions words text), ∀ before run after,
    stretch.text = before ++ run ++ after → CardNumber words before run after →
      stretch.kept.length ≤ before.length ∧ stretch.next.length ≤ after.length
  apart : ¬ HoldsOverlap text

/-- A card number in a stretch is in the text's own part or has kept digits. -/
theorem not_holdsCard_stretch_iff (stretch : Stretch) :
    ¬ HoldsCard words stretch.text ↔
      (∀ before run after, stretch.own = before ++ run ++ after →
        ¬ CardNumber words (stretch.kept ++ before) run (after ++ stretch.next)) ∧
      ∀ before run after, stretch.text = before ++ run ++ after →
        CardNumber words before run after →
          stretch.kept.length ≤ before.length ∧ stretch.next.length ≤ after.length := by
  constructor
  · intro h
    constructor
    · intro before run after hown card
      refine h ⟨stretch.kept ++ before, run, after ++ stretch.next, ?_, card⟩
      unfold Stretch.text
      rw [hown]
      simp
    · intro before run after htext card
      exact absurd ⟨before, run, after, htext, card⟩ h
  · rintro ⟨hjudged, hcompleted⟩ ⟨before, run, after, htext, card⟩
    obtain ⟨hkept, hnext⟩ := hcompleted before run after htext card
    unfold Stretch.text at htext
    have hfront : stretch.kept <+: before ++ run ++ after := by
      rw [← htext, List.append_assoc]
      exact List.prefix_append _ _
    rw [List.append_assoc] at hfront
    obtain ⟨front, rfl⟩ := List.prefix_of_prefix_length_le hfront (List.prefix_append _ _) hkept
    have hback : stretch.next <:+ stretch.kept ++ front ++ run ++ after := by
      rw [← htext]
      exact List.suffix_append _ _
    obtain ⟨back, rfl⟩ := List.suffix_of_suffix_length_le hback (List.suffix_append _ _) hnext
    refine hjudged front run back ?_ card
    simp only [List.append_assoc, List.append_cancel_left_eq] at htext
    refine (List.append_left_inj stretch.next).mp ?_
    simpa only [List.append_assoc] using htext

/-- Redaction is what it is meant to be exactly on clear texts. -/
theorem redacts_iff (text : List Char) : Redacts words text ↔ Clear words text := by
  have hcards : ¬ HoldsCard words (redactText words text) ↔
      ∀ stretch ∈ stretches [] [] (portions words text), ¬ HoldsCard words stretch.text := by
    rw [holdsCard_redactText_iff]
    simp only [not_exists, not_and]
  have hagain : ¬ HoldsCard words (redactText words text) →
      (redactText words (redactText words text) = redactText words text ↔
        ¬ HoldsOverlap text) := by
    intro hnone
    rw [redactText_eq (redactText words text), scrub_eq_self hnone,
      substitute_eq_iff (scans_scan cvvPattern _), holdsField_redactText_iff]
  constructor
  · rintro ⟨hnone, -, hidempotent⟩
    have hstretches := hcards.mp hnone
    refine ⟨fun stretch hstretch => ?_, fun stretch hstretch => ?_, (hagain hnone).mp hidempotent⟩
    · exact ((not_holdsCard_stretch_iff stretch).mp (hstretches stretch hstretch)).1
    · exact ((not_holdsCard_stretch_iff stretch).mp (hstretches stretch hstretch)).2
  · rintro ⟨hjudged, hcompleted, hapart⟩
    have hnone := hcards.mpr fun stretch hstretch => (not_holdsCard_stretch_iff stretch).mpr
      ⟨hjudged stretch hstretch, hcompleted stretch hstretch⟩
    exact ⟨hnone, edits_redactText text, (hagain hnone).mpr hapart⟩

theorem digitRun_of_all {run : List Char} {count : Nat}
    (h : run.all isDecimal = true) (hcount : run.length = count + 1) :
    DigitRun (count + 1) run := by
  induction run generalizing count with
  | nil => cases hcount
  | cons char run ih =>
      obtain ⟨hchar, hrest⟩ := Bool.and_eq_true_iff.mp h
      cases count with
      | zero =>
          obtain rfl := List.length_eq_zero_iff.mp (Nat.succ.inj hcount)
          exact .last hchar
      | succ count => exact .next hchar (ih hrest (Nat.succ.inj hcount))

/-- A card number that more digits follow is judged together with them; the last four digits of
one that is masked make a card number with digits that follow; and the quote that closes one
value opens the key of the next. -/
theorem redaction_fails :
    ¬ Redacts .known "4111111111111111 123".toList ∧
      ¬ Redacts .known "4111111111111111 123456000".toList ∧
        ¬ Redacts .known "\"cvv\":\"123\"cvv\":\"456\"".toList := by
  refine ⟨fun h => ?_, fun h => ?_, fun h => ?_⟩
  · have hshown : redactText .known "4111111111111111 123".toList =
        "4111111111111111 123".toList := by
      decide +kernel
    refine h.noCard ?_
    rw [hshown]
    exact ⟨[], "4111111111111111".toList, " 123".toList, by decide,
      ⟨16, by decide, by decide, digitRun_of_all (by decide) rfl⟩, by decide, by decide,
      by decide⟩
  · have hshown : redactText .known "4111111111111111 123456000".toList =
        "411111******1111 123456000".toList := by
      decide +kernel
    refine h.noCard ?_
    rw [hshown]
    have hnine : DigitRun 9 "123456000".toList := digitRun_of_all (by decide) rfl
    have hone : isDecimal '1' = true := by decide
    exact ⟨"411111******".toList, '1' :: '1' :: '1' :: '1' :: ' ' :: "123456000".toList, [],
      by decide, ⟨13, by decide, by decide, .next hone (.next hone (.next hone
        (.spaced hone (by decide) hnine)))⟩, by decide, by decide, by decide⟩
  · have hagain := h.idempotent
    revert hagain
    decide +kernel

end

end PayzenoLedger
