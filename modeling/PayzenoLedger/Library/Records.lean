import Mathlib.Data.List.Basic
import Mathlib.Data.List.Induction
import Mathlib.Order.Lattice

/-!
# Left-to-right maxima

The elements of a list that are newer than all that came before them.  They are
what a reader keeps who drops every element that is not newer than the newest
one so far.
-/

set_option autoImplicit false

namespace PayzenoLedger.Library

variable {α T : Type} [LinearOrder T] (time : α → T)

/-- The elements newer than a bound and than all that came before them. -/
def recordsAbove : T → List α → List α
  | _, [] => []
  | bound, first :: rest =>
      if bound < time first then first :: recordsAbove (time first) rest
      else recordsAbove bound rest

/-- The left-to-right maxima; the first element is always one. -/
def records : List α → List α
  | [] => []
  | first :: rest => first :: recordsAbove time (time first) rest

variable {time}

theorem lt_of_mem_recordsAbove {bound : T} {elements : List α} {element : α}
    (hmem : element ∈ recordsAbove time bound elements) : bound < time element := by
  induction elements generalizing bound with
  | nil => cases hmem
  | cons first rest ih =>
      unfold recordsAbove at hmem
      split at hmem
      · next hlt =>
          rcases List.mem_cons.mp hmem with rfl | hrest
          · exact hlt
          · exact lt_trans hlt (ih hrest)
      · exact ih hmem

theorem pairwise_recordsAbove (bound : T) (elements : List α) :
    (recordsAbove time bound elements).Pairwise fun a b => time a < time b := by
  induction elements generalizing bound with
  | nil => exact List.Pairwise.nil
  | cons first rest ih =>
      unfold recordsAbove
      split
      · exact List.pairwise_cons.mpr ⟨fun _ hmem => lt_of_mem_recordsAbove hmem, ih _⟩
      · exact ih _

/-- The maxima get ever newer. -/
theorem pairwise_records (elements : List α) :
    (records time elements).Pairwise fun a b => time a < time b := by
  cases elements with
  | nil => exact List.Pairwise.nil
  | cons first rest =>
      exact List.pairwise_cons.mpr
        ⟨fun _ hmem => lt_of_mem_recordsAbove hmem, pairwise_recordsAbove _ rest⟩

/-- The last element of a list that gets newer is its newest. -/
theorem time_le_of_getLast? {elements : List α} {last element : α}
    (sorted : elements.Pairwise fun a b => time a < time b)
    (hlast : elements.getLast? = some last) (hmem : element ∈ elements) :
    time element ≤ time last := by
  induction elements with
  | nil => cases hmem
  | cons first rest ih =>
      obtain ⟨hfirst, hrest⟩ := List.pairwise_cons.mp sorted
      cases rest with
      | nil =>
          rw [List.getLast?_singleton, Option.some.injEq] at hlast
          rw [List.mem_singleton.mp hmem, hlast]
      | cons second rest =>
          rw [List.getLast?_cons_cons] at hlast
          rcases List.mem_cons.mp hmem with rfl | htail
          · exact le_of_lt (hfirst last (List.mem_of_getLast? hlast))
          · exact ih hrest hlast htail

/-- The newest element of a list that gets newer is its last. -/
theorem getLast?_eq_some_of_newest {elements : List α} {newest : α}
    (sorted : elements.Pairwise fun a b => time a < time b) (hmem : newest ∈ elements)
    (hnewest : ∀ element ∈ elements, time element ≤ time newest) :
    elements.getLast? = some newest := by
  induction elements with
  | nil => cases hmem
  | cons first rest ih =>
      obtain ⟨hfirst, hrest⟩ := List.pairwise_cons.mp sorted
      cases rest with
      | nil => rw [List.mem_singleton.mp hmem, List.getLast?_singleton]
      | cons second rest =>
          rw [List.getLast?_cons_cons]
          rcases List.mem_cons.mp hmem with rfl | htail
          · exact absurd (hfirst second List.mem_cons_self)
              (not_lt.mpr (hnewest second (List.mem_cons_of_mem _ List.mem_cons_self)))
          · exact ih hrest htail fun element helement =>
              hnewest element (List.mem_cons_of_mem _ helement)

/-! ## The newest element -/

variable (time) in
/-- Keep the better of the newest element so far and the next one. -/
def newer (best : Option α) (element : α) : Option α :=
  match best with
  | none => some element
  | some last => if time last < time element then some element else some last

variable (time) in
/-- The newest element, the first of them where several are as new. -/
def newest (elements : List α) : Option α :=
  elements.foldl (newer time) none

theorem newest_concat (elements : List α) (element : α) :
    newest time (elements ++ [element]) = newer time (newest time elements) element := by
  unfold newest
  rw [List.foldl_append]
  rfl

theorem newest_mem {elements : List α} {last : α} (h : newest time elements = some last) :
    last ∈ elements := by
  induction elements using List.reverseRecOn generalizing last with
  | nil => cases h
  | append_singleton elements final ih =>
      rw [newest_concat] at h
      unfold newer at h
      cases hprevious : newest time elements with
      | none =>
          rw [hprevious, Option.some.injEq] at h
          exact List.mem_append_right _ (List.mem_singleton.mpr h.symm)
      | some previous =>
          rw [hprevious] at h
          dsimp only at h
          split at h
          · rw [Option.some.injEq] at h
            exact List.mem_append_right _ (List.mem_singleton.mpr h.symm)
          · rw [Option.some.injEq] at h
            exact List.mem_append_left _ (ih (h ▸ hprevious))

theorem newest_eq_none_iff {elements : List α} :
    newest time elements = none ↔ elements = [] := by
  constructor
  · intro h
    cases elements using List.reverseRecOn with
    | nil => rfl
    | append_singleton elements final =>
        rw [newest_concat] at h
        unfold newer at h
        split at h
        · cases h
        · split at h <;> cases h
  · rintro rfl
    rfl

/-- Nothing is newer than the newest. -/
theorem time_le_newest {elements : List α} {last element : α}
    (h : newest time elements = some last) (hmem : element ∈ elements) :
    time element ≤ time last := by
  induction elements using List.reverseRecOn generalizing last with
  | nil => cases hmem
  | append_singleton elements final ih =>
      rw [newest_concat] at h
      unfold newer at h
      cases hprevious : newest time elements with
      | none =>
          rw [newest_eq_none_iff.mp hprevious] at hmem
          rw [hprevious, Option.some.injEq] at h
          rw [List.mem_singleton.mp hmem, h]
      | some previous =>
          rw [hprevious] at h
          dsimp only at h
          split at h <;> rw [Option.some.injEq] at h <;> subst h
          · next hlt =>
              rcases List.mem_append.mp hmem with hold | hnew
              · exact le_trans (ih hprevious hold) (le_of_lt hlt)
              · rw [List.mem_singleton.mp hnew]
          · next hnot =>
              rcases List.mem_append.mp hmem with hold | hnew
              · exact ih hprevious hold
              · rw [List.mem_singleton.mp hnew]
                exact not_lt.mp hnot

/-! ## Every element with those before it -/

/-- The property holds of every element and the elements before it. -/
def AtEach (P : List α → α → Prop) (elements : List α) : Prop :=
  ∀ before element after, elements = before ++ element :: after → P before element

theorem atEach_nil (P : List α → α → Prop) : AtEach P [] := by
  intro before element after h
  exact absurd h (by simp)

theorem atEach_cons {P : List α → α → Prop} {first : α} {rest : List α} :
    AtEach P (first :: rest) ↔
      P [] first ∧ AtEach (fun before element => P (first :: before) element) rest := by
  constructor
  · intro h
    constructor
    · exact h [] first rest rfl
    · intro before element after hsplit
      exact h (first :: before) element after (by rw [hsplit, List.cons_append])
  · rintro ⟨hfirst, hrest⟩ before element after hsplit
    cases before with
    | nil =>
        cases hsplit
        exact hfirst
    | cons head before =>
        cases hsplit
        exact hrest before element after rfl

theorem atEach_concat {P : List α → α → Prop} {elements : List α} {last : α} :
    AtEach P (elements ++ [last]) ↔ AtEach P elements ∧ P elements last := by
  constructor
  · intro h
    constructor
    · intro before element after hsplit
      exact h before element (after ++ [last]) (by rw [hsplit]; simp)
    · exact h elements last [] rfl
  · rintro ⟨h, hlast⟩ before element after hsplit
    cases after using List.reverseRecOn with
    | nil =>
        obtain ⟨rfl, hsame⟩ := List.append_inj' hsplit rfl
        cases hsame
        exact hlast
    | append_singleton after final =>
        rw [← List.cons_append, ← List.append_assoc] at hsplit
        obtain ⟨hsplit, -⟩ := List.append_inj' hsplit rfl
        exact h before element after hsplit

/-- The property holds of some element and the elements before it. -/
def Somewhere (P : List α → α → Prop) (elements : List α) : Prop :=
  ∃ before element after, elements = before ++ element :: after ∧ P before element

theorem not_somewhere_nil (P : List α → α → Prop) : ¬ Somewhere P [] := by
  rintro ⟨before, element, after, hsplit, -⟩
  exact absurd hsplit (by simp)

theorem somewhere_concat {P : List α → α → Prop} {elements : List α} {last : α} :
    Somewhere P (elements ++ [last]) ↔ Somewhere P elements ∨ P elements last := by
  constructor
  · rintro ⟨before, element, after, hsplit, helement⟩
    cases after using List.reverseRecOn with
    | nil =>
        obtain ⟨rfl, hsame⟩ := List.append_inj' hsplit rfl
        cases hsame
        exact .inr helement
    | append_singleton after final =>
        rw [← List.cons_append, ← List.append_assoc] at hsplit
        obtain ⟨hsplit, -⟩ := List.append_inj' hsplit rfl
        exact .inl ⟨before, element, after, hsplit, helement⟩
  · rintro (⟨before, element, after, rfl, helement⟩ | hlast)
    · exact ⟨before, element, after ++ [last], by simp, helement⟩
    · exact ⟨elements, last, [], rfl, hlast⟩

end PayzenoLedger.Library
