import Mathlib.Data.List.Sort

/-!
# Keyset pages

Rows under a key that no two of them share, read in descending order of the key from a bound
on.  What is left after a page is what lies below the key of its last row, so pages that are
each bounded by the page before it divide the rows between them.
-/

set_option autoImplicit false

namespace PayzenoLedger.Library

namespace Keyset

section

variable {α κ : Type} [LinearOrder κ] (key : α → κ)

def descending (rows : List α) : List α :=
  rows.insertionSort fun first second => key second ≤ key first

/-- Each row has a smaller key than the rows before it. -/
def Descends (rows : List α) : Prop :=
  rows.Pairwise fun first second => key second < key first

def below (bound : Option κ) (row : α) : Bool :=
  match bound with
  | none => true
  | some bound => key row < bound

/-- The rows left to read below a bound. -/
def remaining (rows : List α) (bound : Option κ) : List α :=
  descending key (rows.filter (below key bound))

variable {key}

theorem descending_perm (rows : List α) : (descending key rows).Perm rows :=
  List.perm_insertionSort _ rows

theorem descends_descending {rows : List α} (hkeys : (rows.map key).Nodup) :
    Descends key (descending key rows) := by
  have hsorted : (descending key rows).Pairwise fun first second => key second ≤ key first := by
    have : Std.Total fun first second : α => key second ≤ key first :=
      ⟨fun first second => le_total (key second) (key first)⟩
    have : IsTrans α fun first second => key second ≤ key first :=
      ⟨fun _ _ _ hfirst hsecond => hsecond.trans hfirst⟩
    exact List.pairwise_insertionSort _ rows
  have hdistinct : (descending key rows).Pairwise fun first second => key first ≠ key second :=
    List.pairwise_map.mp (((descending_perm rows).map key).nodup_iff.mpr hkeys)
  exact (hsorted.and hdistinct).imp fun h => lt_of_le_of_ne h.1 (Ne.symm h.2)

/-- There is one descending arrangement of rows. -/
theorem descending_eq {rows arranged : List α} (hperm : arranged.Perm rows)
    (h : Descends key arranged) : descending key rows = arranged := by
  have hdistinct : (rows.map key).Nodup := by
    refine (hperm.map key).nodup_iff.mp (List.pairwise_map.mpr ?_)
    exact h.imp fun hlt => ne_of_gt hlt
  refine ((descending_perm rows).trans hperm.symm).eq_of_pairwise ?_
    (descends_descending hdistinct) h
  intro first second _ _ hsecond hfirst
  exact absurd hsecond (lt_asymm hfirst)

theorem descending_filter {rows : List α} (hkeys : (rows.map key).Nodup) (test : α → Bool) :
    descending key (rows.filter test) = (descending key rows).filter test :=
  descending_eq ((descending_perm rows).filter test) ((descends_descending hkeys).filter test)

/-- Below the key of a row lie the rows after it. -/
theorem filter_below {front rest : List α} {last : α}
    (h : Descends key (front ++ last :: rest)) :
    (front ++ last :: rest).filter (below key (some (key last))) = rest := by
  obtain ⟨-, hlast, hcross⟩ := List.pairwise_append.mp h
  have hfront : front.filter (below key (some (key last))) = [] := by
    refine List.filter_eq_nil_iff.mpr fun row hrow hbelow => ?_
    have habove := hcross row hrow last List.mem_cons_self
    exact lt_asymm habove (of_decide_eq_true hbelow)
  have hrest : rest.filter (below key (some (key last))) = rest :=
    List.filter_eq_self.mpr fun row hrow =>
      decide_eq_true ((List.pairwise_cons.mp hlast).1 row hrow)
  have hself : ¬ below key (some (key last)) last = true := fun hbelow =>
    lt_irrefl _ (of_decide_eq_true hbelow)
  rw [List.filter_append, hfront, List.filter_cons_of_neg hself, hrest, List.nil_append]

/-- The rows left after a page are those below the key of its last row. -/
theorem remaining_after {rows front rest : List α} {bound : Option κ} {last : α}
    (hkeys : (rows.map key).Nodup) (h : remaining key rows bound = front ++ last :: rest) :
    remaining key rows (some (key last)) = rest := by
  have hdescends : Descends key (remaining key rows bound) :=
    descends_descending (hkeys.sublist (List.filter_sublist.map key))
  unfold remaining at h hdescends ⊢
  rw [descending_filter hkeys] at h hdescends ⊢
  have hlast : below key bound last = true := by
    have hmem : last ∈ (descending key rows).filter (below key bound) := by
      rw [h]
      exact List.mem_append_right front List.mem_cons_self
    exact (List.mem_filter.mp hmem).2
  -- What is below the last row is below the bound too, so the first filter may stay.
  have hboth (row : α) : below key (some (key last)) row =
      (below key (some (key last)) row && below key bound row) := by
    cases bound with
    | none => exact (Bool.and_true _).symm
    | some bound =>
        cases hbelow : below key (some (key last)) row with
        | false => rfl
        | true =>
            have hbound := (of_decide_eq_true hbelow).trans (of_decide_eq_true hlast)
            rw [Bool.true_and]
            exact (decide_eq_true hbound).symm
  rw [List.filter_congr fun row _ => hboth row, ← List.filter_filter, h]
  rw [h] at hdescends
  exact filter_below hdescends

end

end Keyset

end PayzenoLedger.Library
