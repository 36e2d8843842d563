import Mathlib.Algebra.BigOperators.Group.List.Basic
import Mathlib.Data.List.Sort
import Mathlib.Data.List.Dedup
import Mathlib.Order.Lattice
import Mathlib.Algebra.Ring.Int.Defs

/-!
# Buckets

Rows grouped by a bucket each of them falls into, the groups in increasing order of the bucket.
The sums of the groups up to a bucket add up to the sum of the rows up to it.
-/

set_option autoImplicit false

namespace PayzenoLedger.Library

namespace Buckets

section

variable {α κ : Type} [LinearOrder κ] (bucket : α → κ)

/-- The buckets that some row falls into, each once and in increasing order. -/
def starts (rows : List α) : List κ :=
  (rows.map bucket).dedup.insertionSort fun first second => first ≤ second

def group (rows : List α) (start : κ) : List α :=
  rows.filter fun row => bucket row = start

variable {bucket}

theorem mem_starts {rows : List α} {start : κ} :
    start ∈ starts bucket rows ↔ ∃ row ∈ rows, bucket row = start := by
  unfold starts
  rw [List.mem_insertionSort, List.mem_dedup, List.mem_map]

theorem starts_increase (rows : List α) :
    (starts bucket rows).Pairwise fun first second => first < second := by
  have hsorted : (starts bucket rows).Pairwise fun first second => first ≤ second :=
    List.pairwise_insertionSort _ _
  have hdistinct : (starts bucket rows).Nodup :=
    (List.perm_insertionSort _ _).nodup_iff.mpr (List.nodup_dedup _)
  exact (hsorted.and hdistinct).imp fun h => lt_of_le_of_ne h.1 h.2

variable (bucket) in
/-- The sum of one group is the part that its bucket adds to what other buckets hold. -/
theorem sum_filter_insert (weight : α → Int) (rows : List α) {seen : κ → Bool} {start : κ}
    (h : seen start = false) :
    ((rows.filter fun row => decide (bucket row = start) || seen (bucket row)).map weight).sum =
      ((group bucket rows start).map weight).sum +
        ((rows.filter fun row => seen (bucket row)).map weight).sum := by
  induction rows with
  | nil => rfl
  | cons row rows ih =>
      unfold group at ih ⊢
      by_cases hstart : bucket row = start
      · simp only [List.filter_cons, hstart, h, decide_true, Bool.true_or, if_true,
          List.map_cons, List.sum_cons, ih, Bool.false_eq_true, if_false]
        omega
      · by_cases hseen : seen (bucket row) = true
        · simp only [List.filter_cons, hseen, hstart, decide_false, Bool.or_true, if_true,
            List.map_cons, List.sum_cons, ih, Bool.false_eq_true, if_false]
          omega
        · simp only [List.filter_cons, hseen, hstart, decide_false, Bool.or_false, if_false,
            ih, Bool.false_eq_true]

variable (bucket) in
theorem sum_groups (weight : α → Int) (rows : List α) {buckets : List κ} (h : buckets.Nodup) :
    (buckets.map fun start => ((group bucket rows start).map weight).sum).sum =
      ((rows.filter fun row => buckets.contains (bucket row)).map weight).sum := by
  induction buckets with
  | nil =>
      have hnone : (rows.filter fun row => ([] : List κ).contains (bucket row)) = [] :=
        List.filter_eq_nil_iff.mpr fun _ _ => Bool.false_ne_true
      rw [hnone]
      rfl
  | cons start buckets ih =>
      obtain ⟨hstart, hbuckets⟩ := List.nodup_cons.mp h
      have hseen : buckets.contains start = false :=
        Bool.eq_false_iff.mpr fun hmem => hstart (List.contains_iff_mem.mp hmem)
      have hfilter : (rows.filter fun row => (start :: buckets).contains (bucket row)) =
          rows.filter fun row =>
            decide (bucket row = start) || buckets.contains (bucket row) := by
        refine List.filter_congr fun row _ => ?_
        rw [List.contains_cons, ← beq_eq_decide]
      rw [List.map_cons, List.sum_cons, ih hbuckets, hfilter,
        sum_filter_insert bucket weight rows hseen]

/-- The groups up to a bucket hold the rows up to it. -/
theorem sum_upTo (weight : α → Int) {rows : List α} {before after : List κ} {start : κ}
    (h : starts bucket rows = before ++ start :: after) :
    ((before ++ [start]).map fun start => ((group bucket rows start).map weight).sum).sum =
      ((rows.filter fun row => bucket row ≤ start).map weight).sum := by
  have hincrease : (starts bucket rows).Pairwise (· < ·) := starts_increase rows
  rw [h] at hincrease
  obtain ⟨hbefore, hafter, hcross⟩ := List.pairwise_append.mp hincrease
  have hnodup : (before ++ [start]).Nodup := by
    rw [List.append_cons] at hincrease
    exact (List.pairwise_append.mp hincrease).1.imp fun hlt => ne_of_lt hlt
  rw [sum_groups bucket weight rows hnodup]
  refine congrArg (fun rows => (List.map weight rows).sum) (List.filter_congr fun row hrow => ?_)
  have hmem : bucket row ∈ before ++ start :: after := h ▸ mem_starts.mpr ⟨row, hrow, rfl⟩
  rw [List.contains_eq_mem, decide_eq_decide]
  constructor
  · intro hupTo
    rcases List.mem_append.mp hupTo with hin | hin
    · exact le_of_lt (hcross _ hin _ List.mem_cons_self)
    · exact le_of_eq (List.mem_singleton.mp hin)
  · intro hle
    rcases List.mem_append.mp hmem with hin | hin
    · exact List.mem_append_left _ hin
    · rcases List.mem_cons.mp hin with hin | hin
      · exact List.mem_append_right _ (List.mem_singleton.mpr hin)
      · exact absurd ((List.pairwise_cons.mp hafter).1 _ hin) (not_lt_of_ge hle)

end

end Buckets

end PayzenoLedger.Library
