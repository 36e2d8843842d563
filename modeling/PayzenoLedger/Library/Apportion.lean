import Mathlib.Algebra.BigOperators.Ring.Finset
import Mathlib.Algebra.Order.BigOperators.Group.Finset
import Mathlib.Algebra.Order.Floor.Ring
import Mathlib.Data.Fintype.BigOperators
import Mathlib.Data.Rat.Floor
import Mathlib.Tactic.Linarith

/-!
# Largest remainders

A total is split into whole parts: each share is rounded down, and what that leaves over
goes, one by one, to the shares with the largest fractions.  The shares are known only
nearly; the results say what the error of all of them together costs.
-/

set_option autoImplicit false

namespace PayzenoLedger.Library

namespace Apportion

open Finset

variable {n : Nat} (share approx : Fin n → ℚ) (total : Int) (raised : Finset (Fin n))

/-- As many are raised as the floors leave over, and those with the largest fractions. -/
structure Raises : Prop where
  count : (raised.card : Int) = total - ∑ i, ⌊approx i⌋
  largest : ∀ i ∈ raised, ∀ j ∉ raised, Int.fract (approx j) ≤ Int.fract (approx i)

def part (i : Fin n) : Int :=
  ⌊approx i⌋ + if i ∈ raised then 1 else 0

/-- The shares make up the total, and all of them together are known up to the slack. -/
structure Known (slack : ℚ) : Prop where
  whole : ∑ i, share i = total
  error : ∑ i, |approx i - share i| ≤ slack

variable {share approx total raised} {slack : ℚ}

theorem Known.error_le (known : Known share approx total slack) (i : Fin n) :
    |approx i - share i| ≤ slack :=
  (single_le_sum (fun j _ => abs_nonneg (approx j - share j)) (mem_univ i)).trans known.error

theorem Known.abs_sum_sub_le (known : Known share approx total slack) :
    |∑ i, approx i - total| ≤ slack := by
  rw [← known.whole, ← sum_sub_distrib]
  exact (abs_sum_le_sum_abs _ _).trans known.error

/-- The floors leave nothing below nought over, and not more than one for each share. -/
theorem Known.leftover (known : Known share approx total slack) (hslack : slack < 1) :
    0 ≤ total - ∑ i, ⌊approx i⌋ ∧ total - ∑ i, ⌊approx i⌋ ≤ n := by
  have hnear := abs_le.mp known.abs_sum_sub_le
  have hlow : ((∑ i, ⌊approx i⌋ : Int) : ℚ) ≤ ∑ i, approx i := by
    rw [Int.cast_sum]
    exact sum_le_sum fun i _ => Int.floor_le _
  have hhigh : ∑ i, approx i ≤ ((∑ i, ⌊approx i⌋ : Int) : ℚ) + n := by
    have hone : ∑ i : Fin n, (1 : ℚ) = n := by simp
    rw [Int.cast_sum, ← hone, ← sum_add_distrib]
    exact sum_le_sum fun i _ => (Int.lt_floor_add_one _).le
  generalize ∑ i, ⌊approx i⌋ = floors at hlow hhigh ⊢
  have hfirst : (floors : ℚ) < ((total + 1 : Int) : ℚ) := by
    push_cast
    linarith
  have hsecond : (total : ℚ) < ((floors + n + 1 : Int) : ℚ) := by
    push_cast
    linarith
  have hfirst' := Int.cast_lt.mp hfirst
  have hsecond' := Int.cast_lt.mp hsecond
  omega

theorem Raises.sum_part (raises : Raises approx total raised) :
    ∑ i, part approx raised i = total := by
  have hraised : ∑ i, (if i ∈ raised then 1 else 0 : Int) = raised.card := by
    rw [sum_boole, filter_univ_mem]
  unfold part
  rw [sum_add_distrib, hraised, raises.count]
  omega

/-- A part is within one of a number, up to how far its share is from it. -/
theorem abs_part_sub_le (i : Fin n) (x : ℚ) :
    |(part approx raised i : ℚ) - x| ≤ 1 + |approx i - x| := by
  have hlow := Int.floor_le (approx i)
  have hhigh := Int.lt_floor_add_one (approx i)
  have hclose : |(part approx raised i : ℚ) - approx i| ≤ 1 := by
    unfold part
    rw [abs_le]
    split_ifs
    · push_cast
      exact ⟨by linarith, by linarith⟩
    · push_cast
      exact ⟨by linarith, by linarith⟩
  exact (abs_sub_le _ (approx i) _).trans (by linarith)

/-- How many are raised is the sum of the fractions, up to the slack. -/
theorem Raises.abs_card_sub_le (raises : Raises approx total raised)
    (known : Known share approx total slack) :
    |∑ i, Int.fract (approx i) - raised.card| ≤ slack := by
  have hcount : (raised.card : ℚ) = total - ∑ i, (⌊approx i⌋ : ℚ) := by
    rw [← Int.cast_sum, ← Int.cast_sub, ← raises.count, Int.cast_natCast]
  have hfract : ∑ i, Int.fract (approx i) = ∑ i, approx i - ∑ i, (⌊approx i⌋ : ℚ) :=
    sum_sub_distrib _ _
  rw [hfract, hcount, sub_sub_sub_cancel_right]
  exact known.abs_sum_sub_le

/-- One that is raised was not below its floor, unless many fractions are next to nothing. -/
theorem Raises.floor_le_share (raises : Raises approx total raised)
    (known : Known share approx total slack) (hslack : (n + 1) * slack ≤ 1) {i : Fin n}
    (hi : i ∈ raised) : (⌊approx i⌋ : ℚ) ≤ share i := by
  by_contra hbelow
  rw [not_le] at hbelow
  have herror := abs_le.mp (known.error_le i)
  have hsmall : Int.fract (approx i) < slack := by
    unfold Int.fract
    linarith
  have hrest : ∑ j ∈ raisedᶜ, Int.fract (approx j) ≤ (n - raised.card) * slack := by
    have hcard : ((raisedᶜ).card : ℚ) = n - raised.card := by
      rw [card_compl, Fintype.card_fin, Nat.cast_sub (by simpa using card_le_univ raised)]
    rw [← hcard, ← nsmul_eq_mul]
    exact sum_le_card_nsmul _ _ _ fun j hj =>
      (raises.largest i hi j (mem_compl.mp hj)).trans hsmall.le
  have hraised : ∑ j ∈ raised, Int.fract (approx j) ≤
      Int.fract (approx i) + (raised.card - 1) := by
    have hcard : ((raised.erase i).card : ℚ) = raised.card - 1 := by
      rw [card_erase_of_mem hi, Nat.cast_sub (card_pos.mpr ⟨i, hi⟩), Nat.cast_one]
    rw [← add_sum_erase _ _ hi, ← hcard]
    have hone := sum_le_card_nsmul (raised.erase i) (fun j => Int.fract (approx j)) 1
      fun j _ => (Int.fract_lt_one _).le
    rw [nsmul_one] at hone
    linarith
  have hcard := abs_le.mp (raises.abs_card_sub_le known)
  rw [← sum_add_sum_compl raised] at hcard
  have hpos : (1 : ℚ) ≤ raised.card := by
    exact_mod_cast card_pos.mpr ⟨i, hi⟩
  have hnonneg : 0 ≤ slack := (abs_nonneg _).trans (known.error_le i)
  have hfew := mul_le_mul_of_nonneg_right hpos hnonneg
  linarith

/-- One that is not raised was not above its floor by more than one, unless many fractions are
next to one. -/
theorem Raises.share_le_floor (raises : Raises approx total raised)
    (known : Known share approx total slack) (hslack : (n + 1) * slack ≤ 1) {i : Fin n}
    (hi : i ∉ raised) : share i ≤ ⌊approx i⌋ + 1 := by
  by_contra habove
  rw [not_le] at habove
  have herror := abs_le.mp (known.error_le i)
  have hlarge : 1 - slack < Int.fract (approx i) := by
    unfold Int.fract
    linarith
  have hraised : raised.card * (1 - slack) ≤ ∑ j ∈ raised, Int.fract (approx j) := by
    rw [← nsmul_eq_mul]
    exact card_nsmul_le_sum _ _ _ fun j hj => hlarge.le.trans (raises.largest j hj i hi)
  have hrest : Int.fract (approx i) ≤ ∑ j ∈ raisedᶜ, Int.fract (approx j) :=
    single_le_sum (fun j _ => Int.fract_nonneg _) (mem_compl.mpr hi)
  have hcard := abs_le.mp (raises.abs_card_sub_le known)
  rw [← sum_add_sum_compl raised] at hcard
  have hfew : (raised.card : ℚ) + 1 ≤ n := by
    have hless := card_lt_univ_of_notMem hi
    rw [Fintype.card_fin] at hless
    exact_mod_cast hless
  have hnonneg : 0 ≤ slack := (abs_nonneg _).trans (known.error_le i)
  have hless := mul_le_mul_of_nonneg_right hfew hnonneg
  linarith

/-- Every part is within one of its share, if the slack is small for so many shares. -/
theorem Raises.abs_part_sub_le_one (raises : Raises approx total raised)
    (known : Known share approx total slack) (hslack : (n + 1) * slack ≤ 1) (i : Fin n) :
    |(part approx raised i : ℚ) - share i| ≤ 1 := by
  have hlow := Int.floor_le (approx i)
  have hhigh := Int.lt_floor_add_one (approx i)
  have herror := abs_le.mp (known.error_le i)
  have hnonneg : 0 ≤ slack := (abs_nonneg _).trans (known.error_le i)
  have hsmall : slack ≤ 1 := by
    have hcount : (0 : ℚ) ≤ n * slack := by positivity
    linarith
  unfold part
  rw [abs_le]
  split_ifs with hi
  · have hfloor := raises.floor_le_share known hslack hi
    push_cast
    exact ⟨by linarith, by linarith⟩
  · have hfloor := raises.share_le_floor known hslack hi
    push_cast
    exact ⟨by linarith, by linarith⟩

/-- Every part is within one of its share, however many shares there are, if the share is a
number of fractions of the whole and known to less than one of them. -/
theorem abs_part_sub_le_one_of_lt {count whole : Int} {known : ℚ} {i : Fin n} (hwhole : 0 < whole)
    (hshare : known = count / whole) (hnear : |approx i - known| < 1 / whole) :
    |(part approx raised i : ℚ) - known| ≤ 1 := by
  have hpositive : (0 : ℚ) < whole := by exact_mod_cast hwhole
  have hfraction : 1 / (whole : ℚ) ≤ 1 := by
    rw [div_le_one hpositive]
    exact_mod_cast hwhole
  have hbounds := abs_lt.mp hnear
  have hlow := Int.floor_le (known)
  have hhigh := Int.lt_floor_add_one (known)
  -- Below the next whole number there is a whole fraction's room.
  have hroom : known + 1 / whole ≤ ⌊known⌋ + 1 := by
    rw [hshare, div_lt_iff₀ hpositive] at hhigh
    have hcount : count + 1 ≤ (⌊(count : ℚ) / whole⌋ + 1) * whole := by
      have hless : count < (⌊(count : ℚ) / whole⌋ + 1) * whole := by exact_mod_cast hhigh
      omega
    rw [hshare, ← add_div, div_le_iff₀ hpositive]
    exact_mod_cast hcount
  have hupper : ⌊approx i⌋ ≤ ⌊known⌋ := by
    have hless : approx i < ((⌊known⌋ + 1 : Int) : ℚ) := by
      push_cast
      linarith
    exact Int.lt_add_one_iff.mp (Int.floor_lt.mpr hless)
  have hlower : known - 1 ≤ (⌊approx i⌋ : ℚ) := by
    rcases hlow.eq_or_lt with hexact | hmore
    · have hbelow : ⌊known⌋ - 1 ≤ ⌊approx i⌋ := by
        refine Int.le_floor.mpr ?_
        push_cast
        linarith
      have hcast : ((⌊known⌋ - 1 : Int) : ℚ) ≤ ⌊approx i⌋ := by exact_mod_cast hbelow
      push_cast at hcast
      linarith
    · -- Above the whole number there is one too.
      have hstep : (⌊known⌋ : ℚ) + 1 / whole ≤ known := by
        rw [hshare, lt_div_iff₀ hpositive] at hmore
        have hcount : ⌊(count : ℚ) / whole⌋ * whole + 1 ≤ count := by
          have hless : ⌊(count : ℚ) / whole⌋ * whole < count := by exact_mod_cast hmore
          omega
        rw [hshare, le_div_iff₀ hpositive, add_mul, one_div_mul_cancel hpositive.ne']
        exact_mod_cast hcount
      have hbelow : ⌊known⌋ ≤ ⌊approx i⌋ := Int.le_floor.mpr (by linarith)
      have hcast : (⌊known⌋ : ℚ) ≤ ⌊approx i⌋ := by exact_mod_cast hbelow
      linarith
  have hcast : (⌊approx i⌋ : ℚ) ≤ ⌊known⌋ := by exact_mod_cast hupper
  unfold part
  rw [abs_le]
  split_ifs
  · push_cast
    exact ⟨by linarith, by linarith⟩
  · push_cast
    exact ⟨by linarith, by linarith⟩

/-- A larger share does not get the smaller part. -/
theorem Raises.part_mono (raises : Raises approx total raised) {i j : Fin n}
    (h : approx i < approx j) : part approx raised i ≤ part approx raised j := by
  have hfloor := Int.floor_le_floor h.le
  unfold part
  by_cases hi : i ∈ raised
  · by_cases hj : j ∈ raised
    · rw [if_pos hi, if_pos hj]
      omega
    · rw [if_pos hi, if_neg hj]
      have hfract := raises.largest i hi j hj
      -- With one floor for both the larger share would have the larger fraction.
      have hne : ⌊approx i⌋ ≠ ⌊approx j⌋ := by
        intro heq
        unfold Int.fract at hfract
        rw [heq] at hfract
        linarith
      omega
  · rw [if_neg hi]
    split_ifs <;> omega

/-- Nothing is split into nothing. -/
theorem Raises.part_eq_zero (raises : Raises approx 0 raised) (h : ∀ i, approx i = 0)
    (i : Fin n) : part approx raised i = 0 := by
  have hcount := raises.count
  simp only [h, Int.floor_zero, sum_const_zero, sub_zero] at hcount
  have hnone : raised = ∅ := card_eq_zero.mp (by exact_mod_cast hcount)
  unfold part
  rw [h, Int.floor_zero, hnone, if_neg (notMem_empty i), add_zero]

/-- Equal shares get parts that differ by one at most. -/
theorem abs_part_sub_part_le {i j : Fin n} (h : approx i = approx j) :
    |part approx raised i - part approx raised j| ≤ 1 := by
  unfold part
  rw [h, abs_le]
  split_ifs <;> omega

end Apportion

end PayzenoLedger.Library
