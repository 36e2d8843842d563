import Mathlib.Algebra.Order.Field.Rat
import Mathlib.Data.Nat.Log
import Mathlib.Data.Rat.Floor
import Mathlib.Tactic.FieldSimp
import Mathlib.Tactic.Linarith
import Mathlib.Tactic.Positivity
import Mathlib.Tactic.Ring

/-!
# Decimal arithmetic

Finite decimals, a signed coefficient at a power of ten, and the operations of the
decimal arithmetic specification under a context of bounded precision: a result is
rounded half to even when its coefficient has too many digits, and quantising
refuses a coefficient that is too long.  An operation whose exact result has few enough
digits is exact.
-/

set_option autoImplicit false

namespace PayzenoLedger.Library

/-! ## Rounding -/

/-- The quotient by a positive denominator, with a half rounded away from zero. -/
def roundHalfUp (numerator denominator : Int) : Int :=
  if 0 ≤ numerator then (2 * numerator + denominator) / (2 * denominator)
  else -((2 * -numerator + denominator) / (2 * denominator))

/-- The quotient by a positive denominator, with a half rounded to the even neighbour. -/
def roundHalfEven (numerator denominator : Int) : Int :=
  let quotient := numerator / denominator
  let twice := 2 * (numerator % denominator)
  if twice < denominator then quotient
  else if denominator < twice then quotient + 1
  else if quotient % 2 = 0 then quotient
  else quotient + 1

/-- A rational rounded to an integer, a half away from zero. -/
def halfUp (x : ℚ) : Int :=
  if 0 ≤ x then ⌊x + 1 / 2⌋ else -⌊-x + 1 / 2⌋

theorem floor_add_half (numerator : Int) (denominator : Nat) (h : 0 < denominator) :
    ⌊(numerator : ℚ) / denominator + 1 / 2⌋ =
      (2 * numerator + denominator) / (2 * denominator) := by
  have hpos : (denominator : ℚ) ≠ 0 := by positivity
  have hsum : (numerator : ℚ) / denominator + 1 / 2 =
      ((2 * numerator + denominator : Int) : ℚ) / ((2 * denominator : Nat) : ℚ) := by
    push_cast
    field_simp
  rw [hsum, Rat.floor_intCast_div_natCast]
  push_cast
  rfl

@[simp]
theorem halfUp_intCast (n : Int) : halfUp (n : ℚ) = n := by
  have hfloor (m : Int) : ⌊(m : ℚ) + 1 / 2⌋ = m := by
    rw [Int.floor_intCast_add, Int.floor_eq_zero_iff.mpr (by constructor <;> norm_num), add_zero]
  unfold halfUp
  split
  · exact hfloor n
  · have hneg := hfloor (-n)
    push_cast at hneg
    rw [hneg, neg_neg]

theorem roundHalfUp_eq_halfUp (numerator : Int) (denominator : Nat) (h : 0 < denominator) :
    roundHalfUp numerator denominator = halfUp ((numerator : ℚ) / denominator) := by
  have hpos : (0 : ℚ) < denominator := by exact_mod_cast h
  unfold roundHalfUp halfUp
  by_cases hsign : 0 ≤ numerator
  · have hquotient : (0 : ℚ) ≤ (numerator : ℚ) / denominator := by
      have : (0 : ℚ) ≤ numerator := by exact_mod_cast hsign
      positivity
    rw [if_pos hsign, if_pos hquotient, floor_add_half numerator denominator h]
  · have hquotient : ¬ (0 : ℚ) ≤ (numerator : ℚ) / denominator := by
      have : (numerator : ℚ) < 0 := by exact_mod_cast not_le.mp hsign
      exact not_le.mpr (div_neg_of_neg_of_pos this hpos)
    have hneg : -((numerator : ℚ) / denominator) = ((-numerator : Int) : ℚ) / denominator := by
      push_cast
      ring
    rw [if_neg hsign, if_neg hquotient, hneg, floor_add_half (-numerator) denominator h]

theorem halfUp_le {x : ℚ} {n : Int} (h : x ≤ n) : halfUp x ≤ n := by
  unfold halfUp
  split
  · refine Int.lt_add_one_iff.mp (Int.floor_lt.mpr ?_)
    push_cast
    linarith
  · refine neg_le.mp (Int.le_floor.mpr ?_)
    push_cast
    linarith

theorem le_halfUp {x : ℚ} {n : Int} (h : n ≤ x) : n ≤ halfUp x := by
  unfold halfUp
  split
  · refine Int.le_floor.mpr ?_
    linarith
  · refine le_neg.mp (Int.lt_add_one_iff.mp (Int.floor_lt.mpr ?_))
    push_cast
    linarith

/-- Rounding moves a number by no more than a half. -/
theorem abs_halfUp_sub_le (x : ℚ) : |(halfUp x : ℚ) - x| ≤ 1 / 2 := by
  have hfloor (y : ℚ) : |(⌊y + 1 / 2⌋ : ℚ) - y| ≤ 1 / 2 := by
    have hle := Int.floor_le (y + 1 / 2)
    have hlt := Int.lt_floor_add_one (y + 1 / 2)
    rw [abs_le]
    constructor
    · linarith
    · linarith
  unfold halfUp
  split
  · exact hfloor x
  · have hneg := hfloor (-x)
    push_cast
    rw [abs_sub_comm]
    convert hneg using 2
    ring

theorem halfUp_mono {x y : ℚ} (h : x ≤ y) : halfUp x ≤ halfUp y := by
  unfold halfUp
  split
  · next hx =>
      rw [if_pos (hx.trans h)]
      exact Int.floor_le_floor (by linarith)
  · next hx =>
      split
      · next hy =>
          have hfirst : 0 ≤ ⌊-x + 1 / 2⌋ := Int.floor_nonneg.mpr (by linarith [not_le.mp hx])
          have hsecond : 0 ≤ ⌊y + 1 / 2⌋ := Int.floor_nonneg.mpr (by linarith)
          omega
      · exact neg_le_neg (Int.floor_le_floor (by linarith))

/-- An exact quotient is not rounded. -/
theorem roundHalfEven_mul (quotient : Int) {denominator : Int} (h : 0 < denominator) :
    roundHalfEven (quotient * denominator) denominator = quotient := by
  unfold roundHalfEven
  simp only [Int.mul_emod_left, mul_zero]
  rw [if_pos h, Int.mul_ediv_cancel _ (by omega)]

/-- The rounded quotient is one of the two neighbours. -/
theorem roundHalfEven_mem (numerator denominator : Int) :
    roundHalfEven numerator denominator = numerator / denominator ∨
      roundHalfEven numerator denominator = numerator / denominator + 1 := by
  unfold roundHalfEven
  dsimp only
  split
  · exact .inl rfl
  · split
    · exact .inr rfl
    · split
      · exact .inl rfl
      · exact .inr rfl

section

variable {numerator denominator bound : Int}

theorem roundHalfEven_le (hpos : 0 < denominator) (h : numerator ≤ bound * denominator) :
    roundHalfEven numerator denominator ≤ bound := by
  have hfloor : numerator / denominator ≤ bound :=
    Int.ediv_le_of_le_mul hpos h
  rcases hfloor.lt_or_eq with hlt | heq
  · rcases roundHalfEven_mem numerator denominator with hround | hround
    · omega
    · omega
  · have hexact : numerator = bound * denominator :=
      le_antisymm h ((Int.le_ediv_iff_mul_le hpos).mp heq.ge)
    rw [hexact, roundHalfEven_mul bound hpos]

theorem le_roundHalfEven (hpos : 0 < denominator) (h : bound * denominator ≤ numerator) :
    bound ≤ roundHalfEven numerator denominator := by
  have hfloor : bound ≤ numerator / denominator := (Int.le_ediv_iff_mul_le hpos).mpr h
  rcases roundHalfEven_mem numerator denominator with hround | hround
  · omega
  · omega

/-- Rounding keeps the order of two quotients. -/
theorem roundHalfEven_mono {other divisor : Int} (hpos : 0 < denominator) (hdivisor : 0 < divisor)
    (h : numerator * divisor ≤ other * denominator) :
    roundHalfEven numerator denominator ≤ roundHalfEven other divisor := by
  have hnumerator := Int.mul_ediv_add_emod numerator denominator
  have hother := Int.mul_ediv_add_emod other divisor
  have hfloor : numerator / denominator ≤ other / divisor := by
    refine (Int.le_ediv_iff_mul_le hdivisor).mpr (le_of_mul_le_mul_right ?_ hpos)
    calc numerator / denominator * divisor * denominator
        = numerator / denominator * denominator * divisor := by ring
      _ ≤ numerator * divisor :=
        mul_le_mul_of_nonneg_right (Int.ediv_mul_le _ hpos.ne') hdivisor.le
      _ ≤ other * denominator := h
  rcases hfloor.lt_or_eq with hlt | heq
  · rcases roundHalfEven_mem numerator denominator with hround | hround <;>
      rcases roundHalfEven_mem other divisor with hround' | hround' <;> omega
  · rw [heq] at hnumerator
    unfold roundHalfEven
    dsimp only
    rw [heq]
    generalize other / divisor = quotient at hnumerator hother ⊢
    generalize numerator % denominator = rest at hnumerator ⊢
    generalize other % divisor = rest' at hother ⊢
    -- The quotients are the same, so the remainders decide.
    have hrest : rest * divisor ≤ rest' * denominator := by
      rw [← hnumerator, ← hother, add_mul, add_mul] at h
      have hswap : denominator * quotient * divisor = divisor * quotient * denominator := by ring
      omega
    have hbelow : 2 * rest' < divisor → 2 * rest < denominator := by
      intro hless
      refine lt_of_mul_lt_mul_right ?_ hdivisor.le
      calc 2 * rest * divisor ≤ 2 * rest' * denominator := by linarith
        _ < divisor * denominator := mul_lt_mul_of_pos_right hless hpos
        _ = denominator * divisor := mul_comm _ _
    have hhalf : 2 * rest' ≤ divisor → 2 * rest ≤ denominator := by
      intro hle
      refine le_of_mul_le_mul_right ?_ hdivisor
      calc 2 * rest * divisor ≤ 2 * rest' * denominator := by linarith
        _ ≤ divisor * denominator := mul_le_mul_of_nonneg_right hle hpos.le
        _ = denominator * divisor := mul_comm _ _
    split_ifs <;> omega

theorem natAbs_roundHalfEven_le {limit divisor : Nat} (hpos : 0 < divisor)
    (h : numerator.natAbs ≤ limit * divisor) :
    (roundHalfEven numerator divisor).natAbs ≤ limit := by
  have hdivisor : (0 : Int) < divisor := by exact_mod_cast hpos
  have habs : |numerator| ≤ limit * divisor := by
    rw [Int.abs_eq_natAbs]
    exact_mod_cast h
  obtain ⟨hlower, hupper⟩ := abs_le.mp habs
  have hlow : -(limit : Int) ≤ roundHalfEven numerator divisor :=
    le_roundHalfEven hdivisor (by linarith)
  have hhigh : roundHalfEven numerator divisor ≤ limit := roundHalfEven_le hdivisor hupper
  omega

end

/-! ## Decimals -/

structure Decimal where
  coefficient : Int
  exponent : Int
deriving DecidableEq, Repr

namespace Decimal

def ofInt (value : Int) : Decimal :=
  ⟨value, 0⟩

def value (decimal : Decimal) : ℚ :=
  decimal.coefficient * (10 : ℚ) ^ decimal.exponent

/-- Round the coefficient to the digits of the context. -/
def fix (precision : Nat) (decimal : Decimal) : Decimal :=
  if decimal.coefficient.natAbs < 10 ^ precision then decimal
  else
    let dropped := Nat.log 10 decimal.coefficient.natAbs + 1 - precision
    let coefficient := roundHalfEven decimal.coefficient (10 ^ dropped)
    -- Rounding up to the next power of ten leaves one digit too many.
    if coefficient.natAbs < 10 ^ precision then ⟨coefficient, decimal.exponent + dropped⟩
    else ⟨coefficient / 10, decimal.exponent + dropped + 1⟩

def mul (precision : Nat) (first second : Decimal) : Decimal :=
  fix precision ⟨first.coefficient * second.coefficient, first.exponent + second.exponent⟩

def add (precision : Nat) (first second : Decimal) : Decimal :=
  let exponent := min first.exponent second.exponent
  fix precision
    ⟨first.coefficient * 10 ^ (first.exponent - exponent).toNat +
      second.coefficient * 10 ^ (second.exponent - exponent).toNat, exponent⟩

def sub (precision : Nat) (first second : Decimal) : Decimal :=
  add precision first ⟨-second.coefficient, second.exponent⟩

/-- `int` of the number rounded to `ROUND_FLOOR`. -/
def floor (decimal : Decimal) : Int :=
  if 0 ≤ decimal.exponent then decimal.coefficient * 10 ^ decimal.exponent.toNat
  else decimal.coefficient / 10 ^ (-decimal.exponent).toNat

/-- Multiply by a power of ten, or divide by one. -/
def scaleb (precision : Nat) (places : Int) (decimal : Decimal) : Decimal :=
  fix precision ⟨decimal.coefficient, decimal.exponent + places⟩

/-- How many digits a number has. -/
def digitCount (n : Nat) : Nat :=
  Nat.log 10 n + 1

/-- The quotient to the digits of the context; `none` is a division by zero.  Of an exact
quotient, the zeros at the end stay in the coefficient. -/
def div (precision : Nat) (first second : Decimal) : Option Decimal :=
  if second.coefficient = 0 then none
  else if first.coefficient = 0 then some ⟨0, first.exponent - second.exponent⟩
  else
    let shift : Int := digitCount second.coefficient.natAbs -
      digitCount first.coefficient.natAbs + precision + 1
    let numerator := first.coefficient.natAbs * 10 ^ shift.toNat
    let denominator := second.coefficient.natAbs * 10 ^ (-shift).toNat
    let quotient := numerator / denominator
    -- A last digit that is neither nought nor five tells the rounding of a remainder.
    let sticky := if numerator % denominator ≠ 0 ∧ quotient % 5 = 0 then quotient + 1
      else quotient
    some (fix precision ⟨first.coefficient.sign * second.coefficient.sign * sticky,
      first.exponent - second.exponent - shift⟩)

/-- The coefficient at another exponent, a half rounded away from zero. -/
def rescale (exponent : Int) (decimal : Decimal) : Int :=
  if exponent ≤ decimal.exponent then
    decimal.coefficient * 10 ^ (decimal.exponent - exponent).toNat
  else roundHalfUp decimal.coefficient (10 ^ (exponent - decimal.exponent).toNat)

/-- `quantize` with `ROUND_HALF_UP`; `none` is `InvalidOperation`. -/
def quantize (precision : Nat) (exponent : Int) (decimal : Decimal) : Option Decimal :=
  let coefficient := decimal.rescale exponent
  if coefficient.natAbs < 10 ^ precision then some ⟨coefficient, exponent⟩ else none

theorem quantize_eq_some {precision : Nat} {exponent : Int} {decimal quantised : Decimal} :
    decimal.quantize precision exponent = some quantised ↔
      quantised = ⟨decimal.rescale exponent, exponent⟩ ∧
        (decimal.rescale exponent).natAbs < 10 ^ precision := by
  unfold quantize
  dsimp only
  split
  · next hshort =>
      rw [Option.some.injEq]
      exact ⟨fun h => ⟨h.symm, hshort⟩, fun h => h.1.symm⟩
  · next hlong => simp [hlong]

theorem rescale_same {exponent : Int} {decimal : Decimal} (h : decimal.exponent = exponent) :
    decimal.rescale exponent = decimal.coefficient := by
  subst h
  simp [rescale]

/-- The number can be written with that many digits. -/
def Representable (precision : Nat) (x : ℚ) : Prop :=
  ∃ coefficient exponent : Int, coefficient.natAbs < 10 ^ precision ∧
    x = coefficient * (10 : ℚ) ^ exponent

variable {precision : Nat} {decimal first second : Decimal} {places exponent : Int}

@[simp]
theorem value_ofInt (n : Int) : (ofInt n).value = n := by
  simp [ofInt, value]

/-- Two ways to write a number differ by a power of ten in the coefficient. -/
theorem coefficient_eq {coefficient exponent : Int} (hle : decimal.exponent ≤ exponent)
    (h : decimal.value = coefficient * (10 : ℚ) ^ exponent) :
    decimal.coefficient = coefficient * 10 ^ (exponent - decimal.exponent).toNat := by
  have hten : (10 : ℚ) ^ decimal.exponent ≠ 0 := zpow_ne_zero _ (by norm_num)
  have hsplit : (10 : ℚ) ^ exponent =
      10 ^ (exponent - decimal.exponent).toNat * (10 : ℚ) ^ decimal.exponent := by
    rw [← zpow_natCast, ← zpow_add₀ (by norm_num : (10 : ℚ) ≠ 0)]
    congr 1
    omega
  unfold value at h
  rw [hsplit, ← mul_assoc] at h
  exact_mod_cast mul_right_cancel₀ hten h

/-- Rounding to the context keeps a number that needs no more digits than it has. -/
theorem value_fix (h : Representable precision decimal.value) :
    (fix precision decimal).value = decimal.value := by
  unfold fix
  split
  · rfl
  · next hlong =>
      obtain ⟨coefficient, exponent, hshort, hvalue⟩ := h
      have hlt : decimal.exponent < exponent := by
        by_contra hle
        rw [not_lt] at hle
        have hother := @coefficient_eq ⟨coefficient, exponent⟩ _ _ hle hvalue.symm
        refine hlong (lt_of_le_of_lt ?_ hshort)
        rw [show coefficient = _ from hother, Int.natAbs_mul]
        refine Nat.le_mul_of_pos_right _ (Int.natAbs_pos.mpr ?_)
        positivity
      have hcoefficient := coefficient_eq hlt.le hvalue
      generalize hmore : (exponent - decimal.exponent).toNat = more at hcoefficient
      -- At most these zeros are dropped, so what is dropped is zero.
      have hlog : Nat.log 10 decimal.coefficient.natAbs < precision + more := by
        refine Nat.log_lt_of_lt_pow (fun hzero => hlong (by simp [hzero])) ?_
        rw [hcoefficient, Int.natAbs_mul, Int.natAbs_pow, pow_add]
        exact Nat.mul_lt_mul_of_pos_right hshort (by positivity)
      generalize hdropped : Nat.log 10 decimal.coefficient.natAbs + 1 - precision = dropped
      have hsplit : decimal.coefficient = coefficient * 10 ^ (more - dropped) * 10 ^ dropped := by
        rw [hcoefficient, mul_assoc, ← pow_add]
        congr 2
        omega
      have hrounded : roundHalfEven decimal.coefficient (10 ^ dropped) =
          coefficient * 10 ^ (more - dropped) := by
        rw [hsplit]
        exact roundHalfEven_mul _ (by positivity)
      have hkept : (coefficient * 10 ^ (more - dropped)).natAbs < 10 ^ precision := by
        have habs : decimal.coefficient.natAbs =
            (coefficient * 10 ^ (more - dropped)).natAbs * 10 ^ dropped := by
          conv_lhs => rw [hsplit]
          rw [Int.natAbs_mul, Int.natAbs_pow]
          rfl
        refine lt_of_mul_lt_mul_right ?_ (Nat.zero_le (10 ^ dropped))
        calc (coefficient * 10 ^ (more - dropped)).natAbs * 10 ^ dropped
            = decimal.coefficient.natAbs := habs.symm
          _ < 10 ^ (Nat.log 10 decimal.coefficient.natAbs).succ :=
            Nat.lt_pow_succ_log_self (by norm_num) _
          _ ≤ 10 ^ (precision + dropped) := Nat.pow_le_pow_right (by norm_num) (by omega)
          _ = 10 ^ precision * 10 ^ dropped := pow_add 10 precision dropped
      dsimp only
      rw [hrounded, if_pos hkept]
      unfold value
      rw [hsplit, zpow_add₀ (by norm_num : (10 : ℚ) ≠ 0), zpow_natCast]
      push_cast
      ring

theorem value_product (first second : Decimal) :
    (⟨first.coefficient * second.coefficient, first.exponent + second.exponent⟩ : Decimal).value =
      first.value * second.value := by
  unfold value
  rw [zpow_add₀ (by norm_num : (10 : ℚ) ≠ 0)]
  push_cast
  ring

theorem value_mul (h : Representable precision (first.value * second.value)) :
    (mul precision first second).value = first.value * second.value := by
  rw [← value_product] at h ⊢
  exact value_fix h

/-- A number at an exponent no greater than its own. -/
theorem value_aligned (hle : exponent ≤ decimal.exponent) :
    ((decimal.coefficient * 10 ^ (decimal.exponent - exponent).toNat : Int) : ℚ) *
      (10 : ℚ) ^ exponent = decimal.value := by
  have hpower : decimal.exponent = ((decimal.exponent - exponent).toNat : Int) + exponent := by
    omega
  unfold value
  conv_rhs => rw [hpower, zpow_add₀ (by norm_num : (10 : ℚ) ≠ 0), zpow_natCast]
  push_cast
  ring

theorem value_add (h : Representable precision (first.value + second.value)) :
    (add precision first second).value = first.value + second.value := by
  have hsum : (⟨first.coefficient * 10 ^
        (first.exponent - min first.exponent second.exponent).toNat +
      second.coefficient * 10 ^ (second.exponent - min first.exponent second.exponent).toNat,
      min first.exponent second.exponent⟩ : Decimal).value = first.value + second.value := by
    rw [← value_aligned (min_le_left first.exponent second.exponent),
      ← value_aligned (min_le_right first.exponent second.exponent)]
    unfold value
    push_cast
    ring
  rw [← hsum] at h ⊢
  exact value_fix h

theorem value_scaleb (h : Representable precision (decimal.value * (10 : ℚ) ^ places)) :
    (scaleb precision places decimal).value = decimal.value * (10 : ℚ) ^ places := by
  have hshifted : (⟨decimal.coefficient, decimal.exponent + places⟩ : Decimal).value =
      decimal.value * (10 : ℚ) ^ places := by
    unfold value
    rw [zpow_add₀ (by norm_num : (10 : ℚ) ≠ 0)]
    ring
  rw [← hshifted] at h ⊢
  exact value_fix h

/-- Quantising rounds the number once, in units of the new exponent. -/
theorem rescale_eq (decimal : Decimal) (exponent : Int) :
    decimal.rescale exponent = halfUp (decimal.value * (10 : ℚ) ^ (-exponent)) := by
  have hten : (10 : ℚ) ≠ 0 := by norm_num
  unfold rescale value
  rw [mul_assoc, ← zpow_add₀ hten]
  split
  · next hle =>
      have hpower : decimal.exponent + -exponent = ((decimal.exponent - exponent).toNat : Int) := by
        omega
      rw [hpower, zpow_natCast, ← halfUp_intCast
        (decimal.coefficient * 10 ^ (decimal.exponent - exponent).toNat)]
      push_cast
      rfl
  · next hlt =>
      have hpower : decimal.exponent + -exponent =
          -((exponent - decimal.exponent).toNat : Int) := by omega
      rw [hpower, zpow_neg, zpow_natCast, ← div_eq_mul_inv]
      have hround := roundHalfUp_eq_halfUp decimal.coefficient
        (10 ^ (exponent - decimal.exponent).toNat) (by positivity)
      push_cast at hround
      exact hround

theorem quantize_eq (precision : Nat) (decimal : Decimal) (exponent : Int)
    (h : (halfUp (decimal.value * (10 : ℚ) ^ (-exponent))).natAbs < 10 ^ precision) :
    decimal.quantize precision exponent =
      some ⟨halfUp (decimal.value * (10 : ℚ) ^ (-exponent)), exponent⟩ := by
  unfold quantize
  rw [rescale_eq]
  exact if_pos h

/-! ## Totality -/

theorem natAbs_roundHalfUp_le (numerator : Int) {denominator : Int} (h : 0 < denominator) :
    (roundHalfUp numerator denominator).natAbs ≤ numerator.natAbs := by
  have hle (n : Int) (hn : 0 ≤ n) : (2 * n + denominator) / (2 * denominator) ≤ n := by
    refine Int.lt_add_one_iff.mp (Int.ediv_lt_of_lt_mul (by omega) ?_)
    nlinarith
  have hnonneg (n : Int) (hn : 0 ≤ n) : 0 ≤ (2 * n + denominator) / (2 * denominator) :=
    Int.ediv_nonneg (by omega) (by omega)
  unfold roundHalfUp
  split
  · next hsign =>
      have := hle numerator hsign
      have := hnonneg numerator hsign
      omega
  · next hsign =>
      have := hle (-numerator) (by omega)
      have := hnonneg (-numerator) (by omega)
      omega

/-- The context holds after rounding, and what was cut off went to the exponent. -/
theorem fix_short (hprecision : 0 < precision) {extra : Nat}
    (h : decimal.coefficient.natAbs < 10 ^ (precision + extra)) :
    (fix precision decimal).coefficient.natAbs < 10 ^ precision ∧
      (fix precision decimal).exponent ≤ decimal.exponent + extra + 1 := by
  unfold fix
  split
  · next hshort => exact ⟨hshort, by omega⟩
  · next hlong =>
      have hlog : Nat.log 10 decimal.coefficient.natAbs < precision + extra :=
        Nat.log_lt_of_lt_pow (fun hzero => hlong (by simp [hzero])) h
      have hbound : decimal.coefficient.natAbs <
          10 ^ (Nat.log 10 decimal.coefficient.natAbs + 1) :=
        Nat.lt_pow_succ_log_self (by norm_num) _
      generalize Nat.log 10 decimal.coefficient.natAbs = digits at hlog hbound
      have hcut : decimal.coefficient.natAbs < 10 ^ precision * 10 ^ (digits + 1 - precision) := by
        refine lt_of_lt_of_le hbound ?_
        rw [← pow_add]
        exact Nat.pow_le_pow_right (by norm_num) (by omega)
      generalize hdropped : digits + 1 - precision = dropped at hcut ⊢
      have hfits : (roundHalfEven decimal.coefficient (10 ^ dropped)).natAbs ≤
          10 ^ precision := by
        exact_mod_cast natAbs_roundHalfEven_le (Nat.pos_of_ne_zero (by positivity)) hcut.le
      dsimp only
      split
      · next hkept => exact ⟨hkept, by dsimp only; omega⟩
      · next hcarried =>
          refine ⟨?_, by dsimp only; omega⟩
          have hten : 10 ^ 1 ≤ 10 ^ precision := Nat.pow_le_pow_right (by norm_num) hprecision
          dsimp only
          omega

theorem mul_short (hprecision : 0 < precision) {extra : Nat}
    (h : (first.coefficient * second.coefficient).natAbs < 10 ^ (precision + extra)) :
    (mul precision first second).coefficient.natAbs < 10 ^ precision ∧
      (mul precision first second).exponent ≤ first.exponent + second.exponent + extra + 1 :=
  fix_short hprecision h

theorem scaleb_short (h : decimal.coefficient.natAbs < 10 ^ precision) :
    scaleb precision places decimal = ⟨decimal.coefficient, decimal.exponent + places⟩ :=
  if_pos h

theorem quantize_isSome (hshort : decimal.coefficient.natAbs < 10 ^ precision)
    (hexponent : decimal.exponent ≤ exponent) :
    ∃ quantised, decimal.quantize precision exponent = some quantised := by
  have hrescaled : (decimal.rescale exponent).natAbs < 10 ^ precision := by
    unfold rescale
    split
    · have hsame : (decimal.exponent - exponent).toNat = 0 := by omega
      rwa [hsame, pow_zero, mul_one]
    · exact lt_of_le_of_lt (natAbs_roundHalfUp_le _ (by positivity)) hshort
  exact ⟨⟨decimal.rescale exponent, exponent⟩, if_pos hrescaled⟩

theorem floor_eq (decimal : Decimal) : decimal.floor = ⌊decimal.value⌋ := by
  unfold floor value
  split
  · next h =>
      have hpower : (10 : ℚ) ^ decimal.exponent = ((10 ^ decimal.exponent.toNat : Int) : ℚ) := by
        conv_lhs => rw [← Int.toNat_of_nonneg h, zpow_natCast]
        push_cast
        rfl
      rw [hpower, ← Int.cast_mul, Int.floor_intCast]
  · next h =>
      have hpower : (10 : ℚ) ^ decimal.exponent =
          ((10 ^ (-decimal.exponent).toNat : Nat) : ℚ)⁻¹ := by
        have hexponent : decimal.exponent = -((-decimal.exponent).toNat : Int) := by omega
        conv_lhs => rw [hexponent, zpow_neg, zpow_natCast]
        push_cast
        rfl
      rw [hpower, ← div_eq_mul_inv, Rat.floor_intCast_div_natCast]
      push_cast
      rfl

/-- The digits after the point of a short number are a short number. -/
theorem representable_fract (hsign : 0 ≤ decimal.coefficient)
    (hshort : decimal.coefficient.natAbs < 10 ^ precision) :
    Representable precision (Int.fract decimal.value) := by
  have hfloor := floor_eq decimal
  unfold Int.fract
  rw [← hfloor]
  unfold floor value
  split
  · next h =>
      refine ⟨0, 0, Nat.pow_pos (by norm_num), ?_⟩
      rw [Int.cast_mul, Int.cast_pow, Int.cast_ofNat, ← zpow_natCast, Int.toNat_of_nonneg h]
      simp
  · next h =>
      refine ⟨decimal.coefficient % 10 ^ (-decimal.exponent).toNat, decimal.exponent, ?_, ?_⟩
      · have hmore := Nat.mod_le decimal.coefficient.natAbs (10 ^ (-decimal.exponent).toNat)
        have hrest : decimal.coefficient % 10 ^ (-decimal.exponent).toNat =
            (decimal.coefficient.natAbs % 10 ^ (-decimal.exponent).toNat : Nat) := by
          conv_lhs => rw [← Int.natAbs_of_nonneg hsign]
          push_cast
          rfl
        rw [hrest, Int.natAbs_natCast]
        omega
      · have hsplit := Int.mul_ediv_add_emod decimal.coefficient (10 ^ (-decimal.exponent).toNat)
        have hpower : (10 : ℚ) ^ (-decimal.exponent).toNat * 10 ^ decimal.exponent = 1 := by
          rw [← zpow_natCast, ← zpow_add₀ (by norm_num), Int.toNat_of_nonneg (by omega)]
          simp
        generalize decimal.coefficient / 10 ^ (-decimal.exponent).toNat = whole at hsplit ⊢
        generalize decimal.coefficient % 10 ^ (-decimal.exponent).toNat = rest at hsplit ⊢
        rw [← hsplit]
        push_cast
        rw [add_mul, mul_right_comm, hpower, one_mul, add_sub_cancel_left]

/-- What a short number has after the point is subtracted exactly. -/
theorem value_sub_floor (hsign : 0 ≤ decimal.coefficient)
    (hshort : decimal.coefficient.natAbs < 10 ^ precision) :
    (sub precision decimal (ofInt decimal.floor)).value = Int.fract decimal.value := by
  have hnegated : (⟨-(ofInt decimal.floor).coefficient, (ofInt decimal.floor).exponent⟩ :
      Decimal) = ofInt (-decimal.floor) := rfl
  have hsum : decimal.value + (ofInt (-decimal.floor)).value = Int.fract decimal.value := by
    rw [value_ofInt, floor_eq, Int.cast_neg, ← sub_eq_add_neg]
    rfl
  unfold sub
  rw [hnegated, value_add (hsum ▸ representable_fract hsign hshort), hsum]

/-- How many digits the context drops. -/
def dropped (precision : Nat) (decimal : Decimal) : Nat :=
  Nat.log 10 decimal.coefficient.natAbs + 1 - precision

theorem natAbs_lt_dropped (precision : Nat) (decimal : Decimal) :
    decimal.coefficient.natAbs < 10 ^ (precision + dropped precision decimal) := by
  unfold dropped
  calc decimal.coefficient.natAbs
      < 10 ^ (Nat.log 10 decimal.coefficient.natAbs + 1) :=
        Nat.lt_pow_succ_log_self (by norm_num) _
    _ ≤ 10 ^ (precision + (Nat.log 10 decimal.coefficient.natAbs + 1 - precision)) :=
        Nat.pow_le_pow_right (by norm_num) (by omega)

theorem dropped_le_natAbs (hprecision : 0 < precision) (h : 0 < dropped precision decimal) :
    10 ^ (precision - 1 + dropped precision decimal) ≤ decimal.coefficient.natAbs := by
  have hlog : precision - 1 + dropped precision decimal =
      Nat.log 10 decimal.coefficient.natAbs := by
    unfold dropped at h ⊢
    omega
  rw [hlog]
  refine Nat.pow_log_le_self 10 fun hzero => ?_
  unfold dropped at h
  rw [hzero, Nat.log_zero_right] at h
  omega

theorem fix_fits (hprecision : 0 < precision) (decimal : Decimal) :
    (fix precision decimal).coefficient.natAbs < 10 ^ precision :=
  (fix_short hprecision (natAbs_lt_dropped precision decimal)).1

/-- The value after rounding, in units of the last digit that is kept. -/
theorem value_fix_eq (hprecision : 0 < precision) (decimal : Decimal) :
    (fix precision decimal).value =
      roundHalfEven decimal.coefficient (10 ^ dropped precision decimal) *
        (10 : ℚ) ^ (decimal.exponent + dropped precision decimal) := by
  have hcut := natAbs_lt_dropped precision decimal
  unfold fix
  split
  · next hshort =>
      have hnone : dropped precision decimal = 0 := by
        by_contra hsome
        have hlong := dropped_le_natAbs hprecision (Nat.pos_of_ne_zero hsome)
        have hpower : 10 ^ precision ≤ 10 ^ (precision - 1 + dropped precision decimal) :=
          Nat.pow_le_pow_right (by norm_num) (by omega)
        omega
      have hsame := roundHalfEven_mul decimal.coefficient one_pos
      rw [mul_one] at hsame
      rw [hnone, pow_zero, hsame, Nat.cast_zero, add_zero]
      rfl
  · change value (if (roundHalfEven decimal.coefficient (10 ^ dropped precision decimal)).natAbs <
        10 ^ precision then
          ⟨roundHalfEven decimal.coefficient (10 ^ dropped precision decimal),
            decimal.exponent + dropped precision decimal⟩
        else ⟨roundHalfEven decimal.coefficient (10 ^ dropped precision decimal) / 10,
          decimal.exponent + dropped precision decimal + 1⟩) = _
    generalize hkept : dropped precision decimal = kept at hcut ⊢
    split
    · rfl
    · next hcarried =>
        have hfits : (roundHalfEven decimal.coefficient (10 ^ kept)).natAbs ≤ 10 ^ precision := by
          rw [pow_add] at hcut
          exact_mod_cast natAbs_roundHalfEven_le (Nat.pos_of_ne_zero (by positivity)) hcut.le
        have hten : (10 : Int) ∣ roundHalfEven decimal.coefficient (10 ^ kept) := by
          rw [← Int.dvd_natAbs, show (roundHalfEven decimal.coefficient (10 ^ kept)).natAbs =
            10 ^ precision by omega]
          exact_mod_cast dvd_pow_self 10 hprecision.ne'
        obtain ⟨tenth, htenth⟩ := hten
        rw [htenth, Int.mul_ediv_cancel_left _ (by norm_num)]
        unfold value
        rw [zpow_add_one₀ (by norm_num : (10 : ℚ) ≠ 0)]
        push_cast
        ring

theorem div_fits (hprecision : 0 < precision) {quotient : Decimal}
    (h : div precision first second = some quotient) :
    quotient.coefficient.natAbs < 10 ^ precision := by
  unfold div at h
  split at h
  · cases h
  · split at h
    · cases h
      exact Nat.pow_pos (by norm_num)
    · cases h
      exact fix_fits hprecision _

/-! ## Order -/

theorem value_le_iff {kept : Nat} {bound : Int} :
    decimal.value ≤ bound * (10 : ℚ) ^ (decimal.exponent + kept) ↔
      decimal.coefficient ≤ bound * 10 ^ kept := by
  have hunit : (0 : ℚ) < (10 : ℚ) ^ decimal.exponent := zpow_pos (by norm_num) _
  unfold value
  rw [add_comm, zpow_add₀ (by norm_num : (10 : ℚ) ≠ 0), zpow_natCast, ← mul_assoc,
    mul_le_mul_iff_left₀ hunit]
  exact_mod_cast Iff.rfl

theorem le_value_iff {kept : Nat} {bound : Int} :
    bound * (10 : ℚ) ^ (decimal.exponent + kept) ≤ decimal.value ↔
      bound * 10 ^ kept ≤ decimal.coefficient := by
  have hunit : (0 : ℚ) < (10 : ℚ) ^ decimal.exponent := zpow_pos (by norm_num) _
  unfold value
  rw [add_comm, zpow_add₀ (by norm_num : (10 : ℚ) ≠ 0), zpow_natCast, ← mul_assoc,
    mul_le_mul_iff_left₀ hunit]
  exact_mod_cast Iff.rfl

/-- A coefficient whose digits are dropped has all the digits that the context keeps. -/
theorem le_coefficient_of_dropped (hprecision : 0 < precision) (hsign : 0 ≤ decimal.coefficient)
    (h : 0 < dropped precision decimal) :
    (10 : Int) ^ (precision - 1) * 10 ^ dropped precision decimal ≤ decimal.coefficient := by
  have hlong := dropped_le_natAbs hprecision h
  rw [pow_add] at hlong
  have habs : (decimal.coefficient.natAbs : Int) = decimal.coefficient := by omega
  rw [← habs]
  exact_mod_cast hlong

theorem zpow_pred_add (hprecision : 0 < precision) (exponent : Int) :
    (10 : ℚ) ^ ((precision : Int) - 1 + exponent) =
      ((10 ^ (precision - 1) : Int) : ℚ) * (10 : ℚ) ^ exponent := by
  have hexponent : (precision : Int) - 1 = ((precision - 1 : Nat) : Int) := by omega
  rw [zpow_add₀ (by norm_num : (10 : ℚ) ≠ 0), hexponent, zpow_natCast]
  push_cast
  rfl

theorem lt_of_short {coefficient exponent : Int} (h : coefficient.natAbs < 10 ^ precision) :
    coefficient * (10 : ℚ) ^ exponent < (10 : ℚ) ^ ((precision : Int) + exponent) := by
  have hunit : (0 : ℚ) < (10 : ℚ) ^ exponent := zpow_pos (by norm_num) _
  have hcast : ((10 ^ precision : Nat) : Int) = 10 ^ precision := by push_cast; rfl
  have hcoefficient : coefficient < 10 ^ precision := by omega
  rw [zpow_add₀ (by norm_num : (10 : ℚ) ≠ 0), zpow_natCast]
  exact mul_lt_mul_of_pos_right (by exact_mod_cast hcoefficient) hunit

theorem fix_eq_self (h : dropped precision decimal = 0) : fix precision decimal = decimal := by
  have hcut := natAbs_lt_dropped precision decimal
  rw [h, add_zero] at hcut
  exact if_pos hcut

variable {bound : ℚ}

/-- Rounding does not go past a number that the context can write. -/
theorem fix_le (hprecision : 0 < precision) (hbound : Representable precision bound)
    (hsign : 0 ≤ decimal.coefficient) (h : decimal.value ≤ bound) :
    (fix precision decimal).value ≤ bound := by
  obtain ⟨coefficient, exponent, hshort, rfl⟩ := hbound
  rcases Nat.eq_zero_or_pos (dropped precision decimal) with hnone | hsome
  · rw [fix_eq_self hnone]
    exact h
  · have hlow := le_value_iff.mpr (le_coefficient_of_dropped hprecision hsign hsome)
    rw [← zpow_pred_add hprecision] at hlow
    have hexponent := (zpow_lt_zpow_iff_right₀ (by norm_num)).mp
      ((hlow.trans h).trans_lt (lt_of_short hshort))
    have haligned := @value_aligned ⟨coefficient, exponent⟩
      (decimal.exponent + dropped precision decimal) (by dsimp only; omega)
    change _ = coefficient * (10 : ℚ) ^ exponent at haligned
    rw [← haligned] at h ⊢
    rw [value_fix_eq hprecision]
    refine mul_le_mul_of_nonneg_right ?_ (zpow_nonneg (by norm_num) _)
    exact_mod_cast roundHalfEven_le (by positivity) (value_le_iff.mp h)

theorem le_fix (hprecision : 0 < precision) (hbound : Representable precision bound)
    (hsign : 0 ≤ decimal.coefficient) (h : bound ≤ decimal.value) :
    bound ≤ (fix precision decimal).value := by
  obtain ⟨coefficient, exponent, hshort, rfl⟩ := hbound
  rcases Nat.eq_zero_or_pos (dropped precision decimal) with hnone | hsome
  · rw [fix_eq_self hnone]
    exact h
  · rw [value_fix_eq hprecision]
    have hunit : (0 : ℚ) ≤ (10 : ℚ) ^ (decimal.exponent + dropped precision decimal) :=
      zpow_nonneg (by norm_num) _
    rcases le_or_gt (decimal.exponent + dropped precision decimal) exponent with hle | hlt
    · have haligned := @value_aligned ⟨coefficient, exponent⟩
        (decimal.exponent + dropped precision decimal) hle
      change _ = coefficient * (10 : ℚ) ^ exponent at haligned
      rw [← haligned] at h ⊢
      refine mul_le_mul_of_nonneg_right ?_ hunit
      exact_mod_cast le_roundHalfEven (by positivity) (le_value_iff.mp h)
    · -- The bound has a digit more than the number keeps, so a power of ten separates them.
      have hlow : (10 : Int) ^ (precision - 1) ≤
          roundHalfEven decimal.coefficient (10 ^ dropped precision decimal) :=
        le_roundHalfEven (by positivity) (le_coefficient_of_dropped hprecision hsign hsome)
      calc coefficient * (10 : ℚ) ^ exponent
          ≤ (10 : ℚ) ^ ((precision : Int) + exponent) := (lt_of_short hshort).le
        _ ≤ (10 : ℚ) ^ ((precision : Int) - 1 +
              (decimal.exponent + dropped precision decimal)) :=
            zpow_le_zpow_right₀ (by norm_num) (by omega)
        _ = ((10 ^ (precision - 1) : Int) : ℚ) *
              (10 : ℚ) ^ (decimal.exponent + dropped precision decimal) :=
            zpow_pred_add hprecision _
        _ ≤ _ := mul_le_mul_of_nonneg_right (by exact_mod_cast hlow) hunit

/-- Rounding to the context keeps the order of two numbers. -/
theorem fix_mono (hprecision : 0 < precision) (hsign : 0 ≤ first.coefficient)
    (h : first.value ≤ second.value) :
    (fix precision first).value ≤ (fix precision second).value := by
  have hunit (x : Int) : (0 : ℚ) < (10 : ℚ) ^ x := zpow_pos (by norm_num) x
  have hsecond : 0 ≤ second.coefficient := by
    have hvalue : (0 : ℚ) ≤ second.value := by
      refine le_trans ?_ h
      exact mul_nonneg (by exact_mod_cast hsign) (hunit _).le
    have := nonneg_of_mul_nonneg_left hvalue (hunit second.exponent)
    exact_mod_cast this
  rcases Nat.eq_zero_or_pos (dropped precision first) with hnone | hsome
  · have hshort := natAbs_lt_dropped precision first
    rw [hnone, add_zero] at hshort
    rw [fix_eq_self hnone]
    exact le_fix hprecision ⟨_, _, hshort, rfl⟩ hsecond h
  rcases Nat.eq_zero_or_pos (dropped precision second) with hnone' | hsome'
  · have hshort := natAbs_lt_dropped precision second
    rw [hnone', add_zero] at hshort
    rw [fix_eq_self hnone']
    exact fix_le hprecision ⟨_, _, hshort, rfl⟩ hsign h
  have hfirst := le_value_iff.mpr (le_coefficient_of_dropped hprecision hsign hsome)
  have hsecond' := le_value_iff.mpr (le_coefficient_of_dropped hprecision hsecond hsome')
  rw [← zpow_pred_add hprecision] at hfirst hsecond'
  have hbelow (decimal : Decimal) : decimal.value < (10 : ℚ) ^
      ((precision : Int) + (decimal.exponent + dropped precision decimal)) := by
    have hlt := @lt_of_short _ decimal.coefficient decimal.exponent
      (natAbs_lt_dropped precision decimal)
    refine lt_of_lt_of_eq hlt ?_
    congr 1
    push_cast
    ring
  have hexponent := (zpow_lt_zpow_iff_right₀ (by norm_num)).mp
    ((hfirst.trans h).trans_lt (hbelow second))
  rcases lt_or_eq_of_le (show first.exponent + (dropped precision first : Int) ≤
    second.exponent + dropped precision second by omega) with hlt | heq
  · -- A power of ten separates the two.
    have hseparator : Representable precision ((10 : ℚ) ^ ((precision : Int) - 1 +
        (second.exponent + dropped precision second))) := by
      refine ⟨10 ^ (precision - 1), _, ?_, zpow_pred_add hprecision _⟩
      rw [Int.natAbs_pow]
      exact Nat.pow_lt_pow_right (by norm_num) (by omega)
    refine (fix_le hprecision hseparator hsign ?_).trans
      (le_fix hprecision hseparator hsecond hsecond')
    exact (hbelow first).le.trans (zpow_le_zpow_right₀ (by norm_num) (by omega))
  · rw [value_fix_eq hprecision, value_fix_eq hprecision, heq]
    refine mul_le_mul_of_nonneg_right ?_ (hunit _).le
    have hcross : first.coefficient * 10 ^ dropped precision second ≤
        second.coefficient * 10 ^ dropped precision first := by
      have hscaled : ((first.coefficient * 10 ^ dropped precision second : Int) : ℚ) *
            (10 : ℚ) ^ (first.exponent + dropped precision first) ≤
          ((second.coefficient * 10 ^ dropped precision first : Int) : ℚ) *
            (10 : ℚ) ^ (first.exponent + dropped precision first) := by
        have hmore : (0 : ℚ) ≤ 10 ^ dropped precision first * 10 ^ dropped precision second := by
          positivity
        have hscaled := mul_le_mul_of_nonneg_right h hmore
        unfold value at hscaled
        conv_rhs => rw [heq]
        rw [zpow_add₀ (by norm_num : (10 : ℚ) ≠ 0), zpow_add₀ (by norm_num : (10 : ℚ) ≠ 0),
          zpow_natCast, zpow_natCast]
        push_cast
        linarith
      exact_mod_cast le_of_mul_le_mul_right hscaled (hunit _)
    exact_mod_cast roundHalfEven_mono (by positivity) (by positivity) hcross

theorem fix_nonpos (hprecision : 0 < precision) (hsign : decimal.coefficient ≤ 0) :
    (fix precision decimal).value ≤ 0 := by
  have hround : roundHalfEven decimal.coefficient (10 ^ dropped precision decimal) ≤ 0 :=
    roundHalfEven_le (by positivity) (by rwa [zero_mul])
  rw [value_fix_eq hprecision]
  exact mul_nonpos_of_nonpos_of_nonneg (by exact_mod_cast hround) (zpow_nonneg (by norm_num) _)

theorem mul_le (hprecision : 0 < precision) (hbound : Representable precision bound)
    (hsign : 0 ≤ first.coefficient * second.coefficient)
    (h : first.value * second.value ≤ bound) : (mul precision first second).value ≤ bound := by
  rw [← value_product] at h
  exact fix_le hprecision hbound hsign h

theorem mul_mono {first' second' : Decimal} (hprecision : 0 < precision)
    (hsign : 0 ≤ first.coefficient * second.coefficient)
    (h : first.value * second.value ≤ first'.value * second'.value) :
    (mul precision first second).value ≤ (mul precision first' second').value := by
  rw [← value_product, ← value_product] at h
  exact fix_mono hprecision hsign h

end Decimal

end PayzenoLedger.Library
