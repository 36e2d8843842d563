import PayzenoLedger.Library.Decimal

/-!
# The error of decimal arithmetic

How far the product and the quotient that a context keeps are from the exact ones, relative
to these: half a unit of the last digit.  The digit that tells a quotient's remainder keeps
the rounding from going wrong at a half.
-/

set_option autoImplicit false

namespace PayzenoLedger.Library

/-- The rounded quotient is within a half of the quotient. -/
theorem two_mul_abs_roundHalfEven_sub_le (numerator : Int) {denominator : Int}
    (h : 0 < denominator) :
    2 * |roundHalfEven numerator denominator * denominator - numerator| ≤ denominator := by
  have hsplit := Int.mul_ediv_add_emod numerator denominator
  have hlow := Int.emod_nonneg numerator h.ne'
  have hhigh := Int.emod_lt_of_pos numerator h
  have hdown : numerator / denominator * denominator - numerator =
      -(numerator % denominator) := by linarith
  have hup : (numerator / denominator + 1) * denominator - numerator =
      denominator - numerator % denominator := by linarith
  unfold roundHalfEven
  dsimp only
  split_ifs
  · rw [hdown, abs_neg, abs_of_nonneg hlow]
    omega
  · rw [hup, abs_of_nonneg (by omega)]
    omega
  · rw [hdown, abs_neg, abs_of_nonneg hlow]
    omega
  · rw [hup, abs_of_nonneg (by omega)]
    omega

namespace Decimal

variable {precision : Nat} {decimal first second : Decimal}

/-- A coefficient that stands for the exact number: it is the number, or it is next to it and
does not end in nought or five, with a digit to drop after it. -/
def StandsFor (precision : Nat) (decimal : Decimal) (x : ℚ) : Prop :=
  x = decimal.coefficient ∨
    |x - decimal.coefficient| < 1 ∧ decimal.coefficient % 5 ≠ 0 ∧ 0 < dropped precision decimal

/-- Rounding such a coefficient rounds the number. -/
theorem StandsFor.abs_round_sub_le {x : ℚ} (stands : StandsFor precision decimal x) :
    |(roundHalfEven decimal.coefficient (10 ^ dropped precision decimal) : ℚ) *
        10 ^ dropped precision decimal - x| ≤ 10 ^ dropped precision decimal / 2 := by
  have hround := two_mul_abs_roundHalfEven_sub_le decimal.coefficient
    (show (0 : Int) < 10 ^ dropped precision decimal by positivity)
  generalize roundHalfEven decimal.coefficient (10 ^ dropped precision decimal) = kept at hround ⊢
  rcases stands with rfl | ⟨hnear, hdigit, hdrop⟩
  · have hcast : 2 * |(kept : ℚ) * 10 ^ dropped precision decimal - decimal.coefficient| ≤
        10 ^ dropped precision decimal := by exact_mod_cast hround
    linarith
  · obtain ⟨more, hmore⟩ : ∃ more, dropped precision decimal = more + 1 :=
      ⟨_, (Nat.succ_pred_eq_of_pos hdrop).symm⟩
    rw [hmore] at hround ⊢
    -- The distance is not a half, which would make the last digit nought or five.
    have hless : 2 * |kept * 10 ^ (more + 1) - decimal.coefficient| + 2 ≤ 10 ^ (more + 1) := by
      rw [pow_succ] at hround ⊢
      generalize (10 : Int) ^ more = unit at hround ⊢
      have hdistinct : |kept * (unit * 10) - decimal.coefficient| ≠ 5 * unit := by
        intro heq
        rcases abs_cases (kept * (unit * 10) - decimal.coefficient) with ⟨habs, -⟩ | ⟨habs, -⟩
        · refine hdigit ?_
          rw [show decimal.coefficient = 5 * (2 * (kept * unit) - unit) by linarith]
          exact Int.mul_emod_right 5 _
        · refine hdigit ?_
          rw [show decimal.coefficient = 5 * (2 * (kept * unit) + unit) by linarith]
          exact Int.mul_emod_right 5 _
      omega
    have hcast : 2 * |(kept : ℚ) * 10 ^ (more + 1) - decimal.coefficient| + 2 ≤
        10 ^ (more + 1) := by exact_mod_cast hless
    have htriangle := abs_sub_le ((kept : ℚ) * 10 ^ (more + 1)) decimal.coefficient x
    rw [abs_sub_comm (decimal.coefficient : ℚ) x] at htriangle
    linarith

/-- The error of a rounding is half a unit of the last digit that is kept. -/
theorem StandsFor.abs_value_fix_sub_le {x : ℚ} (hprecision : 0 < precision)
    (hsign : 0 ≤ decimal.coefficient) (stands : StandsFor precision decimal x) :
    |(fix precision decimal).value - x * 10 ^ decimal.exponent| ≤
      decimal.value / (2 * 10 ^ (precision - 1)) := by
  have hunit : (0 : ℚ) < (10 : ℚ) ^ decimal.exponent := zpow_pos (by norm_num) _
  have hvalue : 0 ≤ decimal.value := mul_nonneg (by exact_mod_cast hsign) hunit.le
  rcases Nat.eq_zero_or_pos (dropped precision decimal) with hnone | hsome
  · rcases stands with rfl | ⟨-, -, hdrop⟩
    · rw [fix_eq_self hnone]
      change |decimal.value - decimal.value| ≤ _
      rw [sub_self, abs_zero]
      positivity
    · omega
  · have hround := stands.abs_round_sub_le
    have hlong : (10 : ℚ) ^ (precision - 1) * 10 ^ dropped precision decimal ≤
        decimal.coefficient := by
      exact_mod_cast le_coefficient_of_dropped hprecision hsign hsome
    rw [value_fix_eq hprecision, zpow_add₀ (by norm_num : (10 : ℚ) ≠ 0), zpow_natCast,
      mul_comm ((10 : ℚ) ^ decimal.exponent), ← mul_assoc, ← sub_mul, abs_mul,
      abs_of_pos hunit]
    rw [le_div_iff₀ (by positivity)]
    unfold value
    calc _ * (10 : ℚ) ^ decimal.exponent * (2 * 10 ^ (precision - 1))
        ≤ 10 ^ dropped precision decimal / 2 * (10 : ℚ) ^ decimal.exponent *
            (2 * 10 ^ (precision - 1)) := by gcongr
      _ = 10 ^ (precision - 1) * 10 ^ dropped precision decimal *
            (10 : ℚ) ^ decimal.exponent := by ring
      _ ≤ decimal.coefficient * (10 : ℚ) ^ decimal.exponent := by gcongr

theorem abs_value_mul_sub_le (hprecision : 0 < precision)
    (hsign : 0 ≤ first.coefficient * second.coefficient) :
    |(mul precision first second).value - first.value * second.value| ≤
      first.value * second.value / (2 * 10 ^ (precision - 1)) := by
  rw [← value_product]
  exact StandsFor.abs_value_fix_sub_le hprecision hsign (.inl rfl)

/-- The digit that tells a remainder makes the quotient stand for the exact one. -/
theorem sticky_near {numerator denominator : Nat} (h : 0 < denominator) {sticky : Nat}
    (hsticky : sticky =
      if numerator % denominator ≠ 0 ∧ numerator / denominator % 5 = 0 then
        numerator / denominator + 1
      else numerator / denominator) :
    (numerator / denominator : ℚ) = sticky ∨
      |(numerator / denominator : ℚ) - sticky| < 1 ∧ sticky % 5 ≠ 0 := by
  have hsplit : (numerator : ℚ) =
      denominator * (numerator / denominator : Nat) + (numerator % denominator : Nat) := by
    exact_mod_cast (Nat.div_add_mod numerator denominator).symm
  have hpos : (0 : ℚ) < denominator := by exact_mod_cast h
  have hless : ((numerator % denominator : Nat) : ℚ) < denominator := by
    exact_mod_cast Nat.mod_lt numerator h
  have hexact : (numerator / denominator : ℚ) =
      (numerator / denominator : Nat) + (numerator % denominator : Nat) / denominator := by
    rw [hsplit, add_div, mul_div_cancel_left₀ _ hpos.ne']
  generalize numerator / denominator = quotient at hsticky hexact
  generalize numerator % denominator = rest at hsticky hexact hless
  rcases Nat.eq_zero_or_pos rest with rfl | hrest
  · left
    rw [if_neg (by omega)] at hsticky
    rw [hexact, hsticky, Nat.cast_zero, zero_div, add_zero]
  · right
    have hfraction : (0 : ℚ) < (rest : ℚ) / denominator := div_pos (by exact_mod_cast hrest) hpos
    have hfraction' : (rest : ℚ) / denominator < 1 := (div_lt_one hpos).mpr hless
    rw [hexact, abs_lt]
    split_ifs at hsticky with hfive
    · rw [hsticky]
      push_cast
      exact ⟨⟨by linarith, by linarith⟩, by omega⟩
    · rw [hsticky]
      exact ⟨⟨by linarith, by linarith⟩, by omega⟩

theorem value_nonneg_iff : 0 ≤ decimal.value ↔ 0 ≤ decimal.coefficient := by
  unfold value
  rw [mul_nonneg_iff_of_pos_right (zpow_pos (by norm_num) _)]
  exact Int.cast_nonneg_iff

theorem value_pos_iff : 0 < decimal.value ↔ 0 < decimal.coefficient := by
  unfold value
  rw [mul_pos_iff_of_pos_right (zpow_pos (by norm_num) _)]
  exact Int.cast_pos

theorem value_eq_zero_iff : decimal.value = 0 ↔ decimal.coefficient = 0 := by
  unfold value
  rw [mul_eq_zero_iff_right (zpow_ne_zero _ (by norm_num))]
  exact Int.cast_eq_zero

theorem pow_digitCount_le {n : Nat} (h : n ≠ 0) : 10 ^ (digitCount n - 1) ≤ n :=
  Nat.pow_log_le_self 10 h

theorem lt_pow_digitCount (n : Nat) : n < 10 ^ digitCount n :=
  Nat.lt_pow_succ_log_self (by norm_num) n

/-- The shift of a division gives the quotient a digit more than the context keeps. -/
theorem pow_le_shifted {a b : Nat} (ha : a ≠ 0) {shift : Int}
    (hshift : shift = digitCount b - digitCount a + precision + 1) :
    10 ^ precision * (b * 10 ^ (-shift).toNat) ≤ a * 10 ^ shift.toNat := by
  have hlow := pow_digitCount_le ha
  have hhigh := (lt_pow_digitCount b).le
  have hcount : 1 ≤ digitCount a := Nat.succ_pos _
  calc 10 ^ precision * (b * 10 ^ (-shift).toNat)
      ≤ 10 ^ precision * (10 ^ digitCount b * 10 ^ (-shift).toNat) := by gcongr
    _ = 10 ^ (precision + digitCount b + (-shift).toNat) := by ring
    _ = 10 ^ (digitCount a - 1 + shift.toNat) := by
        congr 1
        omega
    _ = 10 ^ (digitCount a - 1) * 10 ^ shift.toNat := pow_add _ _ _
    _ ≤ a * 10 ^ shift.toNat := by gcongr

/-- The error of a quotient of positive numbers. -/
theorem abs_value_div_sub_le (hprecision : 0 < precision) (hfirst : 0 < first.coefficient)
    (hsecond : 0 < second.coefficient) :
    ∃ quotient, div precision first second = some quotient ∧
      |quotient.value - first.value / second.value| ≤
        first.value / second.value * (11 / 20) / 10 ^ (precision - 1) := by
  obtain ⟨a, ha⟩ := Int.eq_ofNat_of_zero_le hfirst.le
  obtain ⟨b, hb⟩ := Int.eq_ofNat_of_zero_le hsecond.le
  have hapos : 0 < a := by omega
  have hbpos : 0 < b := by omega
  obtain ⟨shift, hshift⟩ : ∃ shift : Int,
    shift = digitCount b - digitCount a + precision + 1 := ⟨_, rfl⟩
  obtain ⟨numerator, hnumerator⟩ : ∃ numerator, numerator = a * 10 ^ shift.toNat := ⟨_, rfl⟩
  obtain ⟨denominator, hdenominator⟩ : ∃ denominator, denominator = b * 10 ^ (-shift).toNat :=
    ⟨_, rfl⟩
  have hdenominatorPos : 0 < denominator := by
    rw [hdenominator]
    positivity
  obtain ⟨sticky, hsticky⟩ : ∃ sticky, sticky =
      if numerator % denominator ≠ 0 ∧ numerator / denominator % 5 = 0 then
        numerator / denominator + 1
      else numerator / denominator := ⟨_, rfl⟩
  have hlong : 10 ^ precision ≤ numerator / denominator := by
    rw [Nat.le_div_iff_mul_le hdenominatorPos, hnumerator, hdenominator]
    exact pow_le_shifted hapos.ne' hshift
  have hstickyLong : 10 ^ precision ≤ sticky := by
    rw [hsticky]
    split_ifs <;> omega
  have hdiv : div precision first second =
      some (fix precision ⟨sticky, first.exponent - second.exponent - shift⟩) := by
    unfold div
    rw [if_neg hsecond.ne', if_neg hfirst.ne']
    dsimp only
    rw [ha, hb, Int.natAbs_natCast, Int.natAbs_natCast, ← hshift, ← hnumerator, ← hdenominator,
      ← hsticky, Int.sign_eq_one_of_pos (by omega), Int.sign_eq_one_of_pos (by omega), one_mul,
      one_mul]
  have hvalue : first.value / second.value =
      (numerator / denominator : ℚ) * 10 ^ (first.exponent - second.exponent - shift) := by
    have hpower : (10 : ℚ) ^ shift * 10 ^ (-shift).toNat = 10 ^ shift.toNat := by
      rw [← zpow_natCast, ← zpow_natCast, ← zpow_add₀ (by norm_num)]
      congr 1
      omega
    unfold value
    rw [ha, hb, hnumerator, hdenominator, zpow_sub₀ (by norm_num), zpow_sub₀ (by norm_num)]
    push_cast
    rw [← hpower]
    field_simp
  refine ⟨_, hdiv, ?_⟩
  have hdrop : 0 < dropped precision
      ⟨sticky, first.exponent - second.exponent - shift⟩ := by
    unfold dropped
    have hlog := Nat.le_log_of_pow_le (by norm_num : 1 < 10) hstickyLong
    dsimp only
    rw [Int.natAbs_natCast]
    omega
  have stands : StandsFor precision ⟨sticky, first.exponent - second.exponent - shift⟩
      (numerator / denominator : ℚ) := by
    rcases sticky_near hdenominatorPos hsticky with hexact | ⟨hnear, hdigit⟩
    · exact .inl (by simpa using hexact)
    · exact .inr ⟨by simpa using hnear, by dsimp only; omega, hdrop⟩
  have herror := stands.abs_value_fix_sub_le hprecision (Int.natCast_nonneg _)
  rw [← hvalue] at herror
  refine herror.trans ?_
  have hunit : (0 : ℚ) < (10 : ℚ) ^ (first.exponent - second.exponent - shift) :=
    zpow_pos (by norm_num) _
  have hten : (10 : ℚ) ≤ 10 ^ precision := by
    exact_mod_cast Nat.le_self_pow hprecision.ne' 10
  have hquotient : (10 : ℚ) ^ precision ≤ numerator / denominator := by
    rw [le_div_iff₀ (by exact_mod_cast hdenominatorPos)]
    exact_mod_cast (Nat.le_div_iff_mul_le hdenominatorPos).mp hlong
  have hclose : (sticky : ℚ) ≤ numerator / denominator * (11 / 10) := by
    rcases sticky_near hdenominatorPos hsticky with hexact | ⟨hnear, -⟩
    · rw [hexact] at hquotient ⊢
      linarith
    · have hbelow := (abs_lt.mp hnear).1
      linarith
  rw [hvalue]
  unfold value
  rw [div_le_div_iff₀ (by positivity) (by positivity)]
  have hfactor : (0 : ℚ) ≤ 10 ^ (first.exponent - second.exponent - shift) *
      10 ^ (precision - 1) := by positivity
  have hscaled := mul_le_mul_of_nonneg_right hclose hfactor
  push_cast
  linarith

end Decimal

end PayzenoLedger.Library
