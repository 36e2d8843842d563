import PayzenoLedger.Domain.Fx
import PayzenoLedger.Domain.Registry

/-!
# Quotes of converted payouts

The mid rate is crossed through the base that the provider quotes against and rounded to
ten places, so taking the markup off it never rounds above it.  Rounding keeps
the order of two amounts, and the target of a quote therefore stays between one and what the
mid rate would have bought.
-/

set_option autoImplicit false

namespace PayzenoLedger

open Library

/-! ## The mid rate -/

section

variable (currencies : List String) (rates : List (String × Decimal))

/-- The rate of a currency that the service supports and the provider quotes. -/
def rateFor (currency : String) : Except Exception Decimal :=
  if currency ∉ currencies then
    .error (ruleError .validationError "unsupported currency" [("currency", .text currency)])
  else
    match rates.lookup currency with
    | none =>
        .error (ruleError .validationError "no fx rate for currency"
          [("currency", .text currency),
           ("quoted", .list (((rates.map Prod.fst).mergeSort (· ≤ ·)).map Json.text))])
    | some rate => .ok rate

/-- Units of one currency for one of another, through the base of the provider. -/
def crossRate (fromCurrency toCurrency : String) : Except Exception Decimal := do
  let fromRate ← rateFor currencies rates fromCurrency
  let toRate ← rateFor currencies rates toCurrency
  if fromCurrency = toCurrency then pure (.ofInt 1)
  else
    match Decimal.div decimalPrecision toRate fromRate with
    | none => throw (.builtin .arithmeticError)
    | some quotient =>
        match quotient.quantize decimalPrecision (-ratePlaces) with
        | none => throw (.builtin .arithmeticError)
        | some rate => pure rate

end

/-- `_fx_target_lines`: the bank side of a converted payout, in its currency. -/
def fxTargetLines (merchantId currency : String) (midMinor payoutMinor spreadMinor : Int) :
    Except Exception (List PostingLine) :=
  fxPayoutTargetPostingRule.build
    { merchantId := some merchantId, currency, grossMinor := midMinor,
      feeMinor := spreadMinor, netMinor := payoutMinor }

/-- A rate in units of its tenth place, with no more digits than the context has. -/
def Ticked (rate : Decimal) : Prop :=
  ∃ ticks : Int, ticks.natAbs < 10 ^ decimalPrecision ∧
    rate.value = ticks * (10 : ℚ) ^ (-(ratePlaces : Int))

theorem crossRate_ticked {currencies : List String} {rates : List (String × Decimal)}
    {fromCurrency toCurrency : String} {midRate : Decimal}
    (h : crossRate currencies rates fromCurrency toCurrency = .ok midRate) : Ticked midRate := by
  unfold crossRate at h
  cases hfrom : rateFor currencies rates fromCurrency with
  | error raised =>
      rw [hfrom] at h
      cases h
  | ok fromRate =>
      cases hto : rateFor currencies rates toCurrency with
      | error raised =>
          rw [hfrom, hto] at h
          cases h
      | ok toRate =>
          rw [hfrom, hto] at h
          simp only [bind, Except.bind, pure, Except.pure, throw, throwThe,
            MonadExceptOf.throw] at h
          split at h
          · cases h
            refine ⟨10 ^ ratePlaces, by decide, ?_⟩
            rw [Decimal.value_ofInt]
            norm_num [ratePlaces]
          · split at h
            · cases h
            · split at h
              · cases h
              · next hquantised =>
                  cases h
                  obtain ⟨rfl, hshort⟩ := Decimal.quantize_eq_some.mp hquantised
                  exact ⟨_, hshort, rfl⟩

/-! ## The rate of the payout -/

section

variable {exponents : String → Option Nat} {fromCurrency toCurrency : String}
  {midRate rate rate' : Decimal} {markupBps markupBps' amountMinor amountMinor' minor minor' : Int}

/-- What the markup leaves of a rate. -/
def markupFactor (markupBps : Int) : Decimal :=
  Decimal.scaleb decimalPrecision (-4) (.ofInt (10000 - markupBps))

theorem markupFactor_value (hmarkup : 0 ≤ markupBps) (hlimit : markupBps < 10000) :
    (markupFactor markupBps).value = ((10000 - markupBps : Int) : ℚ) / 10000 := by
  unfold markupFactor
  rw [Decimal.value_scaleb]
  · rw [Decimal.value_ofInt]
    norm_num
    ring
  · refine ⟨10000 - markupBps, -4, ?_, by rw [Decimal.value_ofInt]⟩
    unfold decimalPrecision
    omega

theorem markupFactor_coefficient (hmarkup : 0 ≤ markupBps) (hlimit : markupBps < 10000) :
    0 < (markupFactor markupBps).coefficient := by
  have hshort : (Decimal.ofInt (10000 - markupBps)).coefficient.natAbs < 10 ^ decimalPrecision := by
    unfold decimalPrecision Decimal.ofInt
    dsimp only
    omega
  unfold markupFactor
  rw [Decimal.scaleb_short hshort]
  dsimp only [Decimal.ofInt]
  omega

/-- The rate is the mid rate less the markup, rounded to its ten places. -/
theorem markedDownRate_value (h : markedDownRate midRate markupBps = .ok rate) :
    rate.value = halfUp ((Decimal.mul decimalPrecision midRate (markupFactor markupBps)).value *
      (10 : ℚ) ^ (10 : Int)) * (10 : ℚ) ^ (-10 : Int) := by
  obtain ⟨-, -, hquantised⟩ := markedDownRate_cases h
  obtain ⟨rfl, -⟩ := Decimal.quantize_eq_some.mp hquantised
  have hrescaled := Decimal.rescale_eq
    (Decimal.mul decimalPrecision midRate (markupFactor markupBps)) (-10)
  rw [neg_neg] at hrescaled
  rw [← hrescaled]
  rfl

/-- A payout that leaves something was converted at a positive rate. -/
theorem midRate_pos (h : markedDownRate midRate markupBps = .ok rate) (hpos : 0 < rate.value) :
    0 < midRate.coefficient := by
  obtain ⟨hmarkup, hlimit, -⟩ := markedDownRate_cases h
  by_contra hsign
  have hproduct : midRate.coefficient * (markupFactor markupBps).coefficient ≤ 0 :=
    mul_nonpos_of_nonpos_of_nonneg (not_lt.mp hsign) (markupFactor_coefficient hmarkup hlimit).le
  have hround : halfUp ((Decimal.mul decimalPrecision midRate (markupFactor markupBps)).value *
      (10 : ℚ) ^ (10 : Int)) ≤ 0 := by
    refine halfUp_le ?_
    rw [Int.cast_zero]
    exact mul_nonpos_of_nonpos_of_nonneg (Decimal.fix_nonpos (by decide) hproduct) (by positivity)
  rw [markedDownRate_value h] at hpos
  have hrate : (halfUp ((Decimal.mul decimalPrecision midRate (markupFactor markupBps)).value *
      (10 : ℚ) ^ (10 : Int)) : ℚ) ≤ 0 := by exact_mod_cast hround
  have := mul_nonpos_of_nonpos_of_nonneg hrate (zpow_nonneg (by norm_num : (0 : ℚ) ≤ 10) (-10))
  linarith

/-- Nothing is rounded above the mid rate, which is itself one of the rates of ten places. -/
theorem markedDownRate_le (ticked : Ticked midRate) (hpositive : 0 < midRate.coefficient)
    (h : markedDownRate midRate markupBps = .ok rate) : rate.value ≤ midRate.value := by
  obtain ⟨hmarkup, hlimit, -⟩ := markedDownRate_cases h
  obtain ⟨ticks, hshort, hticks⟩ := ticked
  have hmid : 0 < midRate.value :=
    mul_pos (by exact_mod_cast hpositive) (zpow_pos (by norm_num) _)
  have hfactor : (markupFactor markupBps).value ≤ 1 := by
    rw [markupFactor_value hmarkup hlimit, div_le_one (by norm_num)]
    exact_mod_cast (by omega : 10000 - markupBps ≤ 10000)
  have hproduct : (Decimal.mul decimalPrecision midRate (markupFactor markupBps)).value ≤
      midRate.value := by
    refine Decimal.mul_le (by decide) ⟨ticks, _, hshort, hticks⟩ ?_ ?_
    · exact mul_nonneg hpositive.le (markupFactor_coefficient hmarkup hlimit).le
    · exact mul_le_of_le_one_right hmid.le hfactor
  have hround : halfUp ((Decimal.mul decimalPrecision midRate (markupFactor markupBps)).value *
      (10 : ℚ) ^ (10 : Int)) ≤ ticks := by
    refine halfUp_le ?_
    calc (Decimal.mul decimalPrecision midRate (markupFactor markupBps)).value *
          (10 : ℚ) ^ (10 : Int)
        ≤ midRate.value * (10 : ℚ) ^ (10 : Int) :=
          mul_le_mul_of_nonneg_right hproduct (by positivity)
      _ = ticks := by
          rw [hticks]
          norm_num [ratePlaces]
          ring
  rw [markedDownRate_value h, hticks]
  exact mul_le_mul_of_nonneg_right (by exact_mod_cast hround) (zpow_nonneg (by norm_num) _)

/-- A greater markup leaves no greater rate. -/
theorem markedDownRate_antitone (hpositive : 0 < midRate.coefficient)
    (h : markedDownRate midRate markupBps = .ok rate)
    (h' : markedDownRate midRate markupBps' = .ok rate') (hle : markupBps' ≤ markupBps) :
    rate.value ≤ rate'.value := by
  obtain ⟨hmarkup, hlimit, -⟩ := markedDownRate_cases h
  obtain ⟨hmarkup', hlimit', -⟩ := markedDownRate_cases h'
  have hmid : 0 < midRate.value :=
    mul_pos (by exact_mod_cast hpositive) (zpow_pos (by norm_num) _)
  have hfactor : (markupFactor markupBps).value ≤ (markupFactor markupBps').value := by
    rw [markupFactor_value hmarkup hlimit, markupFactor_value hmarkup' hlimit']
    have : ((10000 - markupBps : Int) : ℚ) ≤ ((10000 - markupBps' : Int) : ℚ) := by
      exact_mod_cast (by omega : 10000 - markupBps ≤ 10000 - markupBps')
    exact div_le_div_of_nonneg_right this (by norm_num)
  have hproduct := Decimal.mul_mono (by decide : 0 < decimalPrecision)
    (mul_nonneg hpositive.le (markupFactor_coefficient hmarkup hlimit).le)
    (mul_le_mul_of_nonneg_left hfactor hmid.le)
  have hround := halfUp_mono (mul_le_mul_of_nonneg_right hproduct
    (by positivity : (0 : ℚ) ≤ (10 : ℚ) ^ (10 : Int)))
  rw [markedDownRate_value h, markedDownRate_value h']
  exact mul_le_mul_of_nonneg_right (by exact_mod_cast hround) (zpow_nonneg (by norm_num) _)

/-! ## The amount of the payout -/

/-- The product in the digits of the context, at the other exponent and rounded once. -/
theorem convertMinor_cases
    (h : convertMinor exponents amountMinor fromCurrency toCurrency rate = .ok minor) :
    ∃ source target, exponentFor exponents fromCurrency = .ok source ∧
      exponentFor exponents toCurrency = .ok target ∧
      minor = halfUp ((Decimal.mul decimalPrecision (.ofInt amountMinor) rate).value *
        (10 : ℚ) ^ (target - source)) := by
  unfold convertMinor at h
  cases htarget : exponentFor exponents toCurrency with
  | error raised =>
      rw [htarget] at h
      cases h
  | ok target =>
      cases hsource : exponentFor exponents fromCurrency with
      | error raised =>
          rw [htarget, hsource] at h
          cases h
      | ok source =>
          rw [htarget, hsource] at h
          simp only [bind, Except.bind, pure, Except.pure, throw, throwThe,
            MonadExceptOf.throw] at h
          split at h
          · cases h
          · next hquantised =>
              cases h
              obtain ⟨rfl, -⟩ := Decimal.quantize_eq_some.mp hquantised
              have hfits := Decimal.fix_fits (by decide : 0 < decimalPrecision)
                ⟨amountMinor * rate.coefficient, 0 + rate.exponent⟩
              have hwritten : Decimal.Representable decimalPrecision
                  ((Decimal.mul decimalPrecision (.ofInt amountMinor) rate).value *
                    (10 : ℚ) ^ (target - source)) := by
                refine ⟨_, (Decimal.mul decimalPrecision (.ofInt amountMinor) rate).exponent +
                  (target - source), hfits, ?_⟩
                rw [zpow_add₀ (by norm_num : (10 : ℚ) ≠ 0), ← mul_assoc]
                rfl
              refine ⟨source, target, rfl, rfl, ?_⟩
              rw [Decimal.rescale_eq, Decimal.value_scaleb hwritten, neg_zero, zpow_zero, mul_one]

/-- The amount grows with the amount that is converted and with the rate. -/
theorem convertMinor_mono (hamount : 0 ≤ amountMinor) (hrate : 0 ≤ rate.coefficient)
    (h : convertMinor exponents amountMinor fromCurrency toCurrency rate = .ok minor)
    (h' : convertMinor exponents amountMinor' fromCurrency toCurrency rate' = .ok minor')
    (hle : amountMinor ≤ amountMinor') (hvalue : rate.value ≤ rate'.value) : minor ≤ minor' := by
  obtain ⟨source, target, hsource, htarget, rfl⟩ := convertMinor_cases h
  obtain ⟨source', target', hsource', htarget', rfl⟩ := convertMinor_cases h'
  cases hsource.symm.trans hsource'
  cases htarget.symm.trans htarget'
  have hnonneg : 0 ≤ rate.value :=
    mul_nonneg (by exact_mod_cast hrate) (zpow_nonneg (by norm_num) _)
  have hproduct : (Decimal.ofInt amountMinor).value * rate.value ≤
      (Decimal.ofInt amountMinor').value * rate'.value := by
    rw [Decimal.value_ofInt, Decimal.value_ofInt]
    exact mul_le_mul (by exact_mod_cast hle) hvalue hnonneg
      (by exact_mod_cast hamount.trans hle)
  have hround := Decimal.mul_mono (by decide : 0 < decimalPrecision)
    (mul_nonneg hamount hrate : 0 ≤ (Decimal.ofInt amountMinor).coefficient * rate.coefficient)
    hproduct
  exact halfUp_mono (mul_le_mul_of_nonneg_right hround (zpow_nonneg (by norm_num) _))

/-- Something is left only of a positive rate. -/
theorem rate_pos (hamount : 0 ≤ amountMinor) (hminor : 0 < minor)
    (h : convertMinor exponents amountMinor fromCurrency toCurrency rate = .ok minor) :
    0 < rate.coefficient := by
  obtain ⟨source, target, -, -, rfl⟩ := convertMinor_cases h
  by_contra hsign
  have hproduct : (Decimal.ofInt amountMinor).coefficient * rate.coefficient ≤ 0 :=
    mul_nonpos_of_nonneg_of_nonpos hamount (not_lt.mp hsign)
  have hround : halfUp ((Decimal.mul decimalPrecision (.ofInt amountMinor) rate).value *
      (10 : ℚ) ^ (target - source)) ≤ 0 := by
    refine halfUp_le ?_
    rw [Int.cast_zero]
    exact mul_nonpos_of_nonpos_of_nonneg (Decimal.fix_nonpos (by decide) hproduct)
      (zpow_nonneg (by norm_num) _)
  omega

/-! ## The quote -/

/-- What a quote promises: the amount at the mid rate is the payout and the spread, and
the lines that post the bank side balance. -/
structure FxConversion.Consistent (exponents : String → Option Nat) (midRate : Decimal)
    (conversion : FxConversion) : Prop where
  mid : convertMinor exponents conversion.source.amountMinor conversion.source.currency
    conversion.target.currency midRate = .ok conversion.midTargetMinor
  target : 1 ≤ conversion.target.amountMinor
  spread : 0 ≤ conversion.spreadMinor
  sum : conversion.midTargetMinor = conversion.target.amountMinor + conversion.spreadMinor
  lines : ∀ merchantId, ∃ lines, fxTargetLines merchantId conversion.target.currency
    conversion.midTargetMinor conversion.target.amountMinor conversion.spreadMinor = .ok lines ∧
    Balanced lines

/-- A payout and a spread that make up the amount at the mid rate can be posted. -/
theorem fxTargetLines_balanced {merchantId currency : String} {midMinor payoutMinor
    spreadMinor : Int} (hcurrency : ∃ letter ∈ currency.toList, Library.isSpace letter = false)
    (hpayout : 0 < payoutMinor) (hspread : 0 ≤ spreadMinor)
    (hsum : midMinor = payoutMinor + spreadMinor) :
    ∃ lines, fxTargetLines merchantId currency midMinor payoutMinor spreadMinor = .ok lines ∧
      Balanced lines := by
  have hbalanced : Balanced ([debit .fxClearing midMinor, credit .cash payoutMinor,
      credit .fxRevenue spreadMinor].filter fun line => line.amountMinor ≠ 0) := by
    refine balanced_filter ?_ ?_ ?_
    · intro line hline
      simp only [debit, credit, List.mem_cons, List.not_mem_nil, or_false] at hline
      rcases hline with rfl | rfl | rfl
      · dsimp only
        omega
      · exact hpayout.le
      · exact hspread
    · simp [sideTotal, debit, credit, hsum]
    · simp [sideTotal, debit, credit]
      omega
  unfold fxTargetLines fxPayoutTargetPostingRule
  dsimp only
  rw [if_neg (by omega), if_neg (by omega)]
  exact ⟨_, built_of_balanced hcurrency hbalanced, hbalanced⟩

theorem exponentFor_ok {currency : String} {exponent : Int}
    (h : exponentFor exponents currency = .ok exponent) :
    ∃ places, exponents currency = some places := by
  unfold exponentFor at h
  split at h
  · next places hplaces => exact ⟨places, hplaces⟩
  · cases h

/-- The rate of a quote that leaves something is positive, and so is the mid rate. -/
theorem quoted_positive {source : Money} {conversion : FxConversion}
    (h : quotePayoutConversion exponents source toCurrency midRate markupBps = .ok conversion) :
    0 < conversion.rate.coefficient ∧ 0 < midRate.coefficient := by
  obtain ⟨hrate, htarget, -, -, -, hamount, hminor⟩ := quotePayoutConversion_cases h
  have hpositive := rate_pos hamount.le hminor htarget
  refine ⟨hpositive, midRate_pos hrate ?_⟩
  exact mul_pos (by exact_mod_cast hpositive) (zpow_pos (by norm_num) _)

theorem quoted_consistent {source : Money} {conversion : FxConversion}
    (named : ∀ currency exponent, exponents currency = some exponent →
      ∃ letter ∈ currency.toList, Library.isSpace letter = false)
    (ticked : Ticked midRate)
    (h : quotePayoutConversion exponents source toCurrency midRate markupBps = .ok conversion) :
    conversion.Consistent exponents midRate := by
  obtain ⟨hrate, htarget, hsource, hcurrency, hmid, hamount, hminor⟩ :=
    quotePayoutConversion_cases h
  obtain ⟨hpositive, hmidpositive⟩ := quoted_positive h
  have hle := convertMinor_mono hamount.le hpositive.le htarget hmid le_rfl
    (markedDownRate_le ticked hmidpositive hrate)
  have hspread : 0 ≤ conversion.spreadMinor := by
    unfold FxConversion.spreadMinor
    omega
  have hsum : conversion.midTargetMinor =
      conversion.target.amountMinor + conversion.spreadMinor := by
    unfold FxConversion.spreadMinor
    omega
  obtain ⟨-, exponent, -, hexponent, -⟩ := convertMinor_cases htarget
  obtain ⟨places, hplaces⟩ := exponentFor_ok hexponent
  constructor
  · rw [hsource, hcurrency]
    exact hmid
  · exact hminor
  · exact hspread
  · exact hsum
  · intro merchantId
    rw [hcurrency]
    exact fxTargetLines_balanced (named _ _ hplaces) hminor hspread hsum

end

/-- Every quote at a crossed rate is consistent, and its target grows with the
source and shrinks with the markup. -/
theorem quotes_consistent {exponents : String → Option Nat} {currencies : List String}
    {rates : List (String × Decimal)} {fromCurrency toCurrency : String} {midRate : Decimal}
    (named : ∀ currency exponent, exponents currency = some exponent →
      ∃ letter ∈ currency.toList, Library.isSpace letter = false)
    (crossed : crossRate currencies rates fromCurrency toCurrency = .ok midRate) :
    (∀ source bankCurrency markupBps conversion,
      quotePayoutConversion exponents source bankCurrency midRate markupBps = .ok conversion →
      conversion.Consistent exponents midRate) ∧
    ∀ source source' bankCurrency markupBps markupBps' conversion conversion',
      quotePayoutConversion exponents source bankCurrency midRate markupBps = .ok conversion →
      quotePayoutConversion exponents source' bankCurrency midRate markupBps' =
        .ok conversion' →
      source.currency = source'.currency → source.amountMinor ≤ source'.amountMinor →
      markupBps' ≤ markupBps →
      conversion.target.amountMinor ≤ conversion'.target.amountMinor := by
  constructor
  · intro source bankCurrency markupBps conversion h
    exact quoted_consistent named (crossRate_ticked crossed) h
  · intro source source' bankCurrency markupBps markupBps' conversion conversion' h h'
      hcurrency hamount hmarkup
    obtain ⟨hrate, htarget, -, -, -, hpositive, -⟩ := quotePayoutConversion_cases h
    obtain ⟨hrate', htarget', -⟩ := quotePayoutConversion_cases h'
    obtain ⟨hrated, hmid⟩ := quoted_positive h
    rw [← hcurrency] at htarget'
    exact convertMinor_mono hpositive.le hrated.le htarget htarget' hamount
      (markedDownRate_antitone hmid hrate hrate' hmarkup)

theorem sampleExponents_named (currency : String) (exponent : Nat)
    (h : sampleExponents currency = some exponent) :
    ∃ letter ∈ currency.toList, Library.isSpace letter = false := by
  unfold sampleExponents at h
  split at h
  · exact ⟨'U', by decide, rfl⟩
  · exact ⟨'J', by decide, rfl⟩
  · cases h

/-- 15120 yen in dollars, at 151.20 yen for a dollar. -/
def yenConversion (markupBps ticks targetMinor : Int) : FxConversion where
  source := ⟨15120, "JPY"⟩
  target := ⟨targetMinor, "USD"⟩
  midRate := ⟨66137566, -10⟩
  rate := ⟨ticks, -10⟩
  markupBps := markupBps
  midTargetMinor := 10000

/-- The yen are a hundred dollars, and a dollar less with a markup of one percent. -/
theorem quotes_consistent_yen :
    (yenConversion 100 65476190 9900).Consistent sampleExponents ⟨66137566, -10⟩ ∧
    (yenConversion 100 65476190 9900).target.amountMinor ≤
      (yenConversion 0 66137566 10000).target.amountMinor := by
  have hcrossed : crossRate ["JPY", "USD"] [("USD", ⟨1, 0⟩), ("JPY", sampleRate)] "JPY" "USD" =
      .ok ⟨66137566, -10⟩ := by rfl
  have hquote : quotePayoutConversion sampleExponents ⟨15120, "JPY"⟩ "USD" ⟨66137566, -10⟩ 100 =
      .ok (yenConversion 100 65476190 9900) := by rfl
  have hfree : quotePayoutConversion sampleExponents ⟨15120, "JPY"⟩ "USD" ⟨66137566, -10⟩ 0 =
      .ok (yenConversion 0 66137566 10000) := by rfl
  obtain ⟨hconsistent, hmonotone⟩ := quotes_consistent sampleExponents_named hcrossed
  exact ⟨hconsistent _ _ _ _ hquote,
    hmonotone _ _ _ _ _ _ _ hquote hfree rfl le_rfl (by decide)⟩

end PayzenoLedger
