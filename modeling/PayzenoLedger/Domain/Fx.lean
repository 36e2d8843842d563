import PayzenoLedger.Domain.Sale

/-!
# Currency conversion

The arithmetic of a payout that converts: the rate less Payzeno's markup, the amount at
that rate rounded once to the minor unit of the bank's currency, and the rate as the
payout records it.
-/

set_option autoImplicit false

namespace PayzenoLedger

open Library

/-- An amount in minor units with its currency. -/
structure Money where
  amountMinor : Int
  currency : String
deriving DecidableEq, Repr

/-- `RATE_PLACES`. -/
def ratePlaces : Nat := 10

section

-- `CURRENCY_EXPONENT` of the contracts.
variable (exponents : String → Option Nat)

/-- Minor-unit exponent of a currency. -/
def exponentFor (currency : String) : Except Exception Int :=
  match exponents currency with
  | some exponent => .ok exponent
  | none =>
      .error (ruleError .validationError "unsupported currency" [("currency", .text currency)])

/-- The rate that a payout converts at: the markup comes off what the merchant receives. -/
def markedDownRate (midRate : Decimal) (markupBps : Int) : Except Exception Decimal :=
  if markupBps < 0 ∨ 10000 ≤ markupBps then
    .error (ruleError .validationError "markup_bps out of range"
      [("markup_bps", .int markupBps)])
  else
    let factor := Decimal.scaleb decimalPrecision (-4) (.ofInt (10000 - markupBps))
    match (Decimal.mul decimalPrecision midRate factor).quantize decimalPrecision
        (-ratePlaces) with
    | none => .error (.builtin .arithmeticError)
    | some rate => .ok rate

/-- An amount in the minor units of another currency; the exponents count before rounding. -/
def convertMinor (amountMinor : Int) (fromCurrency toCurrency : String) (rate : Decimal) :
    Except Exception Int := do
  let target ← exponentFor exponents toCurrency
  let source ← exponentFor exponents fromCurrency
  let exact := Decimal.mul decimalPrecision (.ofInt amountMinor) rate
  let scaled := Decimal.scaleb decimalPrecision (target - source) exact
  match scaled.quantize decimalPrecision 0 with
  | none => throw (.builtin .arithmeticError)
  | some quantised => pure quantised.coefficient

/-- One conversion of a balance amount into a bank currency. -/
structure FxConversion where
  source : Money
  target : Money
  midRate : Decimal
  rate : Decimal
  markupBps : Int
  midTargetMinor : Int

def FxConversion.spreadMinor (conversion : FxConversion) : Int :=
  conversion.midTargetMinor - conversion.target.amountMinor

/-- Drop the trailing zeros of a coefficient, at most so many. -/
def dropZeros : Nat → Decimal → Decimal
  | 0, decimal => decimal
  | count + 1, decimal =>
      if decimal.coefficient ≠ 0 ∧ decimal.coefficient % 10 = 0 then
        dropZeros count ⟨decimal.coefficient / 10, decimal.exponent + 1⟩
      else decimal

/-- The wire form of a rate: plain decimal notation, no exponent, no trailing zeros. -/
def formatRate (rate : Decimal) : String :=
  let short := dropZeros (toString rate.coefficient.natAbs).length rate
  let digits := (toString short.coefficient.natAbs).toList
  let sign := if short.coefficient < 0 then "-" else ""
  if short.coefficient = 0 then "0"
  else if 0 ≤ short.exponent then
    sign ++ String.ofList (digits ++ List.replicate short.exponent.toNat '0')
  else
    let places := (-short.exponent).toNat
    let padded := List.replicate (places + 1 - digits.length) '0' ++ digits
    let whole := padded.length - places
    sign ++ String.ofList (padded.take whole ++ '.' :: padded.drop whole)

/-- Everything a converted payout records and posts, from one source amount. -/
def quotePayoutConversion (source : Money) (toCurrency : String) (midRate : Decimal)
    (markupBps : Int) : Except Exception FxConversion := do
  if source.amountMinor ≤ 0 then
    throw (ruleError .validationError "a conversion needs a positive amount"
      [("amount_minor", .int source.amountMinor), ("currency", .text source.currency)])
  if source.currency = toCurrency then
    throw (ruleError .validationError "source and target currency are the same"
      [("currency", .text toCurrency)])
  let rate ← markedDownRate midRate markupBps
  let targetMinor ← convertMinor exponents source.amountMinor source.currency toCurrency rate
  let midMinor ← convertMinor exponents source.amountMinor source.currency toCurrency midRate
  if targetMinor ≤ 0 then
    throw (ruleError .validationError "amount is too small to convert"
      [("amount_minor", .int source.amountMinor), ("currency", .text source.currency),
       ("to_currency", .text toCurrency), ("rate", .text (formatRate rate))])
  pure
    { source, target := ⟨targetMinor, toCurrency⟩, midRate, rate, markupBps
      midTargetMinor := midMinor }

end

/-- What the columns of a converted payout hold. -/
structure PayoutFx where
  amountMinor : Int
  currency : String
  sourceAmountMinor : Int
  sourceCurrency : String
  fxRate : Decimal
  fxSpreadMinor : Int

/-- The columns from a conversion; `fx_rate` is a `NUMERIC(20, 10)`, which rounds to its
scale and refuses more digits than its precision. -/
def FxConversion.columns (conversion : FxConversion) : Option PayoutFx :=
  (conversion.rate.quantize 20 (-ratePlaces)).map fun fxRate =>
    { amountMinor := conversion.target.amountMinor
      currency := conversion.target.currency
      sourceAmountMinor := conversion.source.amountMinor
      sourceCurrency := conversion.source.currency
      fxRate, fxSpreadMinor := conversion.spreadMinor }

/-! ## Exactness -/

/-- A positive rate below a million with at most ten decimal places. -/
structure QuotedRate (rate : Decimal) : Prop where
  positive : 0 < rate.value
  small : rate.value < 10 ^ 6
  places : ∃ ticks : Int, rate.value = ticks * (10 : ℚ) ^ (-(ratePlaces : Int))

section

variable {exponents : String → Option Nat} {amountMinor : Int} {rate midRate : Decimal}
  {fromCurrency toCurrency : String} {sourceExponent targetExponent : Nat}

/-- A quoted rate in units of its last place. -/
theorem QuotedRate.ticks (quoted : QuotedRate rate) : ∃ ticks : Int, 0 < ticks ∧
    ticks < 10 ^ 16 ∧ rate.value = ticks * (10 : ℚ) ^ (-10 : Int) := by
  obtain ⟨ticks, hticks⟩ := quoted.places
  have hpositive := quoted.positive
  have hsmall := quoted.small
  have hunit : (10 : ℚ) ^ (-(ratePlaces : Int)) = 1 / 10 ^ 10 := by
    norm_num [ratePlaces]
  rw [hticks, hunit] at hpositive hsmall
  refine ⟨ticks, ?_, ?_, ?_⟩
  · have : (0 : ℚ) < ticks := by linarith
    exact_mod_cast this
  · have : (ticks : ℚ) < 10 ^ 16 := by linarith
    exact_mod_cast this
  · rw [hticks]
    norm_num [ratePlaces]

/-- The product of an amount and a quoted rate fits the context, so it is rounded once. -/
theorem convertMinor_eq (hpositive : 0 < amountMinor) (hsmall : amountMinor < 10 ^ 12)
    (quoted : QuotedRate rate) (hsource : exponents fromCurrency = some sourceExponent)
    (htarget : exponents toCurrency = some targetExponent) (hexponent : targetExponent ≤ 2) :
    convertMinor exponents amountMinor fromCurrency toCurrency rate =
      .ok (halfUp (amountMinor * rate.value *
        (10 : ℚ) ^ ((targetExponent : Int) - sourceExponent))) := by
  have hten : (10 : ℚ) ≠ 0 := by norm_num
  obtain ⟨ticks, hticks, hfew, hrate⟩ := quoted.ticks
  generalize hshift : (targetExponent : Int) - sourceExponent = shift
  -- At most twelve digits times at most sixteen.
  have hdigits : (amountMinor * ticks).natAbs < 10 ^ decimalPrecision := by
    have hproduct : amountMinor * ticks < 10 ^ 12 * 10 ^ 16 :=
      mul_lt_mul'' hsmall hfew hpositive.le hticks.le
    have hsign : 0 < amountMinor * ticks := mul_pos hpositive hticks
    unfold decimalPrecision
    norm_num at hproduct ⊢
    omega
  have hexact : (Decimal.mul decimalPrecision (.ofInt amountMinor) rate).value =
      amountMinor * rate.value := by
    rw [Decimal.value_mul, Decimal.value_ofInt]
    refine ⟨amountMinor * ticks, -10, hdigits, ?_⟩
    rw [Decimal.value_ofInt, hrate]
    push_cast
    ring
  have hscaled : (Decimal.scaleb decimalPrecision shift
      (Decimal.mul decimalPrecision (.ofInt amountMinor) rate)).value =
      amountMinor * rate.value * (10 : ℚ) ^ shift := by
    rw [Decimal.value_scaleb, hexact]
    refine ⟨amountMinor * ticks, -10 + shift, hdigits, ?_⟩
    rw [hexact, hrate, zpow_add₀ hten]
    push_cast
    ring
  have hquantised : (halfUp (amountMinor * rate.value * (10 : ℚ) ^ shift)).natAbs <
      10 ^ decimalPrecision := by
    have hamount : (0 : ℚ) < amountMinor := by exact_mod_cast hpositive
    have hlimit : (amountMinor : ℚ) ≤ 10 ^ 12 := by exact_mod_cast hsmall.le
    have hpower : (10 : ℚ) ^ shift ≤ 10 ^ 2 := by
      rw [← zpow_natCast]
      exact zpow_le_zpow_right₀ (by norm_num) (by omega)
    have hrational := quoted.positive
    have hunit : (0 : ℚ) < (10 : ℚ) ^ shift := zpow_pos (by norm_num) shift
    have hlow : ((0 : Int) : ℚ) ≤ amountMinor * rate.value * (10 : ℚ) ^ shift := by
      push_cast
      positivity
    have hhigh : amountMinor * rate.value * (10 : ℚ) ^ shift ≤ ((10 ^ 20 : Int) : ℚ) := by
      have hrate := quoted.small.le
      calc amountMinor * rate.value * (10 : ℚ) ^ shift
          ≤ 10 ^ 12 * 10 ^ 6 * 10 ^ 2 :=
            mul_le_mul (mul_le_mul hlimit hrate hrational.le (by norm_num)) hpower hunit.le
              (by norm_num)
        _ = ((10 ^ 20 : Int) : ℚ) := by norm_num
    have := le_halfUp hlow
    have := halfUp_le hhigh
    unfold decimalPrecision
    omega
  have hquantise := Decimal.quantize_eq decimalPrecision
    (Decimal.scaleb decimalPrecision shift
      (Decimal.mul decimalPrecision (.ofInt amountMinor) rate)) 0
  rw [hscaled, neg_zero, zpow_zero, mul_one] at hquantise
  unfold convertMinor exponentFor
  rw [hsource, htarget]
  change (match (Decimal.scaleb decimalPrecision (targetExponent - sourceExponent)
    (Decimal.mul decimalPrecision (.ofInt amountMinor) rate)).quantize decimalPrecision 0 with
    | none => throw (Exception.builtin .arithmeticError)
    | some quantised => pure quantised.coefficient) = _
  rw [hshift, hquantise hquantised]
  rfl

theorem markedDownRate_cases {markupBps : Int}
    (h : markedDownRate midRate markupBps = .ok rate) :
    0 ≤ markupBps ∧ markupBps < 10000 ∧
      (Decimal.mul decimalPrecision midRate (Decimal.scaleb decimalPrecision (-4)
        (.ofInt (10000 - markupBps)))).quantize decimalPrecision (-10) = some rate := by
  unfold markedDownRate at h
  split at h
  · cases h
  · next hmarkup =>
      rw [not_or, not_lt, not_le] at hmarkup
      dsimp only at h
      refine ⟨hmarkup.1, hmarkup.2, ?_⟩
      change (match Decimal.quantize decimalPrecision (-10) (Decimal.mul decimalPrecision midRate
        (Decimal.scaleb decimalPrecision (-4) (Decimal.ofInt (10000 - markupBps)))) with
        | none => Except.error (Exception.builtin BuiltinError.arithmeticError)
        | some rate => Except.ok rate) = Except.ok rate at h
      split at h
      · cases h
      · next hquantised =>
          cases h
          exact hquantised

/-- The markup takes a quoted rate down, so the column has room for what is left. -/
theorem markedDownRate_small {markupBps : Int} (quoted : QuotedRate midRate)
    (h : markedDownRate midRate markupBps = .ok rate) : rate.coefficient.natAbs < 10 ^ 20 := by
  obtain ⟨hmarkup, hlimit, hquantise⟩ := markedDownRate_cases h
  obtain ⟨ticks, hticks, hfew, hmid⟩ := quoted.ticks
  have hfactor : (Decimal.scaleb decimalPrecision (-4) (.ofInt (10000 - markupBps))).value =
      ((10000 - markupBps : Int) : ℚ) * (10 : ℚ) ^ (-4 : Int) := by
    rw [Decimal.value_scaleb, Decimal.value_ofInt]
    refine ⟨10000 - markupBps, -4, ?_, by rw [Decimal.value_ofInt]⟩
    unfold decimalPrecision
    omega
  have hproduct : (Decimal.mul decimalPrecision midRate (Decimal.scaleb decimalPrecision (-4)
      (.ofInt (10000 - markupBps)))).value =
      ((ticks * (10000 - markupBps) : Int) : ℚ) * (10 : ℚ) ^ (-14 : Int) := by
    rw [Decimal.value_mul]
    · rw [hfactor, hmid]
      push_cast
      norm_num
      ring
    · refine ⟨ticks * (10000 - markupBps), -14, ?_, ?_⟩
      · have hupper : ticks * (10000 - markupBps) ≤ 10 ^ 16 * 10000 :=
          mul_le_mul hfew.le (by omega) (by omega) (by norm_num)
        have hlower : 0 < ticks * (10000 - markupBps) := mul_pos hticks (by omega)
        unfold decimalPrecision
        norm_num at hupper ⊢
        omega
      · rw [hfactor, hmid]
        push_cast
        norm_num
        ring
  have hticks' : (0 : ℚ) < ((ticks * (10000 - markupBps) : Int) : ℚ) := by
    exact_mod_cast mul_pos hticks (by omega)
  have hbound : ((ticks * (10000 - markupBps) : Int) : ℚ) ≤ ((10 ^ 20 : Int) : ℚ) := by
    have : ticks * (10000 - markupBps) ≤ 10 ^ 16 * 10000 :=
      mul_le_mul hfew.le (by omega) (by omega) (by norm_num)
    norm_num at this
    exact_mod_cast this
  obtain ⟨rfl, -⟩ := Decimal.quantize_eq_some.mp hquantise
  have hrescaled := Decimal.rescale_eq (Decimal.mul decimalPrecision midRate
    (Decimal.scaleb decimalPrecision (-4) (.ofInt (10000 - markupBps)))) (-10)
  rw [hproduct, mul_assoc, ← zpow_add₀ (by norm_num : (10 : ℚ) ≠ 0)] at hrescaled
  generalize ((ticks * (10000 - markupBps) : Int) : ℚ) = product at hticks' hbound hrescaled
  have hlow : ((0 : Int) : ℚ) ≤ product * (10 : ℚ) ^ (-14 + - -10 : Int) := by
    push_cast
    exact mul_nonneg hticks'.le (zpow_nonneg (by norm_num) _)
  have hhigh : product * (10 : ℚ) ^ (-14 + - -10 : Int) ≤ ((10 ^ 16 : Int) : ℚ) := by
    norm_num at hbound ⊢
    linarith
  have := le_halfUp hlow
  have := halfUp_le hhigh
  rw [← hrescaled] at *
  dsimp only
  omega

/-! ## The recorded rate -/

theorem quotePayoutConversion_cases {source : Money} {markupBps : Int}
    {conversion : FxConversion}
    (h : quotePayoutConversion exponents source toCurrency midRate markupBps = .ok conversion) :
    markedDownRate midRate markupBps = .ok conversion.rate ∧
      convertMinor exponents source.amountMinor source.currency toCurrency conversion.rate =
        .ok conversion.target.amountMinor ∧
      conversion.source = source ∧ conversion.target.currency = toCurrency ∧
      convertMinor exponents source.amountMinor source.currency toCurrency midRate =
        .ok conversion.midTargetMinor ∧
      0 < source.amountMinor ∧ 0 < conversion.target.amountMinor := by
  unfold quotePayoutConversion at h
  simp only [bind, Except.bind, pure, Except.pure, throw, throwThe, MonadExceptOf.throw] at h
  split at h
  · cases h
  · next hpositive =>
    split at h
    · cases h
    · cases hrate : markedDownRate midRate markupBps with
      | error e =>
          rw [hrate] at h
          cases h
      | ok rate =>
          rw [hrate] at h
          dsimp only at h
          cases htarget : convertMinor exponents source.amountMinor source.currency toCurrency
              rate with
          | error e =>
              rw [htarget] at h
              cases h
          | ok targetMinor =>
              rw [htarget] at h
              dsimp only at h
              cases hmid : convertMinor exponents source.amountMinor source.currency toCurrency
                  midRate with
              | error e =>
                  rw [hmid] at h
                  cases h
              | ok midMinor =>
                  rw [hmid] at h
                  dsimp only at h
                  split at h
                  · cases h
                  · next hsurvives =>
                      cases h
                      exact ⟨rfl, htarget, rfl, rfl, rfl, not_le.mp hpositive,
                        not_le.mp hsurvives⟩

/-- A rate of ten places is stored as it is. -/
theorem columns_eq_some {conversion : FxConversion} {columns : PayoutFx}
    (hplaces : conversion.rate.exponent = -10) (h : conversion.columns = some columns) :
    columns.fxRate = conversion.rate := by
  obtain ⟨fxRate, hstored, rfl⟩ := Option.map_eq_some_iff.mp h
  rw [(Decimal.quantize_eq_some.mp hstored).1]
  change (⟨conversion.rate.rescale (-10), -10⟩ : Decimal) = conversion.rate
  rw [Decimal.rescale_same hplaces]
  exact congrArg (Decimal.mk _) hplaces.symm

theorem markedDownRate_exponent {markupBps : Int}
    (h : markedDownRate midRate markupBps = .ok rate) : rate.exponent = -10 := by
  obtain ⟨-, -, hquantise⟩ := markedDownRate_cases h
  rw [(Decimal.quantize_eq_some.mp hquantise).1]

/-- What the columns of a converted payout hold reproduces the payout's amount. -/
theorem columns_reproduce {source : Money} {markupBps : Int} {conversion : FxConversion}
    {columns : PayoutFx}
    (h : quotePayoutConversion exponents source toCurrency midRate markupBps = .ok conversion)
    (hcolumns : conversion.columns = some columns) :
    convertMinor exponents columns.sourceAmountMinor columns.sourceCurrency columns.currency
      columns.fxRate = .ok columns.amountMinor := by
  obtain ⟨hrate, htarget, hsource, hcurrency, -⟩ := quotePayoutConversion_cases h
  rw [columns_eq_some (markedDownRate_exponent hrate) hcolumns]
  obtain ⟨fxRate, -, rfl⟩ := Option.map_eq_some_iff.mp hcolumns
  dsimp only
  rw [hsource, hcurrency]
  exact htarget

theorem columns_isSome {source : Money} {markupBps : Int} {conversion : FxConversion}
    (quoted : QuotedRate midRate)
    (h : quotePayoutConversion exponents source toCurrency midRate markupBps = .ok conversion) :
    ∃ columns, conversion.columns = some columns := by
  obtain ⟨hrate, -⟩ := quotePayoutConversion_cases h
  have hsmall : (conversion.rate.rescale (-10)).natAbs < 10 ^ 20 := by
    rw [Decimal.rescale_same (markedDownRate_exponent hrate)]
    exact markedDownRate_small quoted hrate
  have hstored := Decimal.quantize_eq_some.mpr ⟨rfl, hsmall⟩
  exact ⟨_, Option.map_eq_some_iff.mpr ⟨_, hstored, rfl⟩⟩

/-- A conversion is the exact product rounded once, and the columns reproduce it. -/
theorem conversions_exact
    (supported : ∀ currency exponent, exponents currency = some exponent →
      exponent = 0 ∨ exponent = 2) :
    (∀ amountMinor fromCurrency toCurrency rate sourceExponent targetExponent,
      0 < amountMinor → amountMinor < 10 ^ 12 → QuotedRate rate →
      exponents fromCurrency = some sourceExponent →
      exponents toCurrency = some targetExponent →
      convertMinor exponents amountMinor fromCurrency toCurrency rate =
        .ok (halfUp (amountMinor * rate.value *
          (10 : ℚ) ^ ((targetExponent : Int) - sourceExponent)))) ∧
    ∀ source toCurrency midRate markupBps conversion,
      quotePayoutConversion exponents source toCurrency midRate markupBps = .ok conversion →
      (QuotedRate midRate → ∃ columns, conversion.columns = some columns) ∧
      ∀ columns, conversion.columns = some columns →
        convertMinor exponents columns.sourceAmountMinor columns.sourceCurrency
          columns.currency columns.fxRate = .ok columns.amountMinor := by
  constructor
  · intro amountMinor fromCurrency toCurrency rate sourceExponent targetExponent hpositive
      hsmall quoted hsource htarget
    have hexponent : targetExponent ≤ 2 := by
      rcases supported _ _ htarget with rfl | rfl <;> omega
    exact convertMinor_eq hpositive hsmall quoted hsource htarget hexponent
  · intro source toCurrency midRate markupBps conversion h
    exact ⟨fun quoted => columns_isSome quoted h, fun columns => columns_reproduce h⟩

end

/-- Dollars and yen. -/
def sampleExponents : String → Option Nat
  | "USD" => some 2
  | "JPY" => some 0
  | _ => none

theorem sampleExponents_supported (currency : String) (exponent : Nat)
    (h : sampleExponents currency = some exponent) : exponent = 0 ∨ exponent = 2 := by
  unfold sampleExponents at h
  split at h
  · cases h
    exact .inr rfl
  · cases h
    exact .inl rfl
  · cases h

def sampleRate : Decimal :=
  ⟨15120, -2⟩

theorem quotedRate_sampleRate : QuotedRate sampleRate where
  positive := by norm_num [sampleRate, Decimal.value]
  small := by norm_num [sampleRate, Decimal.value]
  places := ⟨1512000000000, by norm_num [sampleRate, Decimal.value, ratePlaces]⟩

/-- Ten dollars less one percent. -/
def sampleConversion : FxConversion where
  source := ⟨1000, "USD"⟩
  target := ⟨1497, "JPY"⟩
  midRate := sampleRate
  rate := ⟨1496880000000, -10⟩
  markupBps := 100
  midTargetMinor := 1512

/-- Ten dollars are 1512 yen at 151.20, and 1497 with the markup that the columns keep. -/
theorem conversions_exact_sample :
    convertMinor sampleExponents 1000 "USD" "JPY" sampleRate = .ok 1512 ∧
    convertMinor sampleExponents 1000 "USD" "JPY" ⟨1496880000000, -10⟩ = .ok 1497 := by
  obtain ⟨hexact, hcolumns⟩ := conversions_exact sampleExponents_supported
  constructor
  · have h := hexact 1000 "USD" "JPY" sampleRate 2 0 (by norm_num) (by norm_num)
      quotedRate_sampleRate rfl rfl
    have hvalue : ((1000 : Int) : ℚ) * sampleRate.value *
        (10 : ℚ) ^ (((0 : Nat) : Int) - (2 : Nat)) = ((1512 : Int) : ℚ) := by
      norm_num [sampleRate, Decimal.value]
    rw [hvalue, halfUp_intCast] at h
    exact h
  · have hquote : quotePayoutConversion sampleExponents ⟨1000, "USD"⟩ "JPY" sampleRate 100 =
        .ok sampleConversion := by rfl
    exact (hcolumns ⟨1000, "USD"⟩ "JPY" sampleRate 100 sampleConversion hquote).2
      ⟨1497, "JPY", 1000, "USD", ⟨1496880000000, -10⟩, 15⟩ rfl

end PayzenoLedger
