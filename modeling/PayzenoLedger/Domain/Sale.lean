import PayzenoLedger.Domain.Rules
import PayzenoLedger.Library.Decimal

/-!
# The sale path

The rules of the authorisation, the capture and the funding of a batch, and the
arithmetic of Payzeno's own fee.
-/

set_option autoImplicit false

namespace PayzenoLedger

open Library

/-! ## Fees -/

/-- The precision of the default context of `decimal`. -/
def decimalPrecision : Nat := 28

/-- Attach the context's currency to an amount; `Money` refuses a currency that the
contracts do not list. -/
def checkCurrency (currencies : List String) (currency : String) : Except Exception Unit :=
  if currency ∈ currencies then .ok ()
  else
    .error (ruleError .validationError "unsupported currency"
      [("currency", .text currency), ("supported", .list (currencies.map Json.text))])

/-- Apply a basis-point rate, rounded to the minor unit.  The division by
`BPS_DENOMINATOR` moves the point by four places. -/
def applyBps (amountMinor bps : Int) : Except Exception Int :=
  if bps < 0 then
    .error (ruleError .validationError "bps must not be negative" [("bps", .int bps)])
  else
    let product := Decimal.mul decimalPrecision (.ofInt amountMinor) (.ofInt bps)
    let raw := Decimal.scaleb decimalPrecision (-4) product
    match raw.quantize decimalPrecision 0 with
    | none => .error (.builtin .arithmeticError)
    | some quantised => .ok quantised.coefficient

/-- A product that fits the context is rounded once, to the minor unit. -/
theorem applyBps_eq {amountMinor bps : Int} (hbps : 0 ≤ bps)
    (h : (amountMinor * bps).natAbs < 10 ^ decimalPrecision) :
    applyBps amountMinor bps = .ok (roundHalfUp (amountMinor * bps) 10000) := by
  have hproduct : (Decimal.mul decimalPrecision (.ofInt amountMinor) (.ofInt bps)).value =
      ((amountMinor * bps : Int) : ℚ) := by
    rw [Decimal.value_mul, Decimal.value_ofInt, Decimal.value_ofInt, Int.cast_mul]
    exact ⟨amountMinor * bps, 0, h, by simp⟩
  have hraw : (Decimal.scaleb decimalPrecision (-4)
      (Decimal.mul decimalPrecision (.ofInt amountMinor) (.ofInt bps))).value =
      ((amountMinor * bps : Int) : ℚ) / (10000 : Nat) := by
    rw [Decimal.value_scaleb, hproduct]
    · norm_num [zpow_neg, div_eq_mul_inv]
    · exact ⟨amountMinor * bps, -4, h, by rw [hproduct]⟩
  have hrounded := roundHalfUp_eq_halfUp (amountMinor * bps) 10000 (by norm_num)
  have hbound : (roundHalfUp (amountMinor * bps) 10000).natAbs < 10 ^ decimalPrecision := by
    unfold roundHalfUp
    unfold decimalPrecision at h ⊢
    split <;> omega
  unfold applyBps
  rw [if_neg (not_lt.mpr hbps)]
  dsimp only
  rw [Decimal.quantize_eq]
  · rw [hraw, neg_zero, zpow_zero, mul_one, ← hrounded]
    rfl
  · rw [hraw, neg_zero, zpow_zero, mul_one, ← hrounded]
    exact hbound

/-- Up to two digits more than the context holds, the rate still applies. -/
theorem applyBps_total {amountMinor bps : Int} (hbps : 0 ≤ bps)
    (h : (amountMinor * bps).natAbs < 10 ^ (decimalPrecision + 2)) :
    ∃ quantised, applyBps amountMinor bps = .ok quantised := by
  obtain ⟨hproduct, hexponent⟩ : (Decimal.mul decimalPrecision (.ofInt amountMinor)
        (.ofInt bps)).coefficient.natAbs < 10 ^ decimalPrecision ∧
      (Decimal.mul decimalPrecision (.ofInt amountMinor) (.ofInt bps)).exponent ≤
        0 + 0 + ((2 : Nat) : Int) + 1 :=
    Decimal.mul_short (by decide) h
  unfold applyBps
  rw [if_neg (not_lt.mpr hbps)]
  dsimp only
  generalize Decimal.mul decimalPrecision (.ofInt amountMinor) (.ofInt bps) = product at *
  have hquantised : ∃ quantised, Decimal.quantize decimalPrecision 0
      ⟨product.coefficient, product.exponent + -4⟩ = some quantised :=
    Decimal.quantize_isSome hproduct (by dsimp only; omega)
  obtain ⟨quantised, hquantised⟩ := hquantised
  rw [Decimal.scaleb_short hproduct, hquantised]
  exact ⟨quantised.coefficient, rfl⟩

/-- Payzeno's take on one captured charge, never more than the charge. -/
def computePlatformFee (grossMinor bps fixedMinor : Int) : Except Exception Int := do
  if fixedMinor < 0 then
    throw (ruleError .validationError "fixed fee must not be negative"
      [("fixed_minor", .int fixedMinor)])
  let variable_ ← applyBps grossMinor bps
  pure (min (variable_ + fixedMinor) grossMinor)

/-! ## Rules -/

/-- A contra pair, no profit and no loss. -/
def authPostingRule : PostingRule where
  purpose := .auth
  build ctx :=
    PostingRule.built .auth ctx
      [debit .merchantReceivable ctx.grossMinor, credit .authorizationHold ctx.grossMinor]

/-- Release of the hold, on its own. -/
def authReleasePostingRule : PostingRule where
  purpose := .authRelease
  build ctx :=
    PostingRule.built .authRelease ctx
      [debit .authorizationHold ctx.grossMinor, credit .merchantReceivable ctx.grossMinor]

/-- The acquirer's receivable, Payzeno's take, the merchant's reserve, and the release
of the hold in the same transaction. -/
def capturePostingRule (currencies : List String) : PostingRule where
  purpose := .capture
  build ctx := do
    checkCurrency currencies ctx.currency
    let markup ← computePlatformFee ctx.grossMinor ctx.platformFeeBps ctx.platformFeeFixedMinor
    let reserve ← applyBps ctx.grossMinor ctx.reserveBps
    let netMinor := ctx.grossMinor - markup - reserve
    if netMinor < 0 then
      throw (ruleError .validationError "platform fee plus reserve exceeds the captured amount"
        [("gross_minor", .int ctx.grossMinor), ("markup_minor", .int markup),
         ("reserve_minor", .int reserve), merchantDetail ctx])
    PostingRule.built .capture ctx
      [debit .processorClearing ctx.grossMinor, credit .merchantPayable netMinor,
       credit .platformFeeRevenue markup, credit .reserve reserve,
       debit .authorizationHold ctx.grossMinor, credit .merchantReceivable ctx.grossMinor]

/-- The bank paid the batch. -/
def settlementFundingPostingRule : PostingRule where
  purpose := .settlementFunding
  build ctx :=
    PostingRule.built .settlementFunding ctx
      [debit .cash ctx.grossMinor, credit .processorClearing ctx.grossMinor]

end PayzenoLedger
