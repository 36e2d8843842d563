import PayzenoLedger.Domain.Postings
import PayzenoLedger.Library.Strings
import PayzenoLedger.Models

/-!
# Posting rules

The rules behind the lines of an acquirer settlement file and behind payouts.
Every rule drops its zero legs and validates what is left, so the lines that it
returns are balanced.
-/

set_option autoImplicit false

namespace PayzenoLedger

/-- What a rule reads of the charge, line or payout it posts. -/
structure PostingContext where
  merchantId : Option String
  currency : String
  grossMinor : Int
  feeMinor : Int
  netMinor : Int
  interchangeMinor : Int := 0
  schemeFeeMinor : Int := 0
  reserveBps : Int := 0
  platformFeeBps : Int := 0
  platformFeeFixedMinor : Int := 0

/-- A rule posts under a purpose and builds the legs of one transaction. -/
structure PostingRule where
  purpose : Purpose
  build : PostingContext → Except Exception (List PostingLine)

/-- The error of the rules, with its details under one key. -/
def ruleError (cls : ErrorClass) (message : String) (details : List (String × Json)) :
    Exception :=
  ledgerError cls message [("details", .object details)]

namespace PostingRule

/-- The first leg, counted from `sequence`, whose amount is not positive. -/
def validatePositive (purpose : Purpose) :
    Nat → List PostingLine → Except Exception Unit
  | _, [] => .ok ()
  | sequence, line :: lines =>
      if line.amountMinor ≤ 0 then
        .error (ruleError .negativeAmountError
          "entry amounts must be strictly positive; direction carries the sign"
          [("purpose", .text purpose.toString), ("sequence", .int sequence),
           ("amount_minor", .int line.amountMinor),
           ("account_type", .text line.accountType.toString)])
      else validatePositive purpose (sequence + 1) lines

/-- `PostingRule.validate`. -/
def validate (purpose : Purpose) (lines : List PostingLine) : Except Exception Unit :=
  if lines.length < 2 then
    .error (ruleError .unbalancedTransactionError
      "a transaction needs at least two entries"
      [("purpose", .text purpose.toString), ("line_count", .int lines.length)])
  else
    match validatePositive purpose 0 lines with
    | .error raised => .error raised
    | .ok () =>
        let delta := (lines.map PostingLine.signedMinor).sum
        if delta ≠ 0 then
          .error (ruleError .unbalancedTransactionError "debits do not equal credits"
            [("purpose", .text purpose.toString), ("debit_minus_credit_minor", .int delta),
             ("line_count", .int lines.length)])
        else .ok ()

/-- Drop zero-amount legs, then validate. -/
def built (purpose : Purpose) (ctx : PostingContext) (lines : List PostingLine) :
    Except Exception (List PostingLine) :=
  let kept := lines.filter fun line => line.amountMinor ≠ 0
  match validate purpose kept with
  | .error raised => .error raised
  | .ok () =>
      if ctx.currency ≠ "" ∧ ctx.currency.toList.all Library.isSpace then
        .error (ruleError .validationError "posting context has no currency" [])
      else .ok kept

end PostingRule

def merchantDetail (ctx : PostingContext) : String × Json :=
  ("merchant_id", match ctx.merchantId with
    | none => .null
    | some merchantId => .text merchantId)

/-! ## Settlement lines -/

/-- Derive the acquirer's own markup from a settlement line. -/
def acquirerMarkupMinor (feeMinor interchangeMinor schemeFeeMinor : Int) : Int :=
  let markup := feeMinor - interchangeMinor - schemeFeeMinor
  if markup < 0 then 0 else markup

/-- One acquirer sale line: the fee it netted, split over three expenses. -/
def settlementPostingRule : PostingRule where
  purpose := .settle
  build ctx :=
    if ctx.feeMinor ≤ 0 then
      .error (ruleError .validationError "settle posting requires a non-zero acquirer fee"
        [("fee_minor", .int ctx.feeMinor), ("gross_minor", .int ctx.grossMinor),
         merchantDetail ctx])
    else
      let interchangeMinor := min (max ctx.interchangeMinor 0) ctx.feeMinor
      let schemeMinor := min (max ctx.schemeFeeMinor 0) (ctx.feeMinor - interchangeMinor)
      let markupMinor := acquirerMarkupMinor ctx.feeMinor interchangeMinor schemeMinor
      PostingRule.built .settle ctx
        [debit .interchangeExpense interchangeMinor,
         debit .schemeFeeExpense schemeMinor,
         debit .acquirerFeeExpense markupMinor,
         credit .processorClearing ctx.feeMinor]

/-- The acquirer's handling fee, expensed when the file carries one. -/
def acquirerFeeLegs (ctx : PostingContext) : List PostingLine :=
  if 0 < ctx.feeMinor then
    [debit .acquirerFeeExpense ctx.feeMinor, credit .processorClearing ctx.feeMinor]
  else []

def settlementRefundPostingRule : PostingRule where
  purpose := .refund
  build ctx :=
    PostingRule.built .refund ctx
      ([debit .merchantPayable ctx.grossMinor, credit .processorClearing ctx.grossMinor] ++
        acquirerFeeLegs ctx)

/-- A rule that moves the absolute amount of its line from one account to
another, and refuses a line without amount. -/
def absoluteRule (purpose : Purpose) (message : String) (debited credited : AccountType)
    (extra : PostingContext → List PostingLine) : PostingRule where
  purpose := purpose
  build ctx :=
    let amountMinor : Int := ctx.grossMinor.natAbs
    if amountMinor = 0 then
      .error (ruleError .validationError message
        [("gross_minor", .int ctx.grossMinor), merchantDetail ctx])
    else
      PostingRule.built purpose ctx
        ([debit debited amountMinor, credit credited amountMinor] ++ extra ctx)

/-- A dispute was opened: the amount and the fee leave the merchant's payable. -/
def disputePostingRule : PostingRule where
  purpose := .dispute
  build ctx :=
    if ctx.grossMinor ≤ 0 then
      .error (ruleError .validationError "a dispute posting needs a positive disputed amount"
        [("gross_minor", .int ctx.grossMinor), merchantDetail ctx])
    else
      PostingRule.built .dispute ctx
        ([debit .merchantPayable ctx.grossMinor, credit .chargebackLiability ctx.grossMinor] ++
          if 0 < ctx.feeMinor then
            [debit .merchantPayable ctx.feeMinor, credit .platformFeeRevenue ctx.feeMinor]
          else [])

def chargebackPostingRule : PostingRule :=
  absoluteRule .dispute "chargeback line has no amount" .chargebackLiability
    .processorClearing acquirerFeeLegs

def chargebackReversalPostingRule : PostingRule :=
  absoluteRule .dispute "chargeback reversal line has no amount" .processorClearing
    .chargebackLiability acquirerFeeLegs

def reserveHoldPostingRule : PostingRule :=
  absoluteRule .reserveRelease "reserve hold line has no amount" .merchantPayable .reserve
    fun _ => []

def reserveReleasePostingRule : PostingRule :=
  absoluteRule .reserveRelease "reserve release has no amount" .reserve .merchantPayable
    fun _ => []

/-- A scheme-assessment line; the explicit component wins over the gross. -/
def schemeFeePostingRule : PostingRule where
  purpose := .fee
  build ctx :=
    let amountMinor := if ctx.schemeFeeMinor ≠ 0 then ctx.schemeFeeMinor else ctx.grossMinor
    if amountMinor ≤ 0 then
      .error (ruleError .validationError "scheme fee line has no amount"
        [("gross_minor", .int ctx.grossMinor), ("scheme_fee_minor", .int ctx.schemeFeeMinor)])
    else
      PostingRule.built .fee ctx
        [debit .schemeFeeExpense amountMinor, credit .processorClearing amountMinor]

/-- A correction of what the acquirer owes; a negative one is the merchant's. -/
def adjustmentLinePostingRule : PostingRule where
  purpose := .adjustment
  build ctx :=
    let amountMinor : Int := ctx.grossMinor.natAbs
    if amountMinor = 0 then
      .error (ruleError .validationError "adjustment line has no amount"
        [("gross_minor", .int ctx.grossMinor), merchantDetail ctx])
    else
      PostingRule.built .adjustment ctx
        (if 0 < ctx.grossMinor then
          [debit .processorClearing amountMinor, credit .merchantPayable amountMinor]
        else [debit .merchantPayable amountMinor, credit .processorClearing amountMinor])

/-- `POSTING_RULE_BY_LINE_TYPE`. -/
def postingRuleByLineType : LineType → PostingRule
  | .sale => settlementPostingRule
  | .refund => settlementRefundPostingRule
  | .chargeback => chargebackPostingRule
  | .chargebackReversal => chargebackReversalPostingRule
  | .schemeFee => schemeFeePostingRule
  | .adjustment => adjustmentLinePostingRule
  | .reserveHold => reserveHoldPostingRule
  | .reserveRelease => reserveReleasePostingRule

/-! ## Payouts -/

/-- A rule that moves the positive gross amount from one account to another. -/
def positiveRule (purpose : Purpose) (message : String) (debited credited : AccountType) :
    PostingRule where
  purpose := purpose
  build ctx :=
    if ctx.grossMinor ≤ 0 then
      .error (ruleError .validationError message
        [("gross_minor", .int ctx.grossMinor), merchantDetail ctx])
    else
      PostingRule.built purpose ctx
        [debit debited ctx.grossMinor, credit credited ctx.grossMinor]

def payoutPostingRule : PostingRule :=
  positiveRule .payout "a payout posting needs a positive amount" .merchantPayable .cash

def payoutReversalPostingRule : PostingRule :=
  positiveRule .payoutReversal "a payout reversal needs a positive amount" .cash
    .merchantPayable

/-- A converted payout, the balance side, in the source currency. -/
def fxPayoutSourcePostingRule : PostingRule :=
  positiveRule .payout "a converted payout needs a positive source amount" .merchantPayable
    .fxClearing

/-- A converted payout, the bank side, in the target currency. -/
def fxPayoutTargetPostingRule : PostingRule where
  purpose := .payout
  build ctx :=
    if ctx.netMinor ≤ 0 ∨ ctx.feeMinor < 0 then
      .error (ruleError .validationError
        "a converted payout needs a positive payout amount and a non-negative spread"
        [("net_minor", .int ctx.netMinor), ("fee_minor", .int ctx.feeMinor),
         merchantDetail ctx])
    else if ctx.grossMinor ≠ ctx.netMinor + ctx.feeMinor then
      .error (ruleError .validationError "mid amount must equal payout plus spread"
        [("gross_minor", .int ctx.grossMinor), ("net_minor", .int ctx.netMinor),
         ("fee_minor", .int ctx.feeMinor)])
    else
      PostingRule.built .payout ctx
        [debit .fxClearing ctx.grossMinor, credit .cash ctx.netMinor,
         credit .fxRevenue ctx.feeMinor]

/-! ## What a rule builds is balanced -/

theorem validatePositive_ok {purpose : Purpose} {sequence : Nat} {lines : List PostingLine}
    (h : PostingRule.validatePositive purpose sequence lines = .ok ()) :
    ∀ line ∈ lines, 0 < line.amountMinor := by
  induction lines generalizing sequence with
  | nil => simp
  | cons line lines ih =>
      unfold PostingRule.validatePositive at h
      split at h
      · cases h
      · next hpositive => exact List.forall_mem_cons.mpr ⟨by omega, ih h⟩

/-- Debits less credits is the sum of the signed amounts. -/
theorem sideTotal_sub (lines : List PostingLine) :
    sideTotal .debit lines - sideTotal .credit lines =
      (lines.map PostingLine.signedMinor).sum := by
  induction lines with
  | nil => rfl
  | cons line lines ih =>
      rw [List.map_cons, List.sum_cons, ← ih]
      cases hdirection : line.direction <;>
        simp [sideTotal, PostingLine.signedMinor, hdirection] <;> omega

theorem validate_ok {purpose : Purpose} {lines : List PostingLine}
    (h : PostingRule.validate purpose lines = .ok ()) : Balanced lines := by
  unfold PostingRule.validate at h
  split at h
  · cases h
  next hlength =>
  split at h
  · cases h
  next hpositive =>
  dsimp only at h
  split at h
  · cases h
  next hdelta =>
  have hbalance := sideTotal_sub lines
  exact ⟨by omega, by omega, validatePositive_ok hpositive⟩

/-- A rule returns the non-zero legs it was written with, and they balance. -/
theorem built_ok {purpose : Purpose} {ctx : PostingContext} {lines kept : List PostingLine}
    (h : PostingRule.built purpose ctx lines = .ok kept) :
    kept = lines.filter (fun line => line.amountMinor ≠ 0) ∧ Balanced kept := by
  unfold PostingRule.built at h
  dsimp only at h
  split at h
  · cases h
  next hvalid =>
  split at h
  · cases h
  · cases h
    exact ⟨rfl, validate_ok hvalid⟩

end PayzenoLedger
