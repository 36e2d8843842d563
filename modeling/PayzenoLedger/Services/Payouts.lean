import PayzenoLedger.Domain.Quotes
import PayzenoLedger.Services.Rails
import PayzenoLedger.Services.SettlementParser
import PayzenoLedger.Services.Settlements

/-!
# Payouts

A payout debits the balance of a merchant when it is created, under the advisory lock of
that balance, and gives the amount back when it is cancelled, fails or is returned.  A
payout to a bank account in another currency is two postings, one for each currency.
-/

set_option autoImplicit false

namespace PayzenoLedger

open Library

/-! ## Rates of exchange -/

/-- `PROVIDER_BASE`. -/
def providerBase : String := "USD"

/-- `CACHE_TTL`, in microseconds. -/
def cacheTtl : Nat := 60000000

/-- The rate table that the process keeps, with the time it was asked for. -/
abbrev RateCache : Type := Option (Instant × FxRates)

/-- The table that is still good; one from after `now` is not, the clock was set back. -/
def RateCache.fresh (cached : RateCache) (now : Instant) : Option FxRates :=
  match cached with
  | none => none
  | some (fetchedAt, rates) =>
      if fetchedAt ≤ now ∧ now < fetchedAt + cacheTtl then some rates else none

/-- The number as a decimal; a quoted rate has finitely many places. -/
def decimalOf (rate : Rat) : Decimal :=
  let places := rate.den.log2
  ⟨(rate * 10 ^ places).floor, -places⟩

/-- What a payout converts at. -/
structure PayoutRate where
  fromCurrency : String
  toCurrency : String
  midRate : Decimal
  markupBps : Int

namespace FxRateService

/-- `_rates`: the table of the process while it is fresh, else the provider's. -/
def rates (cached : RateCache) : Async FxRates := do
  let now ← Async.now
  match cached.fresh now with
  | some rates => pure rates
  | none => do
      let reply ← Async.call (.fxRates providerBase)
      Async.check reply

def payoutRate (currencies : List String) (markupBps : Int) (cached : RateCache)
    (fromCurrency toCurrency : String) : Async PayoutRate := do
  let rates ← rates cached
  let quoted := rates.map fun entry => (entry.1, decimalOf entry.2)
  let midRate ← Async.check (crossRate currencies quoted fromCurrency toCurrency)
  pure { fromCurrency, toCurrency, midRate, markupBps }

def convert (exponents : String → Option Nat) (source : Money) (rate : PayoutRate) :
    Except Exception FxConversion :=
  quotePayoutConversion exponents source rate.toCurrency rate.midRate rate.markupBps

end FxRateService

def PayoutStatus.toString : PayoutStatus → String
  | .scheduled => "scheduled"
  | .inTransit => "in_transit"
  | .paid => "paid"
  | .failed => "failed"
  | .returned => "returned"
  | .canceled => "canceled"

/-- `BLOCKED_MERCHANT_STATUSES`. -/
def blockedMerchantStatuses : List String :=
  ["restricted", "suspended", "closed"]

/-- `DEFAULT_METHOD_BY_SCHEME`, with the method of the other schemes. -/
def defaultMethod : String → String
  | "iban" => "sepa"
  | "uk_sort_code" => "faster_payments"
  | _ => "standard_ach"

/-- The initiators of the container, by their method. -/
def railOf (method : String) : Option Rail :=
  [.standardAch, .sameDayAch, .sepa, .fasterPayments].find? fun rail => rail.method == method

/-- The fields that `create_payout` reads of a request. -/
structure CreatePayoutRequest where
  currency : Option String := none
  method : Option String := none
  livemode : Option Bool := none
  bankAccountId : Option String := none
  amountMinor : Option Int := none
  statementDescriptor : Option String := none
deriving DecidableEq, Repr

/-- What the service is built of: its settings, the currencies of the contracts, the
methods of text, the rails and the markup of the conversions, if there are any. -/
structure PayoutService where
  settings : Settings
  currencies : List String
  exponents : String → Option Nat
  methods : TextMethods
  cutoffs : PayoutCutoffs := {}
  calendar : BankingCalendar := {}
  sameDayAch : Bool := false
  payoutMarkupBps : Option Int := none

namespace BankAccountProjectionRepository

def getOrRaise (id : String) : Async BankAccountProjection :=
  Async.getOrRaise .bankAccountProjection (.bank id)
    (notFound .bankAccountProjectionNotFoundError "BankAccountProjection" (.text id))

/-- The default account of one currency. -/
def findDefault (merchantId currency : String) (livemode : Bool) :
    Async (Option BankAccountProjection) :=
  Async.get .bankAccountProjection (.bankDefault merchantId currency livemode)

/-- The default account in each currency, by currency. -/
def listDefaults (merchantId : String) (livemode : Bool) : Async (List BankAccountProjection) :=
  Async.select fun db =>
    (db.banks.filter fun bank =>
      bank.merchantId = merchantId ∧ bank.livemode = livemode ∧ bank.isDefault).insertionSort
        fun first second => first.currency ≤ second.currency

end BankAccountProjectionRepository

namespace PayoutRepository

def getOrRaise (id : String) : Async Payout :=
  Async.getOrRaise .payout (.payout id) (notFound .notFoundError "Payout" (.text id))

/-- The one payout of this balance that is in flight. -/
def findInFlight (merchantId currency : String) (livemode : Bool) : Async (Option Payout) :=
  Async.get .payout (.payoutInFlight merchantId currency livemode)

/-- The scheduled payouts whose day has come. -/
def listDue (on : Date) (limit : Nat) : Async (List Payout) :=
  Async.select fun db =>
    ((db.payouts.filter fun payout =>
        payout.status = .scheduled ∧ payout.availableOn ≤ on).insertionSort
      fun first second => first.availableOn < second.availableOn ∨
        first.availableOn = second.availableOn ∧ first.createdAt ≤ second.createdAt).take limit

/-- When the newest payout out of this balance was created. -/
def lastCreatedAt (merchantId currency : String) (livemode : Bool) : Async (Option Instant) :=
  Async.select fun db =>
    ((db.payouts.filter fun payout =>
        payout.merchantId = merchantId ∧ payout.balanceCurrency = currency ∧
          payout.livemode = livemode).map (·.createdAt)).max?

end PayoutRepository

/-! ## Postings -/

/-- `_fx_source_lines`: the balance side of a converted payout, in its currency. -/
def fxSourceLines (merchantId currency : String) (sourceMinor : Int) :
    Except Exception (List PostingLine) :=
  fxPayoutSourcePostingRule.build
    { merchantId := some merchantId, currency, grossMinor := sourceMinor, feeMinor := 0,
      netMinor := sourceMinor }

namespace PayoutService

variable (service : PayoutService)

/-- The keyword arguments that the postings of a payout share. -/
def postRequest (payout : Payout) (purpose : Purpose) (currency key fingerprint : String)
    (lines : List PostingLine) : PostRequest where
  idempotencyKey := key
  purpose := purpose
  merchantId := some payout.merchantId
  currency := currency
  livemode := payout.livemode
  referenceType := .payout
  referenceId := payout.id
  lines := lines
  createdBy := .system
  requestFingerprint := fingerprint

/-- One posting about a payout, under the key that its purpose has for the payout. -/
def postFor (payout : Payout) (purpose : Purpose) (currency keyPurpose : String)
    (fingerprint : Except Exception String) (lines : List PostingLine) : Async String := do
  let key ← Async.check (ledgerKey keyPurpose payout.merchantId payout.id)
  let fingerprint ← Async.check fingerprint
  let posted ← LedgerPoster.post (postRequest payout purpose currency key
    (service.settings.sha256 (.text fingerprint)) lines)
  pure posted.transaction.id

/-- Same currency: the balance to cash. -/
def postPayout (payout : Payout) : Async String :=
  service.postFor payout .payout payout.currency "payout"
    (ledgerKey "payoutfp" payout.merchantId payout.id)
    [debit .merchantPayable payout.amountMinor, credit .cash payout.amountMinor]

/-- Two transactions, one for each currency; the one that moved the balance is returned. -/
def postConvertedPayout (payout : Payout) (conversion : FxConversion) : Async String := do
  let sourceLines ← Async.check
    (fxSourceLines payout.merchantId payout.balanceCurrency conversion.source.amountMinor)
  let targetLines ← Async.check
    (fxTargetLines payout.merchantId payout.currency conversion.midTargetMinor
      conversion.target.amountMinor conversion.spreadMinor)
  let source ← service.postFor payout .payout conversion.source.currency "payout"
    (ledgerKey "payoutfp" payout.merchantId payout.id) sourceLines
  let _ ← service.postFor payout .payout conversion.target.currency "payoutfx"
    (ledgerKey "payoutfxfp" payout.id (formatRate conversion.rate)) targetLines
  pure source

/-- Mirror both legs of a converted payout, at the rate that it converted at. -/
def reverseConvertedPayout (payout : Payout) (reason : String) : Async String := do
  let spreadMinor := payout.fxSpreadMinor.getD 0
  let targetLines ← Async.check
    (fxTargetLines payout.merchantId payout.currency (payout.amountMinor + spreadMinor)
      payout.amountMinor spreadMinor)
  let _ ← service.postFor payout .payoutReversal payout.currency "payoutfxrev"
    (ledgerKey "payoutfxrevfp" payout.id reason) (mirrored targetLines)
  let sourceLines ← Async.check
    (fxSourceLines payout.merchantId payout.balanceCurrency payout.balanceAmountMinor)
  service.postFor payout .payoutReversal payout.balanceCurrency "payoutrev"
    (ledgerKey "payoutrevfp" payout.id reason) (mirrored sourceLines)

def reversePayoutPosting (payout : Payout) (reason : String) : Async String :=
  if payout.isConverted then service.reverseConvertedPayout payout reason
  else
    service.postFor payout .payoutReversal payout.currency "payoutrev"
      (ledgerKey "payoutrevfp" payout.id reason)
      [debit .cash payout.amountMinor, credit .merchantPayable payout.amountMinor]

/-! ## Creation -/

/-- The currency of a request, once the request passes the checks that read no row. -/
def requestedCurrency (merchantId : String) (request : CreatePayoutRequest) :
    Except Exception String :=
  let currency := service.methods.upper (request.currency.getD "")
  if currency = "" then
    .error (ledgerError .validationError "currency is required"
      [("merchant_id", .text merchantId)])
  else if currency ∉ service.currencies then
    .error (ledgerError .validationError
      ("unsupported currency " ++ service.methods.repr currency)
      [("merchant_id", .text merchantId), ("currency", .text currency)])
  else if request.method = some "same_day_ach" ∧ service.sameDayAch = false then
    .error (ledgerError .payoutBlockedError "same-day ACH is not enabled"
      [("merchant_id", .text merchantId), ("method", .text "same_day_ach")])
  else .ok currency

/-- The least by (currency other than the merchant's, currency), the first of several. -/
def preferredBank (preferred : Option String) :
    List BankAccountProjection → Option BankAccountProjection
  | [] => none
  | bank :: banks =>
      some (banks.foldl (fun best other =>
        let rank := fun (account : BankAccountProjection) =>
          decide (some account.currency ≠ preferred)
        if rank other < rank best ∨ rank other = rank best ∧ other.currency < best.currency then
          other
        else best) bank)

/-- The account named, else the default for this currency, else the merchant's default. -/
def resolveBank (merchant : MerchantProjection) (currency : String) (livemode : Bool)
    (bankAccountId : Option String) : Async BankAccountProjection := do
  if PayoutInitiator.isBlank bankAccountId then
    match ← BankAccountProjectionRepository.findDefault merchant.merchantId currency livemode with
    | some sameCurrency => pure sameCurrency
    | none =>
        let defaults ←
          BankAccountProjectionRepository.listDefaults merchant.merchantId livemode
        match preferredBank merchant.defaultCurrency defaults with
        | some bank => pure bank
        | none =>
            throw (ledgerError .bankAccountProjectionNotFoundError
              ("no default bank account for " ++ merchant.merchantId)
              [("merchant_id", .text merchant.merchantId), ("currency", .text currency)])
  else
    let bank ← BankAccountProjectionRepository.getOrRaise (bankAccountId.getD "")
    if bank.merchantId ≠ merchant.merchantId then
      throw (ledgerError .validationError "bank account does not belong to this merchant"
        [("merchant_id", .text merchant.merchantId),
         ("bank_account_id", .text bank.bankAccountId)])
    else pure bank

/-- The rate of a conversion, if the payout needs one. -/
def rateFor (cached : RateCache) (merchantId fromCurrency toCurrency : String) :
    Async (Option PayoutRate) := do
  if fromCurrency = toCurrency then pure none
  else
    match service.payoutMarkupBps with
    | none =>
        throw (ledgerError .validationError
          "this payout needs a currency conversion and no FX provider is configured"
          [("merchant_id", .text merchantId), ("currency", .text fromCurrency),
           ("bank_currency", .text toCurrency)])
    | some markupBps =>
        let rate ← FxRateService.payoutRate service.currencies markupBps cached fromCurrency
          toCurrency
        pure (some rate)

/-- What is decided before the lock is taken. -/
structure Plan where
  currency : String
  livemode : Bool
  bank : BankAccountProjection
  rail : Rail
  rate : Option PayoutRate

/-- The reads that do not touch money. -/
def plan (cached : RateCache) (merchantId : String) (request : CreatePayoutRequest) :
    Async Plan := do
  let currency ← Async.check (service.requestedCurrency merchantId request)
  let merchant ← MerchantProjectionRepository.getOrRaise (some merchantId)
  let livemode := request.livemode.getD merchant.livemode
  if merchant.status ∈ blockedMerchantStatuses then
    throw (ledgerError .payoutBlockedError ("merchant is " ++ merchant.status)
      [("merchant_id", .text merchantId), ("status", .text merchant.status)])
  else
    let bank ← resolveBank merchant currency livemode request.bankAccountId
    let method :=
      if PayoutInitiator.isBlank request.method then defaultMethod bank.scheme
      else request.method.getD ""
    match railOf method with
    | none =>
        throw (ledgerError .validationError
          ("unsupported payout method " ++ service.methods.repr method)
          [("method", .text method)])
    | some rail =>
        let rate ← service.rateFor cached merchantId currency bank.currency
        pure { currency, livemode, bank, rail, rate }

/-- The amount to pay out of what is available. -/
def requestedAmount (merchantId currency : String) (request : CreatePayoutRequest)
    (available : Int) : Except Exception Int :=
  let requested := match request.amountMinor with
    | none => available
    | some amountMinor => if amountMinor = 0 then available else amountMinor
  if available ≤ 0 ∨ available < requested then
    .error (ledgerError .insufficientBalanceError "no payable balance"
      [("merchant_id", .text merchantId), ("currency", .text currency),
       ("available_minor", .int available), ("requested_minor", .int requested)])
  else if requested ≤ 0 then
    .error (ledgerError .validationError "amount_minor must be positive"
      [("merchant_id", .text merchantId), ("amount_minor", .int requested)])
  else .ok requested

/-- What the merchant can be paid: the payable balance as of the cutoff. -/
def computeAvailable (merchantId currency : String) (cutoff : Instant) (livemode : Bool) :
    Async Int :=
  Async.select fun db =>
    LedgerEntryRepository.sumBuckets merchantId currency livemode (some cutoff) db
      .merchantPayable

/-- The amount and the time it was read at, under the lock of the balance. -/
def reserveAmount (merchantId : String) (plan : Plan) (request : CreatePayoutRequest) :
    Async (Int × Instant) := do
  AdvisoryLockManager.acquireMerchantCurrencyLock service.settings merchantId plan.currency
  match ← PayoutRepository.findInFlight merchantId plan.currency plan.livemode with
  | some inFlight =>
      throw (ledgerError .payoutBlockedError
        ("payout " ++ inFlight.id ++ " for this balance is still " ++ inFlight.status.toString)
        [("merchant_id", .text merchantId), ("currency", .text plan.currency),
         ("in_flight_payout_id", .text inFlight.id)])
  | none =>
      let cutoff ← Async.now
      let available ← computeAvailable merchantId plan.currency cutoff plan.livemode
      let requested ← Async.check
        (requestedAmount merchantId plan.currency request available)
      pure (requested, cutoff)

/-- `FxRateService.convert`, when there is a rate. -/
def conversionOf (plan : Plan) (requested : Int) : Except Exception (Option FxConversion) :=
  match plan.rate with
  | none => .ok none
  | some rate =>
      match FxRateService.convert service.exponents ⟨requested, plan.currency⟩ rate with
      | .error raised => .error raised
      | .ok conversion => .ok (some conversion)

/-- `str(descriptor or "PAYZENO PAYOUT")[:22]`. -/
def descriptorOf (request : CreatePayoutRequest) : String :=
  let descriptor :=
    if PayoutInitiator.isBlank request.statementDescriptor then "PAYZENO PAYOUT"
    else request.statementDescriptor.getD ""
  String.ofList (descriptor.toList.take 22)

/-- The row of a new payout; the four columns of a conversion are set together. -/
def newPayout (merchantId : String) (plan : Plan) (request : CreatePayoutRequest)
    (landed : Money) (fx : Option PayoutFx) (availableOn : Date) (id : String)
    (cutoff : Instant) : Payout where
  id := id
  merchantId := merchantId
  bankAccountId := plan.bank.bankAccountId
  amountMinor := landed.amountMinor
  currency := landed.currency
  status := .scheduled
  method := plan.rail.method
  availableOn := availableOn
  arrivalEstimate := none
  statementDescriptor := descriptorOf request
  failureCode := none
  failureMessage := none
  ledgerTransactionId := none
  reversalTransactionId := none
  bankReference := none
  sourceAmountMinor := fx.map (·.sourceAmountMinor)
  sourceCurrency := fx.map (·.sourceCurrency)
  fxRate := fx.map (·.fxRate.value)
  fxSpreadMinor := fx.map (·.fxSpreadMinor)
  initiatedAt := none
  paidAt := none
  failedAt := none
  returnedAt := none
  livemode := plan.livemode
  createdAt := cutoff

/-- The columns of a conversion; a rate that the column cannot hold is an error of the
driver. -/
def columnsOf : Option FxConversion → Except Exception (Option PayoutFx)
  | none => .ok none
  | some conversion =>
      match conversion.columns with
      | none => .error (.builtin .arithmeticError)
      | some fx => .ok (some fx)

/-- What the rail answered, on the row. -/
def initiated (ledgerTransactionId : String) (result : InitiationResult) (payout : Payout) :
    Payout :=
  { payout with
    ledgerTransactionId := some ledgerTransactionId
    arrivalEstimate := some result.arrivalEstimate
    bankReference := some result.railReference
    initiatedAt := some result.submittedAt }

def publishScheduled (payout : Payout) (plan : Plan) : Async Unit := do
  let scheduledAt ← Async.now
  OutboxPublisher.publish "payout.scheduled"
    [("payout_id", .text payout.id), ("merchant_id", .text payout.merchantId),
     ("bank_account_id", .text plan.bank.bankAccountId),
     ("amount_minor", .int payout.amountMinor), ("currency", .text payout.currency),
     ("method", .text plan.rail.method),
     ("available_on", .text payout.availableOn.isoformat), ("scheduled_at", .instant scheduledAt)]
    (some payout.merchantId) payout.id plan.livemode

/-- The instruction to the rail, and the event. -/
def instruct (payout : Payout) (plan : Plan) (ledgerTransactionId : String) : Async Payout := do
  let submittedAt ← Async.now
  let result ← Async.check
    (PayoutInitiator.initiate service.cutoffs service.calendar plan.rail payout plan.bank
      submittedAt)
  Async.update .payout (.payout payout.id) (initiated ledgerTransactionId result) (fun _ => rfl)
  publishScheduled payout plan
  pure (initiated ledgerTransactionId result payout)

/-- The posting of a payout that was just created. -/
def postCreated (payout : Payout) : Option FxConversion → Async String
  | none => service.postPayout payout
  | some conversion => service.postConvertedPayout payout conversion

/-- The row, its postings, the instruction and the event. -/
def book (merchantId : String) (plan : Plan) (request : CreatePayoutRequest) (requested : Int)
    (cutoff : Instant) : Async Payout := do
  let conversion ← Async.check (service.conversionOf plan requested)
  let landed : Money := match conversion with
    | none => ⟨requested, plan.currency⟩
    | some conversion => conversion.target
  let availableOn ← Async.check
    (service.calendar.nextBusinessDay landed.currency plan.rail.method cutoff.date)
  let id ← Async.newId "po"
  let fx ← Async.check (columnsOf conversion)
  let payout := newPayout merchantId plan request landed fx availableOn id cutoff
  Async.add .payout payout
  let ledgerTransactionId ← service.postCreated payout conversion
  service.instruct payout plan ledgerTransactionId

def createPayout (cached : RateCache) (merchantId : String) (request : CreatePayoutRequest) :
    Async Payout := do
  let plan ← service.plan cached merchantId request
  let (requested, cutoff) ← service.reserveAmount merchantId plan request
  service.book merchantId plan request requested cutoff

/-! ## What becomes of a payout -/

/-- Only a scheduled payout is cancelled. -/
def cancelPayout (payoutId : String) : Async Payout := do
  let payout ← PayoutRepository.getOrRaise payoutId
  if payout.status ≠ .scheduled then
    throw (ledgerError .payoutBlockedError
      ("payout " ++ payoutId ++ " is " ++ payout.status.toString ++ " and cannot be cancelled")
      [("payout_id", .text payoutId), ("status", .text payout.status.toString)])
  else
    Async.update .payout (.payout payoutId) (fun row => { row with status := .canceled })
      (fun _ => rfl)
    let reversal ← service.reversePayoutPosting payout "canceled"
    Async.update .payout (.payout payoutId)
      (fun row => { row with reversalTransactionId := some reversal }) (fun _ => rfl)
    pure { payout with status := .canceled, reversalTransactionId := some reversal }

def markPaid (payoutId : String) (paidAt : Instant) (bankReference : String) :
    Async Payout := do
  AdvisoryLockManager.acquireItemLock service.settings payoutId
  let payout ← PayoutRepository.getOrRaise payoutId
  if payout.status = .paid then pure payout
  else
    let paid (row : Payout) : Payout :=
      { row with status := .paid, paidAt := some paidAt, bankReference := some bankReference }
    Async.update .payout (.payout payoutId) paid (fun _ => rfl)
    OutboxPublisher.publish "payout.paid"
      [("payout_id", .text payout.id), ("merchant_id", .text payout.merchantId),
       ("amount_minor", .int payout.amountMinor), ("currency", .text payout.currency),
       ("ledger_transaction_id", Json.optional payout.ledgerTransactionId),
       ("paid_at", .instant paidAt)]
      (some payout.merchantId) payout.id true
    pure (paid payout)

/-- The fields that the events of a failure and of a return share. -/
def failurePayload (payout : Payout) (failureCode failureMessage reversal : String) :
    List (String × Json) :=
  [("payout_id", .text payout.id), ("merchant_id", .text payout.merchantId),
   ("bank_account_id", .text payout.bankAccountId), ("amount_minor", .int payout.amountMinor),
   ("currency", .text payout.currency), ("failure_code", .text failureCode),
   ("failure_message", .text failureMessage), ("reversal_transaction_id", .text reversal)]

/-- The money left and the receiving bank sent it back. -/
def markReturned (payout : Payout) (failureCode failureMessage : String) : Async Payout := do
  let reversal ← service.reversePayoutPosting payout failureCode
  let at_ ← Async.now
  let returned (row : Payout) : Payout :=
    { row with
      status := .returned, failureCode := some failureCode
      failureMessage := some failureMessage, reversalTransactionId := some reversal
      returnedAt := some at_ }
  Async.update .payout (.payout payout.id) returned (fun _ => rfl)
  OutboxPublisher.publish "payout.returned"
    (failurePayload payout failureCode failureMessage reversal ++
      [("bank_reference", Json.optional payout.bankReference), ("returned_at", .instant at_)])
    (some payout.merchantId) payout.id payout.livemode
  pure (returned payout)

/-- A rail refused the payout, or a bank sent back what had left. -/
def markFailed (payoutId failureCode failureMessage : String) : Async Payout := do
  AdvisoryLockManager.acquireItemLock service.settings payoutId
  let payout ← PayoutRepository.getOrRaise payoutId
  if payout.status = .failed ∨ payout.status = .returned then pure payout
  else if payout.status = .paid ∨ payout.status = .inTransit then
    service.markReturned payout failureCode failureMessage
  else
    let reversal ← service.reversePayoutPosting payout failureCode
    let at_ ← Async.now
    let failed (row : Payout) : Payout :=
      { row with
        status := .failed, failureCode := some failureCode
        failureMessage := some failureMessage, failedAt := some at_
        reversalTransactionId := some reversal }
    Async.update .payout (.payout payoutId) failed (fun _ => rfl)
    OutboxPublisher.publish "payout.failed"
      (failurePayload payout failureCode failureMessage reversal ++
        [("requires_merchant_action",
            .bool (failureCode = "account_closed" ∨ failureCode = "invalid_details")),
         ("retry_scheduled_for", .null), ("failed_at", .instant at_)])
      (some payout.merchantId) payout.id true
    pure (failed payout)

end PayoutService

end PayzenoLedger
