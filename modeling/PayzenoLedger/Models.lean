import PayzenoLedger.Domain.Postings
import Mathlib.Data.Rat.Defs

/-!
# The tables of `payzeno_ledger`

One structure per table, with the columns that the modelled services read or
write.  Instants are microseconds and dates are days since the epoch; a
currency is the trimmed column value.
-/

set_option autoImplicit false

namespace PayzenoLedger

abbrev Instant : Type := Nat

abbrev Date : Type := Nat

def Instant.date (at_ : Instant) : Date := at_ / 86400000000

/-! ## The ledger -/

inductive AccountStatus where
  | active
  | frozen
  | closed
deriving DecidableEq, Repr

/-- One (merchant, type, currency, livemode) node of the chart of accounts. -/
structure Account where
  id : String
  merchantId : Option String
  type : AccountType
  currency : String
  normalBalance : Direction
  status : AccountStatus
  livemode : Bool
deriving DecidableEq, Repr

inductive Purpose where
  | auth
  | authRelease
  | capture
  | settle
  | settlementFunding
  | fee
  | refund
  | dispute
  | reserveRelease
  | payout
  | payoutReversal
  | reversal
  | adjustment
deriving DecidableEq, Repr

def Purpose.toString : Purpose → String
  | .auth => "auth"
  | .authRelease => "auth_release"
  | .capture => "capture"
  | .settle => "settle"
  | .settlementFunding => "settlement_funding"
  | .fee => "fee"
  | .refund => "refund"
  | .dispute => "dispute"
  | .reserveRelease => "reserve_release"
  | .payout => "payout"
  | .payoutReversal => "payout_reversal"
  | .reversal => "reversal"
  | .adjustment => "adjustment"

/-- The kinds of object a posting is about. -/
inductive ReferenceType where
  | paymentIntent
  | charge
  | refund
  | dispute
  | payout
  | settlementBatch
  | reconciliationItem
  | fundingEvent
  | reserveHold
  | merchant
  | ledgerAdjustmentRequest
  | ledgerTransaction
deriving DecidableEq, Repr

def ReferenceType.toString : ReferenceType → String
  | .paymentIntent => "payment_intent"
  | .charge => "charge"
  | .refund => "refund"
  | .dispute => "dispute"
  | .payout => "payout"
  | .settlementBatch => "settlement_batch"
  | .reconciliationItem => "reconciliation_item"
  | .fundingEvent => "funding_event"
  | .reserveHold => "reserve_hold"
  | .merchant => "merchant"
  | .ledgerAdjustmentRequest => "ledger_adjustment_request"
  | .ledgerTransaction => "ledger_transaction"

inductive Actor where
  | system
  | reconciliation
  | payoutWorker
  | admin
deriving DecidableEq, Repr

def Actor.toString : Actor → String
  | .system => "system"
  | .reconciliation => "reconciliation"
  | .payoutWorker => "payout_worker"
  | .admin => "admin"

/-- A balanced posting's header; immutable but for the link to what it reverses. -/
structure LedgerTransaction where
  id : String
  idempotencyKey : String
  requestFingerprint : String
  purpose : Purpose
  merchantId : Option String
  currency : String
  livemode : Bool
  referenceType : ReferenceType
  referenceId : String
  reversesTransactionId : Option String
  createdBy : Actor
  postedAt : Instant
deriving DecidableEq, Repr

/-- One debit or credit leg; the table is append-only. -/
structure LedgerEntry where
  id : String
  transactionId : String
  accountId : String
  direction : Direction
  amountMinor : Int
  currency : String
  livemode : Bool
  sequence : Nat
  createdAt : Instant
deriving DecidableEq, Repr

/-- The denormalised balance of one (merchant, currency, livemode). -/
structure MerchantBalanceCache where
  merchantId : String
  currency : String
  livemode : Bool
  availableMinor : Int
  pendingMinor : Int
  reservedMinor : Int
  disputedMinor : Int
  negativeBalanceMinor : Int
  lastTransactionId : Option String
  computedAt : Instant
  updatedAt : Instant
deriving DecidableEq, Repr

/-- The cached column of a bucket. -/
def MerchantBalanceCache.amount (row : MerchantBalanceCache) : Bucket → Int
  | .merchantPayable => row.availableMinor
  | .merchantPending => row.pendingMinor
  | .merchantReserve => row.reservedMinor
  | .merchantDisputed => row.disputedMinor

/-- An event staged in the transaction of the change it announces. -/
structure EventOutbox where
  id : String
  type : String
  payload : List (String × Json)
  merchantId : Option String
  correlationId : String
  livemode : Bool

/-! ## Settlement -/

inductive BatchStatus where
  | opened
  | closed
  | partiallyReconciled
  | reconciled
  | funded
deriving DecidableEq, Repr

structure SettlementBatch where
  id : String
  currency : String
  processingDate : Date
  acquirer : String
  fileReference : String
  expectedTotalMinor : Int
  postedTotalMinor : Int
  fundedAmountMinor : Int
  fundingEventId : Option String
  itemCount : Int
  status : BatchStatus
  closedAt : Option Instant
  reconciledAt : Option Instant
  fundedAt : Option Instant
  livemode : Bool
deriving DecidableEq, Repr

inductive FundingStatus where
  | unmatched
  | matched
  | shortPaid
  | disputed
deriving DecidableEq, Repr

/-- One credit on the bank statement, from one acquirer. -/
structure FundingEvent where
  id : String
  acquirer : String
  currency : String
  amountMinor : Int
  valueDate : Date
  bankReference : String
  status : FundingStatus
  matchedBatchId : Option String
  varianceMinor : Int
  receivedAt : Instant
  livemode : Bool
deriving DecidableEq, Repr

inductive RunStatus where
  | running
  | succeeded
  | failed
deriving DecidableEq, Repr

structure ReconciliationRun where
  id : String
  batchId : String
  trigger : String
  status : RunStatus
  itemsTotal : Int
  itemsSettled : Int
  itemsFailed : Int
  startedAt : Instant
  finishedAt : Option Instant
  errorSummary : Option String
deriving DecidableEq, Repr

inductive LineType where
  | sale
  | refund
  | chargeback
  | chargebackReversal
  | schemeFee
  | adjustment
  | reserveHold
  | reserveRelease
deriving DecidableEq, Repr

def LineType.toString : LineType → String
  | .sale => "sale"
  | .refund => "refund"
  | .chargeback => "chargeback"
  | .chargebackReversal => "chargeback_reversal"
  | .schemeFee => "scheme_fee"
  | .adjustment => "adjustment"
  | .reserveHold => "reserve_hold"
  | .reserveRelease => "reserve_release"

inductive MatchMethod where
  | exactReference
  | networkTxn
  | heuristic
  | manual
  | unmatched
deriving DecidableEq, Repr

inductive ItemStatus where
  | pending
  | settling
  | settled
  | retryable
  | failed
  | varianceExceeded
  | needsReview
  | orphaned
deriving DecidableEq, Repr

/-- One line of an acquirer settlement file. -/
structure ReconciliationItem where
  id : String
  batchId : String
  chargeId : Option String
  merchantId : Option String
  lineType : LineType
  grossMinor : Int
  feeMinor : Int
  interchangeMinor : Int
  schemeFeeMinor : Int
  netMinor : Int
  expectedGrossMinor : Option Int
  varianceMinor : Int
  currency : String
  acquirer : String
  acquirerReference : String
  networkReference : Option String
  matchMethod : MatchMethod
  matchedAt : Option Instant
  status : ItemStatus
  attemptCount : Nat
  lastErrorCode : Option String
  lastAttemptAt : Option Instant
  nextAttemptAt : Instant
  settledTransactionId : Option String
  livemode : Bool
  createdAt : Instant
deriving DecidableEq, Repr

/-- What the acquirer settled less what was authorised. -/
def ReconciliationItem.computeVarianceMinor (item : ReconciliationItem) : Int :=
  match item.expectedGrossMinor with
  | none => 0
  | some expected => item.grossMinor - expected

/-- One line of an acquirer settlement file, currency-normalised to minor units. -/
structure ParsedSettlementLine where
  acquirerReference : String
  networkReference : Option String
  lineType : LineType
  grossMinor : Int
  feeMinor : Int
  interchangeMinor : Int
  schemeFeeMinor : Int
  netMinor : Int
  currency : String
deriving DecidableEq, Repr

/-- `settlement_charge`: the ledger's projection of a charge. -/
structure SettlementCharge where
  chargeId : String
  merchantId : String
  amountMinor : Int
  currency : String
  acquirer : String
  networkTransactionId : Option String
  processorReference : Option String
  captureMethod : String
  captureAtSettlement : Bool
  reserveBps : Int
  platformFeeBps : Int
  platformFeeFixedMinor : Int
  authorizedAt : Instant
  capturedAt : Option Instant
  livemode : Bool
  sourceEventId : String
  sourceOccurredAt : Instant
deriving DecidableEq, Repr

/-- Whether settlement must issue the physical capture to the acquirer. -/
def SettlementCharge.needsDeferredCapture (charge : SettlementCharge) : Bool :=
  charge.captureAtSettlement && charge.capturedAt.isNone

/-- The ledger's view of a merchant, with the event that wrote it last. -/
structure MerchantProjection where
  merchantId : String
  displayName : Option String
  country : Option String
  defaultCurrency : Option String
  status : String
  riskTier : String
  reserveBps : Int
  reserveHoldDays : Int
  pricingModel : String
  platformFeeBps : Int
  platformFeeFixedMinor : Int
  payoutDelayDays : Int
  settlementToleranceMinor : Int
  captureAtSettlement : Bool
  payoutSchedule : String
  livemode : Bool
  sourceEventId : String
  sourceOccurredAt : Instant
deriving DecidableEq, Repr, Inhabited

inductive AttemptStatus where
  | pending
  | captured
  | failed
  | indeterminate
deriving DecidableEq, Repr

/-- `OPEN_STATUSES`. -/
def AttemptStatus.isOpen : AttemptStatus → Bool
  | .pending | .indeterminate => true
  | _ => false

/-- One deferred capture request, claimed before it is issued. -/
structure CaptureAttempt where
  id : String
  chargeId : String
  itemId : Option String
  acquirer : String
  acquirerIdempotencyKey : String
  amountMinor : Int
  currency : String
  status : AttemptStatus
  responseReference : Option String
  lastErrorCode : Option String
  requestedAt : Instant
  completedAt : Option Instant
deriving DecidableEq, Repr

/-! ## Payouts -/

/-- The ledger's copy of a verified bank account, with the event that wrote it last. -/
structure BankAccountProjection where
  bankAccountId : String
  merchantId : String
  currency : String
  country : String
  scheme : String
  accountNumberToken : String
  routingLastFour : Option String
  ibanLastFour : Option String
  bic : Option String
  sortCodeLastFour : Option String
  status : String
  isDefault : Bool
  livemode : Bool
  sourceEventId : String
  sourceOccurredAt : Instant
deriving DecidableEq, Repr

inductive PayoutStatus where
  | scheduled
  | inTransit
  | paid
  | failed
  | returned
  | canceled
deriving DecidableEq, Repr

/-- `IN_FLIGHT_STATUSES`. -/
def PayoutStatus.isInFlight : PayoutStatus → Bool
  | .scheduled | .inTransit => true
  | _ => false

/-- One bank transfer.  The `source` columns and the rate are set together,
when the payout converts. -/
structure Payout where
  id : String
  merchantId : String
  bankAccountId : String
  amountMinor : Int
  currency : String
  status : PayoutStatus
  method : String
  availableOn : Date
  arrivalEstimate : Option Date
  statementDescriptor : String
  failureCode : Option String
  failureMessage : Option String
  ledgerTransactionId : Option String
  reversalTransactionId : Option String
  bankReference : Option String
  sourceAmountMinor : Option Int
  sourceCurrency : Option String
  fxRate : Option Rat
  fxSpreadMinor : Option Int
  initiatedAt : Option Instant
  paidAt : Option Instant
  failedAt : Option Instant
  returnedAt : Option Instant
  livemode : Bool
  createdAt : Instant
deriving DecidableEq, Repr

namespace Payout

/-- The currency of the balance this payout came out of. -/
def balanceCurrency (payout : Payout) : String :=
  payout.sourceCurrency.getD payout.currency

/-- How much it took out of that balance, in that balance's minor units. -/
def balanceAmountMinor (payout : Payout) : Int :=
  payout.sourceAmountMinor.getD payout.amountMinor

def isConverted (payout : Payout) : Bool :=
  payout.sourceCurrency.isSome

end Payout

/-! ## Reserves and adjustments -/

/-- One tranche of rolling reserve, withheld at capture and released on a date. -/
structure ReserveHold where
  id : String
  merchantId : String
  currency : String
  amountMinor : Int
  heldFromTransactionId : String
  releaseOn : Date
  releasedTransactionId : Option String
  livemode : Bool
deriving DecidableEq, Repr

inductive AdjustmentStatus where
  | pending
  | approved
  | rejected
  | posted
deriving DecidableEq, Repr

def AdjustmentStatus.toString : AdjustmentStatus → String
  | .pending => "pending"
  | .approved => "approved"
  | .rejected => "rejected"
  | .posted => "posted"

/-- A requested manual posting, and its approval trail. -/
structure LedgerAdjustmentRequest where
  id : String
  merchantId : Option String
  currency : String
  lines : List PostingLine
  reasonCode : String
  requestedBy : String
  requestedAt : Instant
  approvedBy : Option String
  approvedAt : Option Instant
  postedTransactionId : Option String
  status : AdjustmentStatus
  livemode : Bool
deriving DecidableEq, Repr

end PayzenoLedger
