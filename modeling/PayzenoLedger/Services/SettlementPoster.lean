import PayzenoLedger.Domain.Idempotency
import PayzenoLedger.Domain.Rules
import PayzenoLedger.Services.Transactions
import Mathlib.Data.Int.Bitwise

/-!
# The settlement poster

Posts the transaction that settles one reconciliation item: confirm the line
with the acquirer, check the variance, build the legs, claim the ledger key and,
only when the claim was won, capture the cardholder of a deferred charge.  Both
the sweep and the retry run it inside their own transactions.
-/

set_option autoImplicit false

namespace PayzenoLedger

open Library

/-! ## Settings and locks -/

/-- The settings that the services read, with the two digests of `hashlib`. -/
structure Settings where
  reconcileMaxAttempts : Nat := 5
  reconcileSweepWallBudgetSeconds : Nat := 30
  reconcileRetryBackoffBaseSeconds : Nat := 30
  fundingMatchToleranceBps : Int := 5
  flagDuplicateSettlementAlarm : Bool := true
  blake2b : String → Int
  sha256 : Json → String

/-- Settings with stand-ins for the digests. -/
def sampleSettings : Settings where
  blake2b value := value.length
  sha256 _ := "fingerprint"

/-- `RETRYABLE_STATUSES`. -/
def ItemStatus.isRetryable : ItemStatus → Bool
  | .pending | .retryable => true
  | _ => false

/-- `RETRYABLE_ERROR_CODES`. -/
def retryableErrorCodes : List String :=
  ["processor_unavailable", "rate_limited", "temporary_failure"]

namespace AdvisoryLockManager

/-- "PAY". -/
def advisoryNamespace : Int := 0x504159

def key (settings : Settings) (value : String) : Int :=
  (settings.blake2b value).xor advisoryNamespace

def acquireBatchLock (settings : Settings) (batchId : String) : Async Unit :=
  Raising.execute (Y := system) (.acquire (key settings batchId))

def tryAcquireBatchLock (settings : Settings) (batchId : String) : Async Bool :=
  Raising.execute (Y := system) (.tryAcquire (key settings batchId))

def acquireItemLock (settings : Settings) (itemId : String) : Async Unit :=
  Raising.execute (Y := system) (.acquire (key settings itemId))

def acquireMerchantCurrencyLock (settings : Settings) (merchantId currency : String) :
    Async Unit :=
  Raising.execute (Y := system)
    (.acquire (key settings (merchantId ++ ":" ++ currency)))

end AdvisoryLockManager

/-! ## Repositories -/

/-- The not-found error of a repository. -/
def notFound (cls : ErrorClass) (entity : String) (id : Json) : Exception :=
  ledgerError cls (entity ++ " not found")
    [("details", .object [("id", id), ("entity", .text entity)])]

def SettlementChargeRepository.getOrRaise (id : String) : Async SettlementCharge :=
  Async.getOrRaise .settlementCharge (.charge id)
    (notFound .chargeProjectionNotFoundError "SettlementCharge" (.text id))

def MerchantProjectionRepository.getOrRaise (id : Option String) :
    Async MerchantProjection :=
  match id with
  | none => throw (notFound .notFoundError "MerchantProjection" .null)
  | some id =>
      Async.getOrRaise .merchantProjection (.merchant id)
        (notFound .notFoundError "MerchantProjection" (.text id))

def ReconciliationItemRepository.getOrRaise (id : String) : Async ReconciliationItem :=
  Async.getOrRaise .reconciliationItem (.item id)
    (notFound .reconciliationItemNotFoundError "ReconciliationItem" (.text id))

/-! ## The poster -/

/-- The request fingerprint of a settlement posting. -/
def fingerprintOf (settings : Settings) (item : ReconciliationItem) : String :=
  settings.sha256 (.object
    [("acquirer_reference", .text item.acquirerReference), ("batch_id", .text item.batchId),
     ("charge_id", Json.optional item.chargeId), ("currency", .text item.currency),
     ("fee_minor", .int item.feeMinor), ("gross_minor", .int item.grossMinor),
     ("interchange_minor", .int item.interchangeMinor), ("item_id", .text item.id),
     ("line_type", .text item.lineType.toString), ("livemode", .bool item.livemode),
     ("merchant_id", Json.optional item.merchantId), ("net_minor", .int item.netMinor),
     ("scheme_fee_minor", .int item.schemeFeeMinor)])

inductive Caller where
  | batchPass
  | retryScheduler
deriving DecidableEq, Repr

def Caller.toString : Caller → String
  | .batchPass => "batch_pass"
  | .retryScheduler => "retry_scheduler"

structure SettlementResult where
  transactionId : String
  created : Bool
deriving DecidableEq, Repr

namespace SettlementPoster

/-- Retryable codes become `RetryableSettlementError`; everything else does not. -/
def translate (item : ReconciliationItem) (error : PayzenoLedgerError) : Exception :=
  if error.code ∈ retryableErrorCodes then
    .ledger
      { cls := .retryableSettlementError
        message := "acquirer " ++ item.acquirer ++ " returned " ++ error.code
        details := [("item_id", .text item.id), ("batch_id", .text item.batchId)]
        code := error.code }
  else .ledger error

/-- The answer of the acquirer, its transport failures translated. -/
def answered {α : Type} (item : ReconciliationItem) :
    Except Exception α → Async α
  | .ok value => pure value
  | .error (.ledger error) =>
      if error.cls.isInstance .processorUnavailableError ∨
          error.cls.isInstance .processorIndeterminateError then
        throw (translate item error)
      else throw (.ledger error)
  | .error raised => throw raised

/-- Whatever the acquirer's error was, one is raised. -/
theorem answered_error {α : Type} (item : ReconciliationItem) (raised : Exception) :
    ∃ thrown, (answered item (.error raised) : Async α) = throw thrown := by
  cases raised with
  | ledger error =>
      simp only [answered]
      split
      · exact ⟨_, rfl⟩
      · exact ⟨_, rfl⟩
  | integrityError => exact ⟨_, rfl⟩
  | valueError message => exact ⟨_, rfl⟩
  | builtin error => exact ⟨_, rfl⟩
  | httpx error => exact ⟨_, rfl⟩

/-- Acknowledge the line with the acquirer. -/
def confirm (item : ReconciliationItem) : Async Unit := do
  let reply ← Async.call
    (.confirmSettlement item.acquirer item.acquirerReference item.batchId)
  answered item reply

/-- Charge the cardholder; what the acquirer answered is not looked at. -/
def capture (item : ReconciliationItem) (charge : SettlementCharge) (chargeId : String) :
    Async Unit := do
  let idempotencyKey ← Async.check (ledgerKey "capture" item.batchId chargeId)
  let reply ← Async.call (.captureDeferred charge.chargeId item.grossMinor item.currency
    item.acquirerReference idempotencyKey (some item.id))
  let _ ← answered item reply
  pure ()

/-- Stage one event about an item, stamped with the clock. -/
def publishItemEvent (type stampName : String) (item : ReconciliationItem)
    (payload : List (String × Json)) : Async Unit := do
  let stamp ← Async.now
  OutboxPublisher.publish type (payload ++ [(stampName, .instant stamp)]) item.merchantId
    item.id item.livemode

def publishVariance (item : ReconciliationItem) (toleranceMinor : Int) : Async Unit :=
  publishItemEvent "settlement.variance_detected" "detected_at" item
    [("batch_id", .text item.batchId), ("item_id", .text item.id),
     ("charge_id", Json.optional item.chargeId),
     ("merchant_id", Json.optional item.merchantId),
     ("line_type", .text item.lineType.toString),
     ("expected_gross_minor", match item.expectedGrossMinor with
       | none => .null
       | some expected => .int expected),
     ("actual_gross_minor", .int item.grossMinor),
     ("variance_minor", .int item.varianceMinor), ("tolerance_minor", .int toleranceMinor),
     ("currency", .text item.currency)]

/-- The alarm's counter is behind a flag, the event is not. -/
def publishDuplicate (settings : Settings) (item : ReconciliationItem) (key : String)
    (existing : LedgerTransaction) (caller : Caller) : Async Unit := do
  publishItemEvent "settlement.duplicate_detected" "detected_at" item
    [("batch_id", .text item.batchId), ("item_id", .text item.id),
     ("charge_id", Json.optional item.chargeId),
     ("merchant_id", Json.optional item.merchantId), ("idempotency_key", .text key),
     ("existing_transaction_id", .text existing.id),
     ("detected_by", .text caller.toString), ("amount_minor", .int item.grossMinor),
     ("currency", .text item.currency)]
  if settings.flagDuplicateSettlementAlarm then
    let counted ← Async.call (.countDuplicate item.acquirer caller.toString)
    Async.check counted

def publishSettled (item : ReconciliationItem) (transactionId : String) : Async Unit :=
  publishItemEvent "settlement.item_settled" "settled_at" item
    [("item_id", .text item.id), ("batch_id", .text item.batchId),
     ("charge_id", Json.optional item.chargeId),
     ("merchant_id", Json.optional item.merchantId), ("gross_minor", .int item.grossMinor),
     ("fee_minor", .int item.feeMinor), ("net_minor", .int item.netMinor),
     ("currency", .text item.currency), ("transaction_id", .text transactionId),
     ("attempt_count", .int item.attemptCount)]

/-- What the line's posting rule reads. -/
def context (item : ReconciliationItem) : PostingContext where
  merchantId := item.merchantId
  currency := item.currency
  grossMinor := item.grossMinor
  feeMinor := item.feeMinor
  netMinor := item.netMinor
  interchangeMinor := item.interchangeMinor
  schemeFeeMinor := item.schemeFeeMinor

/-- The one posting of an item, under the item's own key. -/
def settleRequest (settings : Settings) (item : ReconciliationItem) (key : String)
    (lines : List PostingLine) : PostRequest where
  idempotencyKey := key
  purpose := .settle
  merchantId := item.merchantId
  currency := item.currency
  livemode := item.livemode
  referenceType := .reconciliationItem
  referenceId := item.id
  lines := lines
  createdBy := .reconciliation
  requestFingerprint := fingerprintOf settings item
  onConflict := .returnExisting

/-- Build the legs of the line and validate them once more. -/
def settleLines (item : ReconciliationItem) : Except Exception (List PostingLine) :=
  let rule := postingRuleByLineType item.lineType
  match rule.build (context item) with
  | .error raised => .error raised
  | .ok lines =>
      match PostingRule.validate rule.purpose lines with
      | .error raised => .error raised
      | .ok () => .ok lines

/-- What follows a won or a lost claim. -/
def afterClaim (settings : Settings) (item : ReconciliationItem) (charge : SettlementCharge)
    (chargeId key : String) (caller : Caller) (posted : PostResult) :
    Async SettlementResult := do
  if posted.created then
    -- After the claim, and only when it was won.
    if charge.captureAtSettlement then capture item charge chargeId
    publishSettled item posted.transaction.id
    pure { transactionId := posted.transaction.id, created := true }
  else
    publishDuplicate settings item key posted.transaction caller
    pure { transactionId := posted.transaction.id, created := false }

/-- Settle one item; idempotent on `ledger_key('settle', batch_id, item_id)`. -/
def postSettlement (settings : Settings) (item : ReconciliationItem) (caller : Caller) :
    Async SettlementResult := do
  Async.mark (.posting item.batchId item.id)
  confirm item
  match item.chargeId with
  | none =>
      throw (ledgerError .orphanedItemError
        ("reconciliation item " ++ item.id ++ " has no matched charge")
        [("item_id", .text item.id), ("batch_id", .text item.batchId),
         ("acquirer_reference", .text item.acquirerReference)])
  | some chargeId =>
      let key ← Async.check (ledgerKey "settle" item.batchId item.id)
      let charge ← SettlementChargeRepository.getOrRaise chargeId
      let merchant ← MerchantProjectionRepository.getOrRaise item.merchantId
      if merchant.settlementToleranceMinor < |item.varianceMinor| then
        publishVariance item merchant.settlementToleranceMinor
        throw (ledgerError .settlementVarianceExceededError
          ("item " ++ item.id ++ " varies by " ++ toString item.varianceMinor ++
            " minor units")
          [("item_id", .text item.id), ("batch_id", .text item.batchId),
           ("variance_minor", .int item.varianceMinor),
           ("tolerance_minor", .int merchant.settlementToleranceMinor)])
      else
        let lines ← Async.check (settleLines item)
        let posted ← LedgerPoster.post (settleRequest settings item key lines)
        afterClaim settings item charge chargeId key caller posted

end SettlementPoster

end PayzenoLedger
