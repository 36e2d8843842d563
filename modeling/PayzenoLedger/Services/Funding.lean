import PayzenoLedger.Services.Settlements

/-!
# Funding

Bank credits and the batches that they fund.  A credit is placed by the matching
pass, against the reconciled batch whose expected total is closest to it, or by
an operator, against any reconciled batch; both post under a key of the batch
and the credit.
-/

set_option autoImplicit false

namespace PayzenoLedger

open Library

namespace FundingEventRepository

/-- Credits that have not been placed, oldest value date first. -/
def listUnmatched (limit : Nat) (db : Database) : List FundingEvent :=
  ((db.fundings.filter fun event => event.status = .unmatched).insertionSort
    fun first second => first.valueDate < second.valueDate ∨
      (first.valueDate = second.valueDate ∧ first.receivedAt ≤ second.receivedAt)).take limit

def findByBankReference (bankReference : String) : Async (Option FundingEvent) :=
  Async.first fun db => db.fundings.filter fun event => event.bankReference = bankReference

end FundingEventRepository

/-- Reconciled batches of one acquirer and currency that no credit has matched yet. -/
def SettlementBatchRepository.listUnfunded (acquirer currency : String) (onOrBefore : Date)
    (db : Database) : List SettlementBatch :=
  ((db.batches.filter fun batch =>
      batch.status = .reconciled ∧ batch.fundedAt = none ∧ batch.acquirer = acquirer ∧
        batch.currency = currency ∧ batch.processingDate ≤ onOrBefore).insertionSort
    fun first second => first.processingDate ≤ second.processingDate).take 200

/-- The first candidate whose expected total is closest to the amount. -/
def closestByAmount (amountMinor : Int) : List SettlementBatch → Option SettlementBatch
  | [] => none
  | batch :: batches =>
      match closestByAmount amountMinor batches with
      | none => some batch
      | some best =>
          if |best.expectedTotalMinor - amountMinor| < |batch.expectedTotalMinor - amountMinor|
          then some best else some batch

namespace FundingMatchService

/-- The row of a credit after the session changed what it had loaded. -/
def placed (loaded : FundingEvent) (status : FundingStatus) (matchedBatchId : String)
    (varianceMinor : Int) (row : FundingEvent) : FundingEvent :=
  { row with
    status := dirty loaded.status status row.status
    matchedBatchId := dirty loaded.matchedBatchId (some matchedBatchId) row.matchedBatchId
    varianceMinor := dirty loaded.varianceMinor varianceMinor row.varianceMinor }

/-- The row of a batch after the session funded what it had loaded. -/
def funded (loaded : SettlementBatch) (fundedAmountMinor : Int) (eventId : String)
    (stamp : Instant) (row : SettlementBatch) : SettlementBatch :=
  { row with
    status := dirty loaded.status .funded row.status
    fundedAmountMinor := dirty loaded.fundedAmountMinor fundedAmountMinor row.fundedAmountMinor
    fundingEventId := dirty loaded.fundingEventId (some eventId) row.fundingEventId
    fundedAt := dirty loaded.fundedAt (some stamp) row.fundedAt }

def fundingRequest (batch : SettlementBatch) (event : FundingEvent)
    (idempotencyKey fingerprint : String) : PostRequest where
  idempotencyKey := idempotencyKey
  purpose := .settlementFunding
  merchantId := none
  currency := batch.currency
  livemode := batch.livemode
  referenceType := .settlementBatch
  referenceId := batch.id
  lines := [debit .cash event.amountMinor, credit .processorClearing event.amountMinor]
  createdBy := .system
  requestFingerprint := fingerprint

/-- The keys of the posting, of the batch and the credit. -/
def fundingKeys (batch : SettlementBatch) (event : FundingEvent) :
    Except Exception (String × String) := do
  let key ← ledgerKey "funding" batch.id event.id
  let fingerprint ← ledgerKey "fundingfp" batch.id event.bankReference
  pure (key, fingerprint)

def postFunding (settings : Settings) (batch : SettlementBatch) (event : FundingEvent) :
    Async String := do
  let (key, fingerprint) ← Async.check (fundingKeys batch event)
  let posted ← LedgerPoster.post
    (fundingRequest batch event key (settings.sha256 (.text fingerprint)))
  pure posted.transaction.id

/-- `abs(expected_total_minor) * tolerance_bps // 10_000`. -/
def toleranceMinor (toleranceBps : Int) (batch : SettlementBatch) : Int :=
  |batch.expectedTotalMinor| * toleranceBps / 10000

def updateEvent (loaded : FundingEvent) (status : FundingStatus) (batchId : String)
    (varianceMinor : Int) : Async Unit :=
  Async.update .fundingEvent (.funding loaded.id) (placed loaded status batchId varianceMinor)
    (fun _ => rfl)

def updateBatch (loaded : SettlementBatch) (fundedAmountMinor : Int) (eventId : String)
    (stamp : Instant) : Async Unit :=
  Async.update .settlementBatch (.batch loaded.id)
    (funded loaded fundedAmountMinor eventId stamp) (fun _ => rfl)

def publishFunded (batch : SettlementBatch) (event : FundingEvent) (varianceMinor : Int)
    (transactionId : String) (stamp : Instant) : Async Unit :=
  OutboxPublisher.publish "settlement.funded"
    [("batch_id", .text batch.id), ("funding_event_id", .text event.id),
     ("acquirer", .text batch.acquirer), ("currency", .text batch.currency),
     ("expected_total_minor", .int batch.expectedTotalMinor),
     ("funded_amount_minor", .int event.amountMinor), ("variance_minor", .int varianceMinor),
     ("bank_reference", .text event.bankReference),
     ("value_date", .text event.valueDate.isoformat), ("transaction_id", .text transactionId),
     ("funded_at", .instant stamp)]
    none batch.id batch.livemode

/-- Place one credit, or leave it. -/
def matchOne (settings : Settings) (eventId : String) : Async Bool := do
  let event ← Async.getOrRaise .fundingEvent (.funding eventId)
    (notFound .notFoundError "FundingEvent" (.text eventId))
  if event.status ≠ .unmatched then pure false
  else
    let candidates ← Async.select
      (SettlementBatchRepository.listUnfunded event.acquirer event.currency event.valueDate)
    match closestByAmount event.amountMinor candidates with
    | none => pure false
    | some batch =>
        let varianceMinor := event.amountMinor - batch.expectedTotalMinor
        if toleranceMinor settings.fundingMatchToleranceBps batch < |varianceMinor| then
          updateEvent event (if varianceMinor < 0 then .shortPaid else .disputed) batch.id
            varianceMinor
          pure false
        else
          let transactionId ← postFunding settings batch event
          updateEvent event .matched batch.id varianceMinor
          let stamp ← Async.now
          updateBatch batch event.amountMinor event.id stamp
          publishFunded batch event varianceMinor transactionId stamp
          pure true

/-- Each credit is placed in a transaction of its own. -/
def matchAll (settings : Settings) : List String → Nat → Async Nat
  | [], placed => pure placed
  | eventId :: eventIds, placed => do
      let done ← Async.withSession (.fundingMatch eventId) (matchOne settings eventId)
      matchAll settings eventIds (if done then placed + 1 else placed)

def matchPending (settings : Settings) (limit : Nat) : Async Nat := do
  let eventIds ← Async.withSession .fundingList
    (Async.select fun db => (FundingEventRepository.listUnmatched limit db).map (·.id))
  matchAll settings eventIds 0

/-! ## By hand -/

structure FundingRecord where
  batchId : String
  bankReference : String
  amountMinor : Int
  valueDate : Date
deriving DecidableEq, Repr

/-- The credit that an operator's record makes where the statement has none. -/
def createdEvent (batch : SettlementBatch) (record : FundingRecord) (receivedAt : Instant) :
    FundingEvent where
  id := "fe_" ++ String.ofList (record.bankReference.toList.take 24)
  acquirer := batch.acquirer
  currency := batch.currency
  amountMinor := record.amountMinor
  valueDate := record.valueDate
  bankReference := record.bankReference
  status := .unmatched
  matchedBatchId := none
  varianceMinor := 0
  receivedAt := receivedAt
  livemode := batch.livemode

def findOrCreateEvent (batch : SettlementBatch) (record : FundingRecord) :
    Async FundingEvent := do
  match ← FundingEventRepository.findByBankReference record.bankReference with
  | some event => pure event
  | none =>
      let receivedAt ← Async.now
      let event := createdEvent batch record receivedAt
      Async.add .fundingEvent event
      pure event

/-- Fund a batch by hand: the credit is posted, the amount is the operator's. -/
def recordFunding (settings : Settings) (record : FundingRecord) : Async Unit := do
  match ← Async.get .settlementBatch (.batch record.batchId) with
  | none =>
      throw (ledgerError .batchNotFoundError
        ("settlement batch " ++ record.batchId ++ " not found")
        [("batch_id", .text record.batchId)])
  | some batch =>
      if batch.status = .reconciled ∨ batch.status = .partiallyReconciled then
        let event ← findOrCreateEvent batch record
        let _ ← postFunding settings batch event
        updateEvent event .matched batch.id (record.amountMinor - batch.expectedTotalMinor)
        let stamp ← Async.now
        updateBatch batch record.amountMinor event.id stamp
      else
        throw (ledgerError .validationError
          ("batch " ++ record.batchId ++ " is " ++ batch.status.toString ++
            " and cannot be funded")
          [("batch_id", .text record.batchId), ("status", .text batch.status.toString)])

end FundingMatchService

end PayzenoLedger
