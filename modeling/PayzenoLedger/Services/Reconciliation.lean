import PayzenoLedger.Services.SettlementPoster

/-!
# The sweep, the retry and the manual match

The three actors that write a reconciliation item.  The sweep holds the batch
lock in a guard transaction around one short transaction for each item; the
retry takes the same lock and the row in the transaction that posts; the manual
match takes neither.  A failure mark runs in a transaction of its own, after the
business transaction has rolled back.
-/

set_option autoImplicit false

namespace PayzenoLedger

open Library

/-! ## Flushing a changed row -/

/-- The `UPDATE` of a flush sets the columns whose value differs from what was
loaded. -/
def ReconciliationItem.merge (loaded changed current : ReconciliationItem) :
    ReconciliationItem :=
  { current with
    chargeId := dirty loaded.chargeId changed.chargeId current.chargeId
    merchantId := dirty loaded.merchantId changed.merchantId current.merchantId
    expectedGrossMinor :=
      dirty loaded.expectedGrossMinor changed.expectedGrossMinor current.expectedGrossMinor
    varianceMinor := dirty loaded.varianceMinor changed.varianceMinor current.varianceMinor
    matchMethod := dirty loaded.matchMethod changed.matchMethod current.matchMethod
    matchedAt := dirty loaded.matchedAt changed.matchedAt current.matchedAt
    status := dirty loaded.status changed.status current.status
    attemptCount := dirty loaded.attemptCount changed.attemptCount current.attemptCount
    lastErrorCode := dirty loaded.lastErrorCode changed.lastErrorCode current.lastErrorCode
    lastAttemptAt := dirty loaded.lastAttemptAt changed.lastAttemptAt current.lastAttemptAt
    nextAttemptAt := dirty loaded.nextAttemptAt changed.nextAttemptAt current.nextAttemptAt
    settledTransactionId := dirty loaded.settledTransactionId changed.settledTransactionId
      current.settledTransactionId }

/-- Flush an item; nothing is sent when nothing changed. -/
def ReconciliationItem.flush (loaded changed : ReconciliationItem) : Async Unit :=
  if changed = loaded then pure ()
  else
    Async.update .reconciliationItem (.item loaded.id) (ReconciliationItem.merge loaded changed)
      fun _ => rfl

def SettlementBatch.merge (loaded changed current : SettlementBatch) : SettlementBatch :=
  { current with
    expectedTotalMinor :=
      dirty loaded.expectedTotalMinor changed.expectedTotalMinor current.expectedTotalMinor
    postedTotalMinor :=
      dirty loaded.postedTotalMinor changed.postedTotalMinor current.postedTotalMinor
    fundedAmountMinor :=
      dirty loaded.fundedAmountMinor changed.fundedAmountMinor current.fundedAmountMinor
    fundingEventId := dirty loaded.fundingEventId changed.fundingEventId current.fundingEventId
    itemCount := dirty loaded.itemCount changed.itemCount current.itemCount
    status := dirty loaded.status changed.status current.status
    closedAt := dirty loaded.closedAt changed.closedAt current.closedAt
    reconciledAt := dirty loaded.reconciledAt changed.reconciledAt current.reconciledAt
    fundedAt := dirty loaded.fundedAt changed.fundedAt current.fundedAt }

def SettlementBatch.flush (loaded changed : SettlementBatch) : Async Unit :=
  if changed = loaded then pure ()
  else
    Async.update .settlementBatch (.batch loaded.id) (SettlementBatch.merge loaded changed)
      fun _ => rfl

/-- The code that `except` clauses read off an exception of the tree. -/
def Exception.errorCode : Exception → String
  | .ledger error => error.code
  | .integrityError | .valueError _ | .builtin _ | .httpx _ => ""

/-! ## The sweep -/

namespace ReconciliationItemRepository

/-- Items of one batch eligible for settlement, oldest first. -/
def listForSettlement (batchId : String) (limit : Nat) : Async (List ReconciliationItem) :=
  Async.select fun db =>
    ((db.items.filter fun item => item.batchId = batchId ∧ item.status.isRetryable)
      |>.insertionSort fun first second => first.createdAt ≤ second.createdAt).take limit

/-- Ids of the items that are due for another attempt, soonest due first. -/
def listRetryableIds (limit : Nat) : Async (List String) := do
  let cutoff ← Async.now
  Async.select fun db =>
    (((db.items.filter fun item =>
        item.status.isRetryable ∧ item.nextAttemptAt ≤ cutoff).insertionSort
      fun first second => first.nextAttemptAt ≤ second.nextAttemptAt).take limit).map (·.id)

def getBatchId (itemId : String) : Async (Option String) :=
  Async.select fun db =>
    ((db.items.filter fun item => item.id = itemId).head?).map (·.batchId)

end ReconciliationItemRepository

namespace ReconciliationRunRepository

def start (batchId trigger : String) : Async ReconciliationRun := do
  let id ← Async.newId "rr"
  let startedAt ← Async.now
  let run : ReconciliationRun :=
    { id, batchId, trigger, status := .running, itemsTotal := 0, itemsSettled := 0
      itemsFailed := 0, startedAt, finishedAt := none, errorSummary := none }
  Async.add .reconciliationRun run
  pure run

/-- Close a run with its counts. -/
def finish (runId : String) (itemsTotal itemsSettled itemsFailed : Int) (status : RunStatus)
    (errorSummary : Option String) : Async ReconciliationRun := do
  let run ← Async.getOrRaise .reconciliationRun (.run runId)
    (notFound .notFoundError "ReconciliationRun" (.text runId))
  let finishedAt ← Async.now
  let close (row : ReconciliationRun) : ReconciliationRun :=
    { row with
      itemsTotal := itemsTotal, itemsSettled := itemsSettled, itemsFailed := itemsFailed
      status := status, errorSummary := errorSummary, finishedAt := some finishedAt }
  Async.update .reconciliationRun (.run runId) close fun _ => rfl
  pure (close run)

end ReconciliationRunRepository

namespace SettlementBatchRepository

def getOrRaise (id : String) : Async SettlementBatch :=
  Async.getOrRaise .settlementBatch (.batch id)
    (notFound .batchNotFoundError "SettlementBatch" (.text id))

/-- The batch after a pass. -/
def reconciledWith (batch : SettlementBatch) (postedTotalMinor : Int) (fullySettled : Bool)
    (stamp : Instant) : SettlementBatch :=
  { batch with
    postedTotalMinor := postedTotalMinor
    status := if fullySettled then .reconciled else .partiallyReconciled
    reconciledAt := if fullySettled then some stamp else batch.reconciledAt }

/-- Close out a pass over one batch. -/
def markReconciled (batchId : String) (postedTotalMinor : Int) (fullySettled : Bool)
    (stamp : Instant) : Async Unit := do
  let batch ← getOrRaise batchId
  Async.mark (.reconciling batch)
  batch.flush (reconciledWith batch postedTotalMinor fullySettled stamp)

end SettlementBatchRepository

/-- Counters for one pass. -/
structure ReconcilePassStats where
  itemsTotal : Int := 0
  settled : Int := 0
  failed : Int := 0
  orphaned : Int := 0
  settledChargeIds : List String := []
  postedTotalMinor : Int := 0
  feeTotalMinor : Int := 0
  netTotalMinor : Int := 0
deriving DecidableEq, Repr

namespace ReconcilePassStats

def status (stats : ReconcilePassStats) : RunStatus :=
  if stats.failed = 0 then .succeeded else .failed

/-- One more item handled; the totals are on the net basis. -/
def countSettled (stats : ReconcilePassStats) (item : ReconciliationItem) :
    ReconcilePassStats :=
  { stats with
    settled := stats.settled + 1
    postedTotalMinor := stats.postedTotalMinor + item.netMinor
    feeTotalMinor := stats.feeTotalMinor + item.feeMinor
    netTotalMinor := stats.netTotalMinor + item.netMinor
    settledChargeIds := stats.settledChargeIds ++ item.chargeId.toList }

def countFailed (stats : ReconcilePassStats) (code : String) : ReconcilePassStats :=
  { stats with
    failed := stats.failed + 1
    orphaned := if code = "orphaned_item" then stats.orphaned + 1 else stats.orphaned }

end ReconcilePassStats

/-- `COMPLETION_CHUNK_SIZE`. -/
def completionChunkSize : Nat := 1000

/-- Always at least one chunk. -/
def chunk (values : List String) (size : Nat) : List (List String) :=
  if values.isEmpty then [[]] else values.toChunks size

namespace ReconciliationService

variable (settings : Settings)

/-- Settle one item of the pass, unless another pass already handled it. -/
def processItem (itemId : String) : Async Unit := do
  let item ← ReconciliationItemRepository.getOrRaise itemId
  if item.status.isRetryable then
    let result ← SettlementPoster.postSettlement settings item .batchPass
    let stamp ← Async.now
    item.flush
      { item with
        status := .settled
        settledTransactionId := some result.transactionId
        lastAttemptAt := some stamp }
  else pure ()

def markRetryable (itemId code : String) : Async Unit :=
  Async.withSession (.sweepMarkRetryable itemId) do
    let item ← ReconciliationItemRepository.getOrRaise itemId
    let stamp ← Async.now
    item.flush
      { item with
        attemptCount := item.attemptCount + 1
        lastAttemptAt := some stamp
        lastErrorCode := some code
        status := .retryable }

def markFailed (itemId code : String) : Async Unit :=
  Async.withSession (.sweepMarkFailed itemId) do
    let item ← ReconciliationItemRepository.getOrRaise itemId
    let stamp ← Async.now
    item.flush
      { item with
        attemptCount := item.attemptCount + 1
        lastAttemptAt := some stamp
        lastErrorCode := some code
        status := if code = "orphaned_item" then .orphaned else .failed }

/-- One item of the pass in its own transaction, and its failure mark. -/
def sweepItem (item : ReconciliationItem) (stats : ReconcilePassStats) :
    Async ReconcilePassStats :=
  Async.recover
    (do Async.withSession (.sweepItem item.id) (processItem settings item.id)
        pure (stats.countSettled item))
    fun raised => do
      if raised.isInstance .retryableSettlementError then
        markRetryable item.id raised.errorCode
        pure { stats with failed := stats.failed + 1 }
      else if raised.isInstance .payzenoLedgerError then
        markFailed item.id raised.errorCode
        pure (stats.countFailed raised.errorCode)
      else throw raised

/-- The items in order, until the wall-clock budget of the pass is used up. -/
def sweepItems (started : Instant) :
    List ReconciliationItem → ReconcilePassStats → Async ReconcilePassStats
  | [], stats => pure stats
  | item :: items, stats => do
      let instant ← Async.now
      if settings.reconcileSweepWallBudgetSeconds * 1000000 < instant - started then
        Async.mark (.overran started instant)
        pure { stats with itemsTotal := stats.settled + stats.failed }
      else
        let stats ← sweepItem settings item stats
        sweepItems started items stats

/-- The pass under the batch lock. -/
def guardedPass (batchId : String) (maxItems : Nat) : Async ReconcilePassStats := do
  AdvisoryLockManager.acquireBatchLock settings batchId
  let items ← Async.withSession (.sweepRead batchId maxItems)
    (ReconciliationItemRepository.listForSettlement batchId maxItems)
  let started ← Async.now
  sweepItems settings started items { itemsTotal := items.length }

def completedPayload (run : ReconciliationRun) (stats : ReconcilePassStats)
    (batch : SettlementBatch) (chargeIds : List String) (index count : Nat)
    (stamp : Instant) : List (String × Json) :=
  [("batch_id", .text run.batchId), ("run_id", .text run.id),
   ("acquirer", .text batch.acquirer), ("currency", .text batch.currency),
   ("processing_date", .int batch.processingDate), ("items_total", .int stats.itemsTotal),
   ("items_settled", .int stats.settled), ("items_failed", .int stats.failed),
   ("posted_total_minor", .int stats.postedTotalMinor),
   ("fee_total_minor", .int stats.feeTotalMinor),
   ("net_total_minor", .int stats.netTotalMinor),
   ("settled_charge_ids", .list (chargeIds.map .text)),
   ("chunk_index", .int index), ("chunk_count", .int count),
   ("completed_at", .instant stamp)]

def publishChunks (run : ReconciliationRun) (stats : ReconcilePassStats)
    (batch : SettlementBatch) (count : Nat) : Nat → List (List String) → Async Unit
  | _, [] => pure ()
  | index, chargeIds :: chunks => do
      let stamp ← Async.now
      OutboxPublisher.publish "settlement.completed"
        (completedPayload run stats batch chargeIds index count stamp) none run.id
        batch.livemode
      publishChunks run stats batch count (index + 1) chunks

/-- Announce the pass: completed in chunks, or failed as a whole. -/
def publishCompletion (run : ReconciliationRun) (stats : ReconcilePassStats) : Async Unit :=
  Async.withSession (.sweepPublish run.batchId) do
    let batch ← SettlementBatchRepository.getOrRaise run.batchId
    if stats.failed ≠ 0 ∧ stats.settled = 0 then
      let stamp ← Async.now
      OutboxPublisher.publish "settlement.reconciliation_failed"
        [("batch_id", .text run.batchId), ("run_id", .text run.id),
         ("items_failed", .int stats.failed), ("items_orphaned", .int stats.orphaned),
         ("error_summary", .text (run.errorSummary.getD "reconciliation failed")),
         ("failed_at", .instant stamp)] none run.id batch.livemode
    else
      let chunks := chunk stats.settledChargeIds completionChunkSize
      publishChunks run stats batch chunks.length 0 chunks

/-- One pass over every eligible item in one settlement batch. -/
def reconcileBatch (batchId trigger : String) (maxItems : Nat) :
    Async ReconciliationRun := do
  let run ← Async.withSession .runStart (ReconciliationRunRepository.start batchId trigger)
  let stats ← Async.withSession (.sweepGuard batchId) (guardedPass settings batchId maxItems)
  let finished ← Async.withSession (.sweepFinish batchId) do
    let finished ← ReconciliationRunRepository.finish run.id stats.itemsTotal stats.settled
      stats.failed stats.status
      (if stats.failed = 0 then none else some (toString stats.failed ++ " items failed"))
    let stamp ← Async.now
    SettlementBatchRepository.markReconciled batchId stats.postedTotalMinor
      (decide (stats.failed = 0)) stamp
    pure finished
  publishCompletion finished stats
  pure finished

end ReconciliationService

/-! ## The retry -/

/-- `MAX_EXPONENT`, `MAX_DELAY_SECONDS`: the delay before jitter. -/
def rawDelaySeconds (attemptCount baseSeconds : Nat) : Nat :=
  min (baseSeconds * 2 ^ min attemptCount 12) (6 * 60 * 60)

/-- The delays that the jitter band of a fifth allows. -/
def withinBackoff (attemptCount baseSeconds : Nat) (stamp next : Instant) : Bool :=
  let raw := rawDelaySeconds attemptCount baseSeconds
  decide (stamp + max 1 (raw * 4 / 5) * 1000000 ≤ next ∧
    next ≤ stamp + max 1 (raw * 6 / 5) * 1000000)

namespace RetryScheduler

variable (settings : Settings)

/-- Exponential backoff with jitter; the environment draws the jitter. -/
def backoff (attemptCount : Nat) : Async Instant := do
  let stamp ← Async.now
  if settings.reconcileRetryBackoffBaseSeconds = 0 then
    throw (ruleError .validationError "backoff base must be positive"
      [("base_seconds", .int settings.reconcileRetryBackoffBaseSeconds)])
  else
    Raising.execute (Y := system) (.select fun _ choice _ =>
      match choice with
      | .instant next =>
          if withinBackoff (min attemptCount 6) settings.reconcileRetryBackoffBaseSeconds
              stamp next then some next else none
      | _ => none)

/-- Claim one item for this transaction: batch lock first, row lock second. -/
def claimItem (itemId : String) : Async (Option ReconciliationItem) := do
  match ← ReconciliationItemRepository.getBatchId itemId with
  | none => pure none
  | some batchId =>
      if ← AdvisoryLockManager.tryAcquireBatchLock settings batchId then
        Raising.execute (Y := system)
          (Statement.selectForUpdate (Y := system) Table.reconciliationItem (Key.item itemId)
            (fun item : ReconciliationItem => item.status.isRetryable) true)
      else pure none

/-- The counter of the retries; the two ends of one take different labels. -/
def countRetried (names : List String) : Async Unit :=
  Async.increment "SettlementItemRetried" names

def markRetryable (itemId code : String) : Async Unit := do
  Async.withSession (.retryMarkRetryable itemId) do
    let item ← ReconciliationItemRepository.getOrRaise itemId
    Async.mark (.unlocked item .retryable item.chargeId)
    let stamp ← Async.now
    let nextAttemptAt ← backoff settings (item.attemptCount + 1)
    item.flush
      { item with
        attemptCount := item.attemptCount + 1
        lastAttemptAt := some stamp
        lastErrorCode := some code
        status := .retryable
        nextAttemptAt := nextAttemptAt }
  countRetried ["error_code", "outcome"]

def markFailed (itemId code : String) : Async Unit := do
  Async.withSession (.retryMarkFailed itemId) do
    let item ← ReconciliationItemRepository.getOrRaise itemId
    Async.mark (.unlocked item .failed item.chargeId)
    let stamp ← Async.now
    item.flush
      { item with
        attemptCount := item.attemptCount + 1
        lastAttemptAt := some stamp
        lastErrorCode := some code
        status := .failed }
  countRetried ["error_code", "outcome"]

/-- The claim and the posting, in one transaction. -/
def attempt (itemId : String) : Async (Option ReconciliationItem) := do
  match ← claimItem settings itemId with
  | none => pure none
  | some item =>
      if settings.reconcileMaxAttempts ≤ item.attemptCount then
        throw (ledgerError .retryExhaustedError
          ("item " ++ itemId ++ " exhausted " ++ toString item.attemptCount ++ " attempts")
          [("item_id", .text itemId), ("attempt_count", .int item.attemptCount)])
      else
        let stamp ← Async.now
        let attempted : ReconciliationItem :=
          { item with
            attemptCount := item.attemptCount + 1
            lastAttemptAt := some stamp
            status := .settling }
        -- The row is locked, so it makes no difference when the flush is sent.
        item.flush attempted
        let result ← SettlementPoster.postSettlement settings attempted .retryScheduler
        let settled : ReconciliationItem :=
          { attempted with
            status := .settled
            settledTransactionId := some result.transactionId }
        -- A refused count rolls back, so it makes no difference here either.
        attempted.flush settled
        countRetried ["outcome", "requested_by"]
        pure (some settled)

/-- Attempt one item; nothing when it was not claimable or failed. -/
def retryItem (itemId : String) : Async (Option ReconciliationItem) :=
  Async.recover (Async.withSession (.retryItem itemId) (attempt settings itemId))
    fun raised => do
      if raised.isInstance .retryableSettlementError then
        markRetryable settings itemId raised.errorCode
        pure none
      else if raised.isInstance .retryExhaustedError then
        markFailed itemId "retry_exhausted"
        pure none
      else if raised.isInstance .payzenoLedgerError then
        markFailed itemId raised.errorCode
        pure none
      else throw raised

/-- The items one after the other; what is counted are the settled ones. -/
def drainAll : List String → Nat → Async Nat
  | [], settled => pure settled
  | itemId :: itemIds, settled => do
      let item ← retryItem settings itemId
      drainAll itemIds (if item.isSome then settled + 1 else settled)

/-- Work through the retryable backlog, oldest `next_attempt_at` first. -/
def drain (limit : Nat) : Async Nat := do
  let itemIds ← Async.withSession .retryList
    (ReconciliationItemRepository.listRetryableIds limit)
  drainAll settings itemIds 0

end RetryScheduler

/-! ## The manual match -/

/-- Attach a matched charge to an item, with everything settlement reads off it. -/
def applyMatch (item : ReconciliationItem) (charge : SettlementCharge)
    (method : MatchMethod) : ReconciliationItem :=
  let matched :=
    { item with
      chargeId := some charge.chargeId
      matchMethod := method
      merchantId := match item.merchantId with
        | none => some charge.merchantId
        | some merchantId => some merchantId }
  if item.lineType = .sale then
    let expected := { matched with expectedGrossMinor := some charge.amountMinor }
    { expected with varianceMinor := expected.computeVarianceMinor }
  else matched

theorem applyMatch_chargeId (item : ReconciliationItem) (charge : SettlementCharge)
    (method : MatchMethod) : (applyMatch item charge method).chargeId = charge.chargeId := by
  simp only [applyMatch]
  by_cases hsale : item.lineType = .sale
  · rw [if_pos hsale]
  · rw [if_neg hsale]

/-- The merchant comes from the charge when the line did not name one. -/
theorem applyMatch_merchantId (item : ReconciliationItem) (charge : SettlementCharge)
    (method : MatchMethod) :
    (applyMatch item charge method).merchantId =
      some (item.merchantId.getD charge.merchantId) := by
  have hmerchant : (match item.merchantId with
      | none => some charge.merchantId
      | some merchantId => some merchantId) =
      some (item.merchantId.getD charge.merchantId) := by
    cases item.merchantId <;> rfl
  simp only [applyMatch]
  by_cases hsale : item.lineType = .sale
  · rw [if_pos hsale]
    exact hmerchant
  · rw [if_neg hsale]
    exact hmerchant

theorem applyMatch_settledTransactionId (item : ReconciliationItem) (charge : SettlementCharge)
    (method : MatchMethod) :
    (applyMatch item charge method).settledTransactionId = item.settledTransactionId := by
  simp only [applyMatch]
  by_cases hsale : item.lineType = .sale
  · rw [if_pos hsale]
  · rw [if_neg hsale]

theorem applyMatch_line (item : ReconciliationItem) (charge : SettlementCharge)
    (method : MatchMethod) : (applyMatch item charge method).line = item.line := by
  simp only [applyMatch]
  by_cases hsale : item.lineType = .sale
  · rw [if_pos hsale]
    rfl
  · rw [if_neg hsale]
    rfl

/-- `POST /internal/v1/ops/items/{item_id}/match`. -/
def manualMatch (itemId chargeId : String) : Async ReconciliationItem :=
  Async.withSession (.manualMatch itemId) do
    let item ← ReconciliationItemRepository.getOrRaise itemId
    if item.status = .settled then
      throw (ledgerError .validationError
        "item is already settled; re-matching would orphan its transaction"
        [("item_id", .text itemId),
         ("settled_transaction_id", Json.optional item.settledTransactionId)])
    else
      Async.mark (.unlocked item .pending (some chargeId))
      -- The strategy's lookup flushes the operator's choice.
      let chosen := { item with chargeId := some chargeId }
      item.flush chosen
      let charge ← SettlementChargeRepository.getOrRaise chargeId
      Async.mark (.matching item charge)
      let pending := { applyMatch chosen charge .manual with status := .pending }
      chosen.flush pending
      pure pending

end PayzenoLedger
