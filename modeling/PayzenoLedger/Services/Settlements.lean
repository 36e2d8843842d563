import PayzenoLedger.Domain.Dates
import PayzenoLedger.Services.Matching

/-!
# Settlement batches and their import

The two ways by which reconciliation items come into being: the import of an
acquirer's file, in one transaction that appends and one that closes, and the
records that the Java service pushes.  A batch that nobody closed is closed by
age.
-/

set_option autoImplicit false

namespace PayzenoLedger

open Library

/-! ## File references -/

/-- The batch's `file_reference`: per currency, per day before. -/
def fileReferenceFor (acquirer : String) (processingDate : Date) (currency : Option String) :
    String :=
  let base := acquirer ++ "-" ++ Date.isoformat processingDate
  match currency with
  | none => base
  | some currency => base ++ "-" ++ currency

/-- `DUPLICATE_LINE_WINDOW_DAYS`. -/
def duplicateLineWindowDays : Nat := 7

/-! ## Queries -/

namespace SettlementBatchRepository

def findByFile (acquirer fileReference : String) : Async (Option SettlementBatch) :=
  Async.get .settlementBatch (.batchFile acquirer fileReference)

/-- Batches in one status, oldest processing date first. -/
def listByStatus (status : BatchStatus) : Async (List SettlementBatch) :=
  Async.select fun db =>
    (db.batches.filter fun batch => batch.status = status).insertionSort
      fun first second => first.processingDate ≤ second.processingDate

end SettlementBatchRepository

/-- Aggregate of one batch's items. -/
structure BatchTotals where
  itemCount : Int
  netMinor : Int
deriving DecidableEq, Repr

namespace ReconciliationItemRepository

def ofBatch (batchId : String) (items : List ReconciliationItem) : List ReconciliationItem :=
  items.filter fun item => item.batchId = batchId

/-- Sum a batch's lines. -/
def totalsForBatch (batchId : String) (items : List ReconciliationItem) : BatchTotals where
  itemCount := (ofBatch batchId items).length
  netMinor := ((ofBatch batchId items).map (·.netMinor)).sum

/-- The acquirer references a batch already holds. -/
def acquirerReferencesForBatch (batchId : String) (db : Database) : List String :=
  (ofBatch batchId db.items).map (·.acquirerReference)

/-- The acquirer references of all files of one acquirer and currency around a date. -/
def acquirerReferencesFiled (acquirer currency : String) (around : Date) (db : Database) :
    List String :=
  (db.items.filter fun item => db.batches.any fun batch =>
    batch.id = item.batchId ∧ batch.acquirer = acquirer ∧ batch.currency = currency ∧
      around - duplicateLineWindowDays ≤ batch.processingDate ∧
      batch.processingDate ≤ around + duplicateLineWindowDays).map (·.acquirerReference)

/-- Which of the references some other file from this acquirer already carried. -/
def acquirerReferencesAlreadyFiled (acquirer currency : String) (around : Date)
    (references : List String) (db : Database) : List String :=
  (acquirerReferencesFiled acquirer currency around db).filter (references.contains ·)

end ReconciliationItemRepository

/-! ## The settlement service -/

/-- One record that the Java service pushes.  The currency is required there. -/
structure LegacySettlementRecord where
  acquirerReference : String
  networkReference : Option String
  lineType : LineType
  grossMinor : Int
  feeMinor : Int
  interchangeMinor : Int
  schemeFeeMinor : Int
  netMinor : Int
  currency : String
  merchantId : Option String
deriving DecidableEq, Repr

/-- An item as the importers create it. -/
def importedItem (batch : SettlementBatch) (line : ParsedSettlementLine)
    (merchantId : Option String) (id : String) (nextAttemptAt createdAt : Instant) :
    ReconciliationItem where
  id := id
  batchId := batch.id
  chargeId := none
  merchantId := merchantId
  lineType := line.lineType
  grossMinor := line.grossMinor
  feeMinor := line.feeMinor
  interchangeMinor := line.interchangeMinor
  schemeFeeMinor := line.schemeFeeMinor
  netMinor := line.netMinor
  expectedGrossMinor := none
  varianceMinor := 0
  currency := line.currency
  acquirer := batch.acquirer
  acquirerReference := line.acquirerReference
  networkReference := line.networkReference
  matchMethod := .unmatched
  matchedAt := none
  status := .pending
  attemptCount := 0
  lastErrorCode := none
  lastAttemptAt := none
  nextAttemptAt := nextAttemptAt
  settledTransactionId := none
  livemode := batch.livemode
  createdAt := createdAt

/-- The line that a pushed record stands for. -/
def LegacySettlementRecord.line (record : LegacySettlementRecord) : ParsedSettlementLine where
  acquirerReference := record.acquirerReference
  networkReference := record.networkReference
  lineType := record.lineType
  grossMinor := record.grossMinor
  feeMinor := record.feeMinor
  interchangeMinor := record.interchangeMinor
  schemeFeeMinor := record.schemeFeeMinor
  netMinor := record.netMinor
  currency := record.currency.toUpper

def BatchStatus.toString : BatchStatus → String
  | .opened => "open"
  | .closed => "closed"
  | .partiallyReconciled => "partially_reconciled"
  | .reconciled => "reconciled"
  | .funded => "funded"

namespace SettlementService

def newBatch (id acquirer currency : String) (processingDate : Date)
    (fileReference : String) : SettlementBatch where
  id := id
  currency := currency
  processingDate := processingDate
  acquirer := acquirer
  fileReference := fileReference
  expectedTotalMinor := 0
  postedTotalMinor := 0
  fundedAmountMinor := 0
  fundingEventId := none
  itemCount := 0
  status := .opened
  closedAt := none
  reconciledAt := none
  fundedAt := none
  livemode := true

/-- Create the batch, or return the existing one for this file. -/
def openBatch (acquirer currency : String) (processingDate : Date) (fileReference : String) :
    Async SettlementBatch := do
  match ← SettlementBatchRepository.findByFile acquirer fileReference with
  | some existing => pure existing
  | none =>
      let id ← Async.mintId "sb"
      let batch := newBatch id acquirer currency processingDate fileReference
      Async.add .settlementBatch batch
      pure batch

/-- The batch an earlier import opened for this acquirer, date and currency. -/
def findImportedBatch (acquirer : String) (processingDate : Date) (currency : String) :
    Async (Option SettlementBatch) := do
  let perCurrency ← SettlementBatchRepository.findByFile acquirer
    (fileReferenceFor acquirer processingDate (some currency))
  match perCurrency.filter fun batch => batch.currency = currency with
  | some batch => pure (some batch)
  | none =>
      let perDay ← SettlementBatchRepository.findByFile acquirer
        (fileReferenceFor acquirer processingDate none)
      pure (perDay.filter fun batch => batch.currency = currency)

def batchClosedPayload (batch : SettlementBatch) (stamp : Instant) : List (String × Json) :=
  [("batch_id", .text batch.id), ("acquirer", .text batch.acquirer),
   ("currency", .text batch.currency),
   ("processing_date", .text (Date.isoformat batch.processingDate)),
   ("item_count", .int batch.itemCount),
   ("expected_total_minor", .int batch.expectedTotalMinor), ("closed_at", .instant stamp)]

/-- The batch with its totals frozen. -/
def closedWith (batch : SettlementBatch) (totals : BatchTotals) (stamp : Instant) :
    SettlementBatch :=
  { batch with
    itemCount := totals.itemCount
    expectedTotalMinor := totals.netMinor
    status := .closed
    closedAt := some stamp }

/-- Close an open batch and announce it. -/
def closeBatch (batchId : String) : Async SettlementBatch := do
  let batch ← Async.getOrRaise .settlementBatch (.batch batchId)
    (ledgerError .batchNotFoundError ("settlement batch " ++ batchId ++ " not found")
      [("batch_id", .text batchId)])
  if batch.status ≠ .opened then
    throw (ledgerError .batchNotReconcilableError
      ("batch " ++ batchId ++ " is " ++ batch.status.toString ++ ", not open")
      [("batch_id", .text batchId), ("status", .text batch.status.toString)])
  else
    let items ← Async.select fun db => db.items
    Async.mark (.closing batchId
      ((ReconciliationItemRepository.ofBatch batchId items).map (·.id)))
    let totals := ReconciliationItemRepository.totalsForBatch batchId items
    let stamp ← Async.now
    let closed := closedWith batch totals stamp
    batch.flush closed
    let eventId ← Async.mintId "evt"
    OutboxPublisher.stage eventId "settlement.batch_closed" (batchClosedPayload closed stamp)
      none closed.id closed.livemode
    pure closed

/-- The items of the records that the batch does not have yet. -/
def recordItems (batch : SettlementBatch) (existing : List String) (createdAt : Instant) :
    List LegacySettlementRecord → Async (List ReconciliationItem)
  | [] => pure []
  | record :: records => do
      if existing.contains record.acquirerReference then
        recordItems batch existing createdAt records
      else
        let id ← Async.mintId "ri"
        let nextAttemptAt ← Async.now
        let items ← recordItems batch existing createdAt records
        pure (importedItem batch record.line record.merchantId id nextAttemptAt createdAt ::
          items)

/-- The Java service's push path. -/
def importLegacyRecords (acquirer : String) (processingDate : Date) (fileReference : String)
    (records : List LegacySettlementRecord) : Async (String × Nat) := do
  match records with
  | [] =>
      throw (ledgerError .validationError "settlement import carried no records"
        [("acquirer", .text acquirer)])
  | first :: _ =>
      let batch ← openBatch acquirer first.currency.toUpper processingDate fileReference
      if batch.status ≠ .opened then
        -- A re-push of a file whose batch has already closed.
        pure (batch.id, 0)
      else
        let existing ← Async.select fun db =>
          ReconciliationItemRepository.acquirerReferencesForBatch batch.id db
        let createdAt ← Async.transactionTime
        let items ← recordItems batch existing createdAt records
        Async.addAll .reconciliationItem items
        let _ ← matchItems matchStrategies items
        pure (batch.id, items.length)

end SettlementService

/-! ## The import service -/

namespace SettlementImportService

def buildItems (batch : SettlementBatch) (stamp createdAt : Instant) :
    List ParsedSettlementLine → Async (List ReconciliationItem)
  | [] => pure []
  | line :: lines => do
      let id ← Async.mintId "ri"
      let items ← buildItems batch stamp createdAt lines
      pure (importedItem batch line none id stamp createdAt :: items)

/-- The lines of a file that the importer takes; another currency's lines are
picked up by its own request. -/
def requestedLines (currency : Option String) (file : List ParsedSettlementLine) :
    List ParsedSettlementLine :=
  match currency with
  | none => file
  | some currency => file.filter fun line => line.currency = currency

/-- The lines whose references are not among these. -/
def unfiled (references : List String) (lines : List ParsedSettlementLine) :
    List ParsedSettlementLine :=
  lines.filter fun line => !references.contains line.acquirerReference

/-- The lines left for a per-currency import, less what other files carried. -/
def withoutFiled (acquirer : String) (processingDate : Date) (currency : Option String)
    (lines : List ParsedSettlementLine) : Async (List ParsedSettlementLine) := do
  match currency with
  | none => pure lines
  | some currency =>
      if lines.isEmpty then pure lines
      else
        let filed ← Async.select fun db =>
          ReconciliationItemRepository.acquirerReferencesAlreadyFiled acquirer currency
            processingDate (lines.map (·.acquirerReference)) db
        pure (unfiled filed lines)

/-- The transaction that opens the batch and appends what it does not have yet. -/
def appendLines (acquirer : String) (processingDate : Date) (currency : Option String)
    (parsed : List ParsedSettlementLine) : Async SettlementBatch :=
  Async.withSession (.importItems acquirer processingDate currency parsed) do
    let batchCurrency := currency.getD ((parsed.head?.map (·.currency)).getD "USD")
    let batch ← SettlementService.openBatch acquirer batchCurrency processingDate
      (fileReferenceFor acquirer processingDate currency)
    if batch.status ≠ .opened then pure batch
    else
      -- An open batch with items is an import that stopped before closing.
      let existing ← Async.select fun db =>
        ReconciliationItemRepository.acquirerReferencesForBatch batch.id db
      let lines ← withoutFiled acquirer processingDate currency (unfiled existing parsed)
      let stamp ← Async.now
      let createdAt ← Async.transactionTime
      let items ← buildItems batch stamp createdAt lines
      Async.addAll .reconciliationItem items
      let _ ← matchItems matchStrategies items
      pure batch

/-- Import one file: fetch it, append its lines, close its batch. -/
def importFetched (acquirer : String) (processingDate : Date) (currency : Option String) :
    Async (Option SettlementBatch) := do
  match ← Async.call (.fetchSettlementFile acquirer processingDate currency) with
  | .error raised => throw raised
  | .ok file =>
      let parsed := requestedLines currency file
      if parsed.isEmpty ∧ currency.isSome then pure none
      else
        let batch ← appendLines acquirer processingDate currency parsed
        if batch.status ≠ .opened then pure (some batch)
        else
          let closed ← Async.withSession (.importClose batch.id)
            (SettlementService.closeBatch batch.id)
          pure (some closed)

/-- Import one acquirer file; with a currency, that currency's file only. -/
def importFile (acquirer : String) (processingDate : Date) (currency : Option String) :
    Async (Option SettlementBatch) := do
  match currency with
  | none => importFetched acquirer processingDate none
  | some code =>
      let done ← Async.withSession (.importFind acquirer processingDate code)
        (SettlementService.findImportedBatch acquirer processingDate code)
      match done.filter fun batch => batch.status ≠ .opened with
      | some batch => pure (some batch)
      | none => importFetched acquirer processingDate (some code)

end SettlementImportService

/-! ## Closing by age -/

namespace BatchCloseJob

/-- `MAX_OPEN_HOURS`, in microseconds. -/
def maxOpen : Nat := 6 * 3600000000

/-- `BATCH_SIZE`. -/
def batchSize : Nat := 50

/-- Close each stale batch in its own transaction. -/
def closeEach : List String → Async Nat
  | [] => pure 0
  | batchId :: batchIds => do
      let closed ← Async.recover
        (do let _ ← Async.withSession (.closeBatch batchId)
              (SettlementService.closeBatch batchId)
            pure 1)
        fun raised =>
          if raised.isInstance .payzenoLedgerError then pure 0 else throw raised
      let rest ← closeEach batchIds
      pure (closed + rest)

/-- Close the batches that have been open for too long. -/
def runOnce : Async Nat := do
  let stale ← Async.withSession .staleBatches do
    let instant ← Async.now
    let cutoff := Instant.date (instant - maxOpen)
    let batches ← SettlementBatchRepository.listByStatus .opened
    pure (((batches.take batchSize).filter fun batch => batch.processingDate ≤ cutoff).map
      (·.id))
  closeEach stale

end BatchCloseJob

end PayzenoLedger
