import PayzenoLedger.Ledger.Posting
import PayzenoLedger.Library.Histories
import PayzenoLedger.Settlement.Flushes

/-!
# What the transactions of the settlement commit

Sweeps, retries and manual matches run side by side, in any number.
`SettlementCommit` says what any of their transactions does when it commits, and
under which lock.  `SettlementRules` are the checks that a property of all runs
comes down to: one for each kind of shared step.
-/

set_option autoImplicit false

namespace PayzenoLedger

open Library Write

inductive SettlementJob where
  | sweep (batchId trigger : String) (maxItems : Nat)
  | retry (itemId : String)
  | manualMatch (itemId chargeId : String)

def SettlementJob.run (settings : Settings) : SettlementJob → Async Unit
  | .sweep batchId trigger maxItems => do
      let _ ← ReconciliationService.reconcileBatch settings batchId trigger maxItems
  | .retry itemId => do
      let _ ← RetryScheduler.retryItem settings itemId
  | .manualMatch itemId chargeId => do
      let _ ← PayzenoLedger.manualMatch itemId chargeId

/-- One worker for each job. -/
def settlementWorkers (settings : Settings) (jobs : List SettlementJob) :
    List (Program system (Except Exception Unit)) :=
  jobs.map fun job => (job.run settings).run

/-! ## The captures of a worker -/

/-- What the acquirer answered to the deferred captures of one worker, by item: to those
of its open transaction, to those of the transactions that have ended, and to those of each
transaction that it committed. -/
structure CaptureLog where
  pending : List (String × Except Exception CaptureResponse) := []
  ended : List (String × Except Exception CaptureResponse) := []
  committed : List (SessionName × List (String × Except Exception CaptureResponse)) := []

/-- The transaction ends, and its captures with it. -/
def CaptureLog.settle (log : CaptureLog) : CaptureLog :=
  { log with pending := [], ended := log.ended ++ log.pending }

def CaptureLog.step (log : CaptureLog) : Event system → CaptureLog
  | .began _ => log
  | .rolledBack _ => log.settle
  | .crashed => log.settle
  | .committed name _ =>
      { log.settle with committed := log.committed ++ [(name, log.pending)] }
  | .called (.captureDeferred _ _ _ _ _ (some itemId)) reply =>
      { log with pending := log.pending ++ [(itemId, reply)] }
  | .called (.captureDeferred _ _ _ _ _ none) _ => log
  | .called (.confirmSettlement ..) _ => log
  | .called (.captureStatus ..) _ => log
  | .called (.fxRates ..) _ => log
  | .called (.fetchSettlementFile ..) _ => log
  | .called (.increment ..) _ => log
  | .called (.countDuplicate ..) _ => log

def captureLog (events : List (Event system)) : CaptureLog :=
  events.foldl CaptureLog.step {}

theorem captureLog_append (events : List (Event system)) (event : Event system) :
    captureLog (events ++ [event]) = (captureLog events).step event := by
  simp [captureLog]

/-- The answers to the captures of the worker's open transaction. -/
def pendingCaptures (worker : Nat) (shared : Shared system) :
    List (String × Except Exception CaptureResponse) :=
  (captureLog (shared.eventsOf worker)).pending

theorem pendingCaptures_rely {D : Discipline system} {worker : Nat} {held : Lock system → Prop}
    {shared shared' : Shared system} (rely : D.Rely worker held shared shared') :
    pendingCaptures worker shared' = pendingCaptures worker shared := by
  unfold pendingCaptures
  rw [rely.events]

/-- An event that is neither a commit nor a capture. -/
def Quiet : Event system → Prop
  | .committed _ _ => False
  | .called (.captureDeferred ..) _ => False
  | _ => True

theorem pendingCaptures_called {request : Request} {reply : request.Reply}
    (quiet : Quiet (.called request reply)) (worker : Nat) (shared : Shared system)
    (world : World) : pendingCaptures worker (shared.answer worker world request reply) =
      pendingCaptures worker shared := by
  unfold pendingCaptures
  rw [Shared.eventsOf_answer, captureLog_append]
  cases request with
  | captureDeferred => cases quiet
  | _ => rfl

@[simp]
theorem pendingCaptures_began (worker : Nat) (shared : Shared system) (name : SessionName) :
    pendingCaptures worker (shared.log worker (.began name)) = pendingCaptures worker shared := by
  unfold pendingCaptures
  rw [Shared.eventsOf_log, captureLog_append]
  rfl

@[simp]
theorem pendingCaptures_rolledBack (worker : Nat) (shared : Shared system) (name : SessionName) :
    pendingCaptures worker (shared.log worker (.rolledBack name)) = [] := by
  unfold pendingCaptures
  rw [Shared.eventsOf_log, captureLog_append]
  rfl

@[simp]
theorem pendingCaptures_commit (worker : Nat) (shared : Shared system) (top : Session system) :
    pendingCaptures worker (shared.commit worker top) = [] := by
  unfold pendingCaptures
  rw [Shared.eventsOf_commit, captureLog_append]
  rfl

/-- The writes enter the `settle` transaction of the item. -/
def SettleWritten (itemId : String) (writes : List (Write schema)) : Prop :=
  ∃ header : LedgerTransaction, Write.insert Table.ledgerTransaction header ∈ writes ∧
    header.purpose = .settle ∧ header.referenceType = .reconciliationItem ∧
    header.referenceId = itemId

/-- What the acquirer answered to a capture of a transaction that settles its item. -/
def Answered (itemId : String) (answer : Except Exception CaptureResponse)
    (writes : List (Write schema)) : Prop :=
  (∃ response, answer = .ok response) ∧ SettleWritten itemId writes

theorem Answered.mono {itemId : String} {answer : Except Exception CaptureResponse}
    {writes writes' : List (Write schema)} (answered : Answered itemId answer writes)
    (h : ∀ write ∈ writes, write ∈ writes') : Answered itemId answer writes' := by
  obtain ⟨hok, header, hheader, hsettles⟩ := answered
  exact ⟨hok, header, h _ hheader, hsettles⟩

/-- Every capture of the worker's open transaction was answered, and its item is settled in
that transaction. -/
def CapturesAnswered (worker : Nat) (top : Session system) (shared : Shared system) : Prop :=
  ∀ asked ∈ pendingCaptures worker shared, Answered asked.1 asked.2 top.writes

section CapturesAnswered

variable {worker : Nat} {top top' : Session system} {shared shared' : Shared system}

theorem CapturesAnswered.nil (hidle : pendingCaptures worker shared = []) :
    CapturesAnswered worker top shared := by
  simp [CapturesAnswered, hidle]

theorem CapturesAnswered.later (answered : CapturesAnswered worker top shared)
    (hpending : pendingCaptures worker shared' = pendingCaptures worker shared)
    (hwrites : ∀ write ∈ top.writes, write ∈ top'.writes) :
    CapturesAnswered worker top' shared' := by
  intro asked hasked
  rw [hpending] at hasked
  exact (answered asked hasked).mono hwrites

end CapturesAnswered

/-! ## The pass of a worker -/

/-- How far the pass of a worker has come: the batch whose items it listed, until it is closed
out; of the items, until they are announced, those whose transaction committed, each with whether
it wrote anything, and how many were rolled back; and whether the guard has committed. -/
structure PassLog where
  batch : Option String := none
  handled : List (String × Bool) := []
  failed : Nat := 0
  swept : Bool := false
deriving DecidableEq, Repr

def PassLog.step (log : PassLog) : Event system → PassLog
  | .began (.sweepGuard _) => {}
  | .began (.sweepRead batchId _) => { log with batch := some batchId, swept := false }
  | .committed (.sweepItem itemId) writes =>
      { log with handled := log.handled ++ [(itemId, !writes.isEmpty)] }
  | .rolledBack (.sweepItem _) => { log with failed := log.failed + 1 }
  | .committed (.sweepGuard _) _ => { log with swept := true }
  | .rolledBack (.sweepRead ..) | .rolledBack (.sweepGuard _) | .rolledBack (.sweepFinish _)
  | .committed (.sweepFinish _) _ | .crashed => { log with batch := none }
  | .committed (.sweepPublish _) _ => {}
  | _ => log

def passLog (events : List (Event system)) : PassLog :=
  events.foldl PassLog.step {}

theorem passLog_append (events : List (Event system)) (event : Event system) :
    passLog (events ++ [event]) = (passLog events).step event := by
  simp [passLog]

/-- The counters of a pass are those of the items that it handled. -/
structure Tally (stats : ReconcilePassStats) (log : PassLog)
    (handled : List ReconciliationItem) : Prop where
  ids : log.handled.map (·.1) = handled.map (·.id)
  failed : stats.failed = log.failed
  settled : stats.settled = handled.length
  posted : stats.postedTotalMinor = (handled.map (·.netMinor)).sum
  charges : stats.settledChargeIds = handled.filterMap (·.chargeId)

namespace Tally

variable {stats : ReconcilePassStats} {log : PassLog} {handled : List ReconciliationItem}

/-- One more item handled. -/
theorem handles (tally : Tally stats log handled) (item : ReconciliationItem)
    (writes : List (Write schema)) :
    Tally (stats.countSettled item) (log.step (.committed (.sweepItem item.id) writes))
      (handled ++ [item]) where
  ids := by simp [PassLog.step, tally.ids]
  failed := tally.failed
  settled := by simp [ReconcilePassStats.countSettled, tally.settled]
  posted := by simp [ReconcilePassStats.countSettled, tally.posted]
  charges := by
    rw [List.filterMap_append, ← tally.charges]
    cases h : item.chargeId <;> simp [ReconcilePassStats.countSettled, h]

/-- One more item failed. -/
theorem fails (tally : Tally stats log handled) (id : String) {stats' : ReconcilePassStats}
    (hfailed : stats'.failed = stats.failed + 1) (hsettled : stats'.settled = stats.settled)
    (hposted : stats'.postedTotalMinor = stats.postedTotalMinor)
    (hcharges : stats'.settledChargeIds = stats.settledChargeIds) :
    Tally stats' (log.step (.rolledBack (.sweepItem id))) handled where
  ids := tally.ids
  failed := by
    rw [hfailed, tally.failed]
    simp [PassLog.step]
  settled := hsettled.trans tally.settled
  posted := hposted.trans tally.posted
  charges := hcharges.trans tally.charges

end Tally

/-- The tables that the settlement writes. -/
def Table.isSettlement : Table → Bool
  | account | ledgerTransaction | ledgerEntry | merchantBalanceCache | eventOutbox
  | settlementBatch | reconciliationRun | reconciliationItem => true
  | fundingEvent | settlementCharge | merchantProjection | captureAttempt
  | bankAccountProjection | payout | reserveHold | ledgerAdjustmentRequest => false

/-- The tables that a pass reports to. -/
def Table.isReport : Table → Bool
  | eventOutbox | reconciliationRun => true
  | _ => false

/-- The writes enter these ledger transactions. -/
def Posts (headers : List LedgerTransaction) (writes : List (Write schema)) : Prop :=
  ∀ db : Database, (applyAll writes db : Database).transactions =
    db.transactions ++ headers

/-- The writes stage these events. -/
def Stages (events : List EventOutbox) (writes : List (Write schema)) : Prop :=
  ∀ db : Database, (applyAll writes db : Database).outbox = db.outbox ++ events

/-- The writes stage no announcement of a pass. -/
def Silent (writes : List (Write schema)) : Prop :=
  ∃ events, Stages events writes ∧ ∀ event ∈ events, event.type ≠ "settlement.completed"

/-- The `settle` transactions of an item. -/
def settlementsOf (itemId : String) (db : Database) : List LedgerTransaction :=
  db.transactions.filter fun transaction =>
    transaction.purpose = .settle ∧ transaction.referenceType = .reconciliationItem ∧
      transaction.referenceId = itemId

/-- The settlement of an item that is on file, under the item's own key. -/
structure SettleHeader (header : LedgerTransaction) (db : Database) : Prop where
  purpose : header.purpose = .settle
  referenceType : header.referenceType = .reconciliationItem
  key : ∃ batchId, HasItem header.referenceId batchId db ∧
    ledgerKey "settle" batchId header.referenceId = .ok header.idempotencyKey

theorem SettleHeader.grow {header : LedgerTransaction} {db db' : Database}
    (settles : SettleHeader header db) (grows : Schema.Extends (S := schema) db db') :
    SettleHeader header db' := by
  obtain ⟨batchId, has, hkey⟩ := settles.key
  exact ⟨settles.purpose, settles.referenceType, batchId, has.grow grows, hkey⟩

/-- A change of an item that leaves what it is matched to. -/
def KeepsMatch (change : ReconciliationItem → ReconciliationItem) : Prop :=
  ∀ item, (change item).chargeId = item.chargeId ∧ (change item).merchantId = item.merchantId

/-- What the writes of a settlement do, to items and to the ledger. -/
structure SettlementWrites (id : String) (writes : List (Write schema)) (db : Database) :
    Prop where
  tables : ∀ write ∈ writes, write.table.isSettlement = true
  batches : ∀ write ∈ writes, write.table ≠ Table.settlementBatch
  rewrites : ∃ change, Rewrites id change writes ∧ KeepsItem change ∧ KeepsMatch change
  posts : ∃ headers, Posts headers writes ∧ ∀ header ∈ headers, SettleHeader header db
  silent : Silent writes

theorem Posts.append {headers more : List LedgerTransaction}
    {writes writes' : List (Write schema)} (first : Posts headers writes)
    (second : Posts more writes') : Posts (headers ++ more) (writes ++ writes') := by
  intro db
  rw [applyAll_append, second, first, List.append_assoc]

theorem Stages.append {events more : List EventOutbox} {writes writes' : List (Write schema)}
    (first : Stages events writes) (second : Stages more writes') :
    Stages (events ++ more) (writes ++ writes') := by
  intro db
  rw [applyAll_append, second, first, List.append_assoc]

theorem Stages.nil {writes : List (Write schema)}
    (hwrites : ∀ write ∈ writes, write.table ≠ Table.eventOutbox) : Stages [] writes := by
  intro db
  have hsame := rows_applyAll_of_ne writes Table.eventOutbox
    (fun write hwrite h => hwrites write hwrite h.symm) db
  exact hsame.trans (List.append_nil _).symm

theorem Stages.insert (event : EventOutbox) :
    Stages [event] [.insert Table.eventOutbox event] := fun _ => rfl

theorem Stages.silent {writes : List (Write schema)} (stages : Stages [] writes) :
    Silent writes :=
  ⟨[], stages, by simp⟩

theorem Silent.append {writes writes' : List (Write schema)} (first : Silent writes)
    (second : Silent writes') : Silent (writes ++ writes') := by
  obtain ⟨events, hstages, hevents⟩ := first
  obtain ⟨more, hstages', hmore⟩ := second
  refine ⟨_, hstages.append hstages', fun event hevent => ?_⟩
  exact (List.mem_append.mp hevent).elim (hevents event) (hmore event)

theorem Silent.insert {event : EventOutbox} (htype : event.type ≠ "settlement.completed") :
    Silent [.insert Table.eventOutbox event] := by
  refine ⟨_, Stages.insert event, fun other hother => ?_⟩
  rw [List.mem_singleton.mp hother]
  exact htype

namespace SettlementWrites

variable {id : String} {writes more : List (Write schema)} {db db' : Database}

theorem grow (w : SettlementWrites id writes db)
    (grows : Schema.Extends (S := schema) db db') : SettlementWrites id writes db' where
  tables := w.tables
  batches := w.batches
  rewrites := w.rewrites
  posts := by
    obtain ⟨headers, hposts, hheaders⟩ := w.posts
    exact ⟨headers, hposts, fun header hheader => (hheaders header hheader).grow grows⟩
  silent := w.silent

theorem append (first : SettlementWrites id writes db)
    (second : SettlementWrites id more db) : SettlementWrites id (writes ++ more) db where
  tables write hwrite :=
    (List.mem_append.mp hwrite).elim (first.tables write) (second.tables write)
  batches write hwrite :=
    (List.mem_append.mp hwrite).elim (first.batches write) (second.batches write)
  rewrites := by
    obtain ⟨change, hchange, hkeeps, hmatch⟩ := first.rewrites
    obtain ⟨change', hchange', hkeeps', hmatch'⟩ := second.rewrites
    refine ⟨_, hchange.append hchange' hkeeps, fun item => ?_, fun item => ?_⟩
    · exact ⟨(hkeeps' _).1.trans (hkeeps item).1, (hkeeps' _).2.trans (hkeeps item).2⟩
    · exact ⟨(hmatch' _).1.trans (hmatch item).1, (hmatch' _).2.trans (hmatch item).2⟩
  posts := by
    obtain ⟨headers, hposts, hheaders⟩ := first.posts
    obtain ⟨headers', hposts', hheaders'⟩ := second.posts
    refine ⟨_, hposts.append hposts', fun header hheader => ?_⟩
    exact (List.mem_append.mp hheader).elim (hheaders header) (hheaders' header)
  silent := first.silent.append second.silent

/-- Writes to the outbox and the runs. -/
theorem of_report (hwrites : ∀ write ∈ writes, write.table.isReport = true)
    (silent : Silent writes) : SettlementWrites id writes db where
  tables write hwrite := by
    have htable := hwrites write hwrite
    revert htable
    cases write.table <;> simp [Table.isReport, Table.isSettlement]
  batches write hwrite h := by
    have htable := hwrites write hwrite
    rw [h] at htable
    cases htable
  rewrites := by
    refine ⟨fun item => item, fun db => ?_, fun _ => ⟨rfl, rfl⟩, fun _ => ⟨rfl, rfl⟩⟩
    have hsame := rows_applyAll_of_ne writes Table.reconciliationItem (fun write hwrite h => by
      have htable := hwrites write hwrite
      rw [← h] at htable
      cases htable) db
    exact hsame.trans (by simp [Table.rows])
  posts := by
    refine ⟨[], fun db => ?_, by simp⟩
    have hsame := rows_applyAll_of_ne writes Table.ledgerTransaction (fun write hwrite h => by
      have htable := hwrites write hwrite
      rw [← h] at htable
      cases htable) db
    exact hsame.trans (List.append_nil _).symm
  silent := silent

theorem nil : SettlementWrites id [] db :=
  .of_report (by simp) (Stages.nil (by simp)).silent

end SettlementWrites

/-! ## Commits -/

/-- The item that a transaction of this name is there to settle. -/
def SessionName.itemSettled : SessionName → Option String
  | .sweepItem itemId => some itemId
  | .retryItem itemId => some itemId
  | _ => none

/-- The transactions that a pass ends with. -/
def SessionName.closesPass : SessionName → Bool
  | .sweepGuard _ | .sweepFinish _ | .sweepPublish _ => true
  | _ => false

theorem SessionName.ne_sweepGuard {name : SessionName} (h : name.closesPass = false)
    (batchId : String) : name ≠ .sweepGuard batchId := by
  rintro rfl
  cases h

theorem SessionName.ne_sweepFinish {name : SessionName} (h : name.closesPass = false)
    (batchId : String) : name ≠ .sweepFinish batchId := by
  rintro rfl
  cases h

theorem SessionName.ne_sweepPublish {name : SessionName} (h : name.closesPass = false)
    (batchId : String) : name ≠ .sweepPublish batchId := by
  rintro rfl
  cases h

/-- What the workers know by the rules of a property: of an item under the lock of
its batch, of an item that they read, of a charge that they read, of the matches that
operators make, and of any moment of the run. -/
structure Knowledge where
  Claimed : String → String → Database → Prop
  Listed : ReconciliationItem → Prop
  Found : SettlementCharge → Prop
  Matches : String → String → Prop
  Moment : Shared system → Prop

/-- What a commit does to the items: nothing, or a change of one item under the
lock of its batch, or one made without a lock. -/
inductive ItemChange (settings : Settings) (know : Knowledge) (top : Session system)
    (rest : List (Session system)) (shared : Shared system) : Prop
  | unchanged (id : String) (same : Rewrites id (fun item => item) top.writes)
      (idle : top.name.itemSettled ≠ none → top.writes = [])
  | guarded (id batchId : String) (change : ReconciliationItem → ReconciliationItem)
      (rewrites : Rewrites id change top.writes) (keeps : KeepsItem change)
      (matching : KeepsMatch change)
      (held : Held (top :: rest) (.advisory (AdvisoryLockManager.key settings batchId)))
      (claimed : know.Claimed id batchId shared.committed)
      (has : HasItem id batchId shared.committed)
      (settles : (top.name.itemSettled = some id ∧ ∀ item, (change item).status = .settled) ∨
        (top.name.itemSettled = none ∧
          ∀ item, (change item).status = item.status ∨ (change item).status ≠ .settled))
  | unlocked (loaded : ReconciliationItem) (status : ItemStatus) (chargeId : Option String)
      (change : ReconciliationItem → ReconciliationItem)
      (rewrites : Rewrites loaded.id change top.writes) (keeps : KeepsItem change)
      (marked : Mark.unlocked loaded status chargeId ∈ top.marks)
      (listed : know.Listed loaded)
      (ofName : top.name.itemSettled = none)
      (unsettled : status ≠ .settled)
      (sets : ∀ item, (change item).status = dirty loaded.status status item.status ∧
        (change item).chargeId = dirty loaded.chargeId chargeId item.chargeId ∧
        (change item).settledTransactionId = item.settledTransactionId)
      (matching : KeepsMatch change ∨ top.name = .manualMatch loaded.id ∧
        ∃ charge, Mark.matching loaded charge ∈ top.marks ∧ know.Found charge ∧
          know.Matches loaded.id charge.chargeId ∧ chargeId = some charge.chargeId ∧
          ∀ item, (change item).merchantId =
            dirty loaded.merchantId (some (loaded.merchantId.getD charge.merchantId))
              item.merchantId)

/-- The row of a batch whose columns no update changes are these. -/
def HasBatchFile (loaded : SettlementBatch) (db : Database) : Prop :=
  ∃ batch ∈ db.batches, batch.file = loaded.file

theorem HasBatchFile.grow {loaded : SettlementBatch} {db db' : Database}
    (has : HasBatchFile loaded db) (grows : Schema.Extends (S := schema) db db') :
    HasBatchFile loaded db' := by
  obtain ⟨row, hrow, hfile⟩ := has
  obtain ⟨row', hrow', hident⟩ := grows.survives Table.settlementBatch hrow
  exact ⟨row', hrow', Eq.trans hident hfile⟩

/-- An item on file has this line of the acquirer's file. -/
def HasLine (item : ReconciliationItem) (db : Database) : Prop :=
  ∃ row ∈ db.items, row.line = item.line

theorem HasLine.grow {item : ReconciliationItem} {db db' : Database} (has : HasLine item db)
    (grows : Schema.Extends (S := schema) db db') : HasLine item db' := by
  obtain ⟨row, hrow, hline⟩ := has
  obtain ⟨row', hrow', hident⟩ := grows.survives Table.reconciliationItem hrow
  exact ⟨row', hrow', Eq.trans hident hline⟩

theorem HasLine.hasItem {item : ReconciliationItem} {db : Database} (has : HasLine item db) :
    HasItem item.id item.batchId db := by
  obtain ⟨row, hrow, hline⟩ := has
  exact ⟨row, hrow, congrArg (·.id) hline, congrArg (·.batchId) hline⟩

/-- Items of a batch, as a pass listed them. -/
structure Listing (know : Knowledge) (batchId : String) (items : List ReconciliationItem)
    (db : Database) : Prop where
  distinct : (items.map (·.id)).Nodup
  items : ∀ item ∈ items, item.batchId = batchId ∧ HasLine item db ∧ know.Listed item

section Listing

variable {know : Knowledge} {batchId : String} {items : List ReconciliationItem}
  {db db' : Database}

theorem Listing.grow (listing : Listing know batchId items db)
    (grows : Schema.Extends (S := schema) db db') : Listing know batchId items db' where
  distinct := listing.distinct
  items item hitem := by
    obtain ⟨hbatch, hline, hlisted⟩ := listing.items item hitem
    exact ⟨hbatch, hline.grow grows, hlisted⟩

theorem Listing.sublist {handled : List ReconciliationItem}
    (listing : Listing know batchId items db) (hsub : handled.Sublist items) :
    Listing know batchId handled db where
  distinct := listing.distinct.sublist (hsub.map _)
  items item hitem := listing.items item (hsub.subset hitem)

end Listing

/-- What a worker has of its pass over a batch: the counters and the items it handled. -/
structure Passed (know : Knowledge) (batchId : String) (stats : ReconcilePassStats)
    (log : PassLog) (handled : List ReconciliationItem) (db : Database) : Prop where
  tally : Tally stats log handled
  listing : Listing know batchId handled db

/-- What changes neither the items that were handled nor the count of the others. -/
theorem Passed.same {know : Knowledge} {batchId : String} {stats : ReconcilePassStats}
    {log log' : PassLog} {handled : List ReconciliationItem} {db : Database}
    (passed : Passed know batchId stats log handled db) (hhandled : log'.handled = log.handled)
    (hfailed : log'.failed = log.failed) : Passed know batchId stats log' handled db where
  tally :=
    { passed.tally with
      ids := by rw [hhandled, passed.tally.ids]
      failed := by rw [hfailed, passed.tally.failed] }
  listing := passed.listing

theorem Passed.grow {know : Knowledge} {batchId : String} {stats : ReconcilePassStats}
    {log : PassLog} {handled : List ReconciliationItem} {db db' : Database}
    (passed : Passed know batchId stats log handled db)
    (grows : Schema.Extends (S := schema) db db') :
    Passed know batchId stats log handled db' :=
  ⟨passed.tally, passed.listing.grow grows⟩

/-- The items of a batch that wait to be settled. -/
def waitingItems (batchId : String) (db : Database) : List ReconciliationItem :=
  db.items.filter fun item => item.batchId = batchId ∧ item.status.isRetryable

/-- The pass stopped at an item, its budget used up. -/
def Overran (settings : Settings) (marks : List Mark) : Prop :=
  ∃ started instant, .overran started instant ∈ marks ∧
    settings.reconcileSweepWallBudgetSeconds * 1000000 < instant - started

/-- A guard commits after its pass listed the items of the batch at some time before.  If all that
waited went into the list and none failed, they were handled, unless the budget was used up. -/
structure SweptList (settings : Settings) (know : Knowledge) (worker : Nat) (batchId : String)
    (top : Session system) (shared : Shared system) : Prop where
  batch : (passLog (shared.eventsOf worker)).batch = some batchId
  listed : ∃ past maxItems, Since past shared ∧ know.Moment past ∧
    (past.eventsOf worker).getLast? = some (.began (.sweepRead batchId maxItems)) ∧
    ((passLog (shared.eventsOf worker)).failed = 0 →
      (waitingItems batchId past.committed).length ≤ maxItems → Overran settings top.marks ∨
        ∀ item ∈ waitingItems batchId past.committed,
          item.id ∈ (passLog (shared.eventsOf worker)).handled.map (·.1))

/-- What a commit does to the batches: nothing, or it closes out a pass. -/
inductive BatchChange (know : Knowledge) (worker : Nat) (top : Session system)
    (shared : Shared system) : Prop
  | unchanged (ofName : ∀ batchId, top.name ≠ .sweepFinish batchId)
      (tables : ∀ write ∈ top.writes, write.table ≠ Table.settlementBatch)
  | reconciled (loaded : SettlementBatch) (stats : ReconcilePassStats) (stamp : Instant)
      (handled : List ReconciliationItem) (ofName : top.name = .sweepFinish loaded.id)
      (marked : .reconciling loaded ∈ top.marks) (file : HasBatchFile loaded shared.committed)
      (batch : (passLog (shared.eventsOf worker)).batch = some loaded.id)
      (swept : (passLog (shared.eventsOf worker)).swept = true)
      (passed : Passed know loaded.id stats (passLog (shared.eventsOf worker)) handled
        shared.committed)
      (others : ∀ write ∈ top.writes, write.table ≠ Table.reconciliationItem)
      (rewrites : RewritesBatch loaded.id (SettlementBatch.merge loaded
        (SettlementBatchRepository.reconciledWith loaded stats.postedTotalMinor
          (decide (stats.failed = 0)) stamp)) top.writes)

/-- The events that announce a pass: its charges, chunk by chunk. -/
def Announces (run : ReconciliationRun) (stats : ReconcilePassStats) (batch : SettlementBatch)
    (events : List EventOutbox) : Prop :=
  let chunks := chunk stats.settledChargeIds completionChunkSize
  List.Forall₂ (fun (entry : List String × Nat) event =>
    event.type = "settlement.completed" ∧ ∃ stamp, event.payload =
      ReconciliationService.completedPayload run stats batch entry.1 entry.2 chunks.length stamp)
    chunks.zipIdx events

/-- What a commit does to the outbox: it announces a pass, or no settlement at all. -/
inductive OutboxChange (know : Knowledge) (worker : Nat) (top : Session system)
    (shared : Shared system) : Prop
  | silent (silent : Silent top.writes)
      (ofName : ∀ batchId, top.name = .sweepPublish batchId →
        (passLog (shared.eventsOf worker)).handled = [])
  | announced (run : ReconciliationRun) (stats : ReconcilePassStats) (batch : SettlementBatch)
      (handled : List ReconciliationItem) (events : List EventOutbox)
      (ofName : top.name = .sweepPublish run.batchId)
      (passed : Passed know run.batchId stats (passLog (shared.eventsOf worker)) handled
        shared.committed)
      (stages : Stages events top.writes) (announces : Announces run stats batch events)

/-- What is known of a transaction of the settlement when it commits. -/
structure SettlementCommit (settings : Settings) (know : Knowledge) (worker : Nat)
    (top : Session system) (rest : List (Session system)) (shared : Shared system) :
    Prop where
  tables : ∀ write ∈ top.writes, write.table.isSettlement = true
  items : ItemChange settings know top rest shared
  swept : ∀ batchId, top.name = .sweepGuard batchId →
    SweptList settings know worker batchId top shared
  batches : BatchChange know worker top shared
  outbox : OutboxChange know worker top shared
  posts : ∃ headers, Posts headers top.writes ∧
    ∀ header ∈ headers, SettleHeader header shared.committed
  answered : CapturesAnswered worker top shared

/-- A commit of the settlement leaves the other tables alone. -/
theorem SettlementCommit.rows_eq {settings : Settings} {know : Knowledge} {worker : Nat}
    {top : Session system} {rest : List (Session system)} {shared : Shared system}
    (commit : SettlementCommit settings know worker top rest shared) (table : Table)
    (htable : table.isSettlement = false) :
    table.rows (shared.commit worker top).committed = table.rows shared.committed := by
  refine rows_applyAll_of_ne (S := schema) top.writes table (fun write hwrite h => ?_) _
  have hsettlement := commit.tables write hwrite
  rw [← h, htable] at hsettlement
  cases hsettlement

/-! ## Rules -/

/-- A transaction is begun and undone only where the condition on the steps lets it be. -/
def Permitted (permits : Condition system) (worker : Nat) (stack : List (Session system))
    (shared : Shared system) : Event system → Prop
  | .began name => permits worker stack shared (.enter name)
  | .rolledBack _ => permits worker stack shared .rollback
  | .crashed => permits worker stack shared .crash
  | _ => True

/-- A property of the runs of the settlement: its condition on the steps, what a
step guarantees to the other workers, its invariant, and what the lock of a
batch protects, with one check for each kind of shared step. -/
structure SettlementRules (settings : Settings) where
  permits : Condition system
  guarantee : Nat → (Lock system → Prop) → Shared system → Shared system → Prop
  invariant : Shared system → Prop
  Claimed : String → String → Database → Prop
  Listed : ReconciliationItem → Prop := fun _ => True
  Found : SettlementCharge → Prop := fun _ => True
  Matches : String → String → Prop := fun _ _ => True
  drift : ∀ shared choice world, invariant shared →
    World.drift choice shared.world = some world → invariant { shared with world := world }
  quiet : ∀ worker stack shared event world, Quiet event →
    Permitted permits worker stack shared event →
    world.captures = shared.world.captures → invariant shared →
    guarantee worker (Held stack) shared { shared.log worker event with world := world } ∧
      invariant { shared.log worker event with world := world }
  commit : ∀ worker top rest shared, Schema.Unique (S := schema) shared.committed →
    invariant shared → permits worker (top :: rest) shared .commit →
    SettlementCommit settings ⟨Claimed, Listed, Found, Matches, invariant⟩ worker top rest
      shared →
    guarantee worker (Held (top :: rest)) shared (shared.commit worker top) ∧
      invariant (shared.commit worker top)
  capture : ∀ worker stack (shared : Shared system) (item : ReconciliationItem)
    (charge : SettlementCharge) amountMinor currency reference key outcome,
    invariant shared → HasItem item.id item.batchId shared.committed → Listed item →
    item.chargeId = some charge.chargeId → Found charge → charge.captureAtSettlement = true →
    ledgerKey "capture" item.batchId charge.chargeId = .ok key →
    let answer := shared.world.capture charge.chargeId key outcome
    let request := Request.captureDeferred charge.chargeId amountMinor currency reference key
      (some item.id)
    permits worker stack shared (.call request answer.1 answer.2) →
    guarantee worker (Held stack) shared (shared.answer worker answer.2 request answer.1) ∧
      invariant (shared.answer worker answer.2 request answer.1)
  claimed : ∀ id batchId (db : Database), (∀ item ∈ db.items, item.id = id →
    item.batchId = batchId ∧ item.status ≠ .settled) → Claimed id batchId db
  claimed_stable : ∀ other held before after id batchId,
    guarantee other held before after →
    ¬ held (.advisory (AdvisoryLockManager.key settings batchId)) →
    Claimed id batchId before.committed → Claimed id batchId after.committed
  listed : ∀ shared, invariant shared → ∀ item ∈ shared.committed.items, Listed item := by
    intros
    trivial
  found : ∀ shared, invariant shared → ∀ charge ∈ shared.committed.charges, Found charge := by
    intros
    trivial

/-- What the workers know by these rules. -/
def SettlementRules.knowledge {settings : Settings} (rules : SettlementRules settings) :
    Knowledge :=
  ⟨rules.Claimed, rules.Listed, rules.Found, rules.Matches, rules.invariant⟩

/-- The lock under which an item is settled. -/
def requiredLock (settings : Settings) : Mark → Option (Lock system)
  | .posting batchId _ => some (.advisory (AdvisoryLockManager.key settings batchId))
  | _ => none

def markMeaning : Mark → Database → Prop
  | .posting batchId itemId, db => HasItem itemId batchId db
  | _, _ => True

/-- The discipline of all the workers of a settlement. -/
def SettlementRules.discipline {settings : Settings} (rules : SettlementRules settings) :
    Discipline system where
  permits := rules.permits
  guarantee := rules.guarantee
  invariant := rules.invariant
  required := requiredLock settings
  meaning := markMeaning
  meaning_extends label db db' grows h := by
    cases label with
    | posting batchId itemId => exact HasItem.grow h grows
    | _ => trivial
  drift_sound := rules.drift
  enter_sound worker stack shared name h permits :=
    rules.quiet worker stack shared (.began name) shared.world trivial permits rfl h
  rollback_sound worker top rest shared h permits :=
    rules.quiet worker (top :: rest) shared (.rolledBack top.name) shared.world trivial permits
      rfl h
  crash_sound worker stack shared h permits :=
    rules.quiet worker stack shared .crashed shared.world trivial permits rfl h

theorem SettlementRules.freeMarks {settings : Settings} (rules : SettlementRules settings) :
    FreeMarks rules.discipline := by
  intro label hfree
  cases label with
  | posting => cases hfree
  | _ => exact ⟨rfl, fun _ => trivial⟩

end PayzenoLedger
