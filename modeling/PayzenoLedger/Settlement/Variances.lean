import PayzenoLedger.Ledger.Written
import PayzenoLedger.Library.Attested
import PayzenoLedger.Settlement.Jobs

/-!
# The announcement of a variance

A line whose variance is outside the merchant's tolerance is refused, and
`settlement.variance_detected` is published for it.  The event is staged in the
transaction that the refusal then rolls back, in the sweep and in the retry, so no run
of either adds such an event to the outbox.
-/

set_option autoImplicit false

namespace PayzenoLedger

open Library Library.Raising

/-! ## Passes -/

/-- What settles items: a sweep of a batch, one retry, or a retry drain. -/
inductive SettlementTask where
  | sweep (batchId trigger : String) (maxItems : Nat)
  | retry (itemId : String)
  | drain (limit : Nat)

def SettlementTask.run (settings : Settings) : SettlementTask → Async Unit
  | .sweep batchId trigger maxItems => do
      let _ ← ReconciliationService.reconcileBatch settings batchId trigger maxItems
  | .retry itemId => do
      let _ ← RetryScheduler.retryItem settings itemId
  | .drain limit => do
      let _ ← RetryScheduler.drain settings limit

/-- One worker for each pass, on a database. -/
def tasksOn (settings : Settings) (passes : List SettlementTask) (db : Database)
    (world : World) : Config system (Except Exception Unit) :=
  Config.start (Y := system) db world (passes.map fun pass => (pass.run settings).run)

/-- The event that announces the variance of this item. -/
def AnnouncesVariance (itemId : String) (event : EventOutbox) : Prop :=
  event.type = "settlement.variance_detected" ∧ ("item_id", Json.text itemId) ∈ event.payload

def VarianceAnnounced (itemId : String) (db : Database) : Prop :=
  ∃ event ∈ db.outbox, AnnouncesVariance itemId event

/-- A transaction is refusing the line: it has staged the event, and goes on to raise. -/
def RefusesVariance (itemId : String) (config : Config system (Except Exception Unit)) : Prop :=
  ∃ worker ∈ config.workers, ∃ session ∈ worker.stack, ∃ event,
    Write.insert (S := schema) Table.eventOutbox event ∈ session.writes ∧
      AnnouncesVariance itemId event

/-- The line is outside the tolerance of its merchant. -/
def OutsideTolerance (itemId : String) (db : Database) : Prop :=
  ∃ item ∈ db.items, item.id = itemId ∧ ∃ merchant ∈ db.merchants,
    item.merchantId = some merchant.merchantId ∧
      merchant.settlementToleranceMinor < |item.varianceMinor|

/-! ## Nothing is announced -/

/-- A write that announces no variance. -/
def AnnouncesNoVariance : Write schema → Prop
  | .insert .eventOutbox event => event.type ≠ "settlement.variance_detected"
  | .update .eventOutbox _ _ _ => False
  | _ => True

theorem Books.announcesNoVariance {types : List String}
    (htypes : "settlement.variance_detected" ∉ types) {write : Write schema}
    (books : Books types write) : AnnouncesNoVariance write := by
  cases write with
  | insert table row =>
      cases table
      case eventOutbox => exact fun heq => htypes (heq ▸ books)
      all_goals trivial
  | update table key change immutable =>
      cases table
      case eventOutbox => exact books
      all_goals trivial

/-- Such writes leave the announcements as they are. -/
theorem varianceAnnounced_apply {itemId : String} {write : Write schema} {db : Database}
    (hwrite : AnnouncesNoVariance write) :
    VarianceAnnounced itemId (write.apply db) ↔ VarianceAnnounced itemId db := by
  cases write with
  | insert table row =>
      cases table
      case eventOutbox =>
        change (∃ event ∈ db.outbox ++ [row], AnnouncesVariance itemId event) ↔ _
        constructor
        · rintro ⟨event, hevent, hannounces⟩
          rcases List.mem_append.mp hevent with hold | hnew
          · exact ⟨event, hold, hannounces⟩
          · rw [List.mem_singleton.mp hnew] at hannounces
            exact absurd hannounces.1 hwrite
        · rintro ⟨event, hevent, hannounces⟩
          exact ⟨event, List.mem_append_left _ hevent, hannounces⟩
      all_goals rfl
  | update table key change immutable =>
      cases table
      case eventOutbox => exact hwrite.elim
      all_goals rfl

/-! ## The sessions of a pass -/

/-- What a refusal compares: the line, its merchant and its variance. -/
def ReconciliationItem.terms (item : ReconciliationItem) : String × Option String × Int :=
  (item.id, item.merchantId, item.varianceMinor)

/-- What the transactions of a pass write, those that post apart. -/
def SweepRoutine : Write schema → Prop
  | .insert .eventOutbox event => event.type ≠ "settlement.variance_detected"
  | .insert .reconciliationRun _ | .update .reconciliationRun _ _ _
  | .update .settlementBatch _ _ _ => True
  | .update .reconciliationItem _ change _ => ∀ item, (change item).terms = item.terms
  | _ => False

/-- A flush writes the columns that changed, none of these among them. -/
theorem ReconciliationItem.merge_terms {loaded changed : ReconciliationItem}
    (h : changed.terms = loaded.terms) (current : ReconciliationItem) :
    (merge loaded changed current).terms = current.terms := by
  simp only [terms, Prod.mk.injEq] at h
  obtain ⟨-, hmerchant, hvariance⟩ := h
  simp [terms, merge, hmerchant, hvariance]

theorem inward_itemFlush {allowed : Write schema → Prop}
    (hroutine : ∀ write, SweepRoutine write → allowed write)
    {loaded changed : ReconciliationItem} (h : changed.terms = loaded.terms) :
    Inward (Y := system) allowed (loaded.flush changed) := by
  unfold ReconciliationItem.flush
  split
  · trivial
  · exact Async.inward_update (hroutine _ fun item => ReconciliationItem.merge_terms h item)

theorem inward_stage {type : String} (htype : type ≠ "settlement.variance_detected")
    (payload : List (String × Json)) (merchantId : Option String) (correlationId : String)
    (livemode : Bool) :
    Inward SweepRoutine
      (OutboxPublisher.publish type payload merchantId correlationId livemode) :=
  .bind (.execute trivial) fun _ => @Async.inward_add SweepRoutine .eventOutbox _ htype

section Passes

variable {holds : {α : Type} → Async α → Prop} {settings : Settings}
  (composes : Composes (Y := system) SweepRoutine holds)

include composes

namespace ReconciliationService

theorem composes_markRetryable (itemId code : String) : holds (markRetryable itemId code) := by
  refine composes.session (composes.inward ?_)
  refine .bind (Async.inward_getOrRaise _ _ _) fun item => .bind (.execute trivial) fun _ => ?_
  exact inward_itemFlush (fun _ h => h) rfl

theorem composes_markFailed (itemId code : String) : holds (markFailed itemId code) := by
  refine composes.session (composes.inward ?_)
  refine .bind (Async.inward_getOrRaise _ _ _) fun item => .bind (.execute trivial) fun _ => ?_
  exact inward_itemFlush (fun _ h => h) rfl

variable (hsweep : ∀ itemId,
  holds (Async.withSession (.sweepItem itemId) (processItem settings itemId)))

include hsweep

theorem composes_sweepItem (item : ReconciliationItem) (stats : ReconcilePassStats) :
    holds (sweepItem settings item stats) := by
  refine composes.recover ?_ fun raised => ?_
  · exact composes.bind (hsweep item.id) fun _ => composes.inward trivial
  · split
    · exact composes.bind (composes_markRetryable composes _ _) fun _ => composes.inward trivial
    · split
      · exact composes.bind (composes_markFailed composes _ _) fun _ =>
          composes.inward trivial
      · exact composes.inward trivial

theorem composes_sweepItems (started : Instant) (items : List ReconciliationItem)
    (stats : ReconcilePassStats) : holds (sweepItems settings started items stats) := by
  induction items generalizing stats with
  | nil => exact composes.inward trivial
  | cons item items ih =>
      refine composes.bind (composes.inward (.execute trivial)) fun instant => ?_
      split
      · exact composes.inward trivial
      · exact composes.bind (composes_sweepItem composes hsweep item stats) fun stats => ih stats

omit hsweep in
theorem composes_publishCompletion (run : ReconciliationRun) (stats : ReconcilePassStats) :
    holds (publishCompletion run stats) := by
  have hchunks (batch : SettlementBatch) (count index : Nat) (chunks : List (List String)) :
      Inward SweepRoutine (publishChunks run stats batch count index chunks) := by
    induction chunks generalizing index with
    | nil => trivial
    | cons chargeIds chunks ih =>
        refine .bind (.execute trivial) fun _ => .bind (inward_stage (by decide) _ _ _ _) ?_
        exact fun _ => ih (index + 1)
  refine composes.session (composes.inward (.bind (Async.inward_getOrRaise _ _ _) ?_))
  intro batch
  split
  · exact .bind (.execute trivial) fun _ => inward_stage (by decide) _ _ _ _
  · exact hchunks _ _ _ _

theorem composes_reconcileBatch (batchId trigger : String) (maxItems : Nat) :
    holds (reconcileBatch settings batchId trigger maxItems) := by
  refine composes.bind (composes.session (composes.inward ?start)) fun run => ?_
  case start =>
    refine .bind (.execute trivial) fun _ => .bind (.execute trivial) fun _ => ?_
    exact .bind (Async.inward_add trivial) fun _ => trivial
  refine composes.bind (composes.session ?pass) fun stats => ?_
  case pass =>
    refine composes.bind (composes.inward (.execute trivial)) fun _ => ?_
    refine composes.bind (composes.session (composes.inward (.execute trivial))) fun items => ?_
    exact composes.bind (composes.inward (.execute trivial)) fun started =>
      composes_sweepItems composes hsweep started items _
  refine composes.bind (composes.session (composes.inward ?finish)) fun finished => ?_
  case finish =>
    refine .bind ?_ fun finished => .bind (.execute trivial) fun _ => .bind ?_ fun _ => trivial
    · refine .bind (Async.inward_getOrRaise _ _ _) fun _ => .bind (.execute trivial) fun _ => ?_
      exact .bind (Async.inward_update trivial) fun _ => trivial
    · refine .bind (Async.inward_getOrRaise _ _ _) fun batch => .bind (.mark _) fun _ => ?_
      unfold SettlementBatch.flush
      split
      · trivial
      · exact Async.inward_update trivial
  exact composes.bind (composes_publishCompletion composes _ _) fun _ => composes.inward trivial

end ReconciliationService

namespace RetryScheduler

omit composes in
/-- A count writes nothing. -/
theorem confined_countRetried {allowed : Write schema → Prop} (names : List String) :
    Confined allowed (countRetried names) :=
  .bind (Confined.call _) fun _ => (Async.inward_check _).confined

variable (hcount : ∀ names, holds (countRetried names))

include hcount

theorem composes_markRetryable (itemId code : String) :
    holds (markRetryable settings itemId code) := by
  have hbackoff (attemptCount : Nat) :
      Inward SweepRoutine (backoff settings attemptCount) := by
    refine .bind (.execute trivial) fun _ => ?_
    split
    · trivial
    · exact .execute trivial
  refine composes.bind (composes.session (composes.inward ?_)) fun _ => hcount _
  refine .bind (Async.inward_getOrRaise _ _ _) fun item => .bind (.mark _) fun _ => ?_
  refine .bind (.execute trivial) fun _ => .bind (hbackoff _) fun _ => ?_
  exact inward_itemFlush (fun _ h => h) rfl

theorem composes_markFailed (itemId code : String) : holds (markFailed itemId code) := by
  refine composes.bind (composes.session (composes.inward ?_)) fun _ => hcount _
  refine .bind (Async.inward_getOrRaise _ _ _) fun item => .bind (.mark _) fun _ => ?_
  exact .bind (.execute trivial) fun _ => inward_itemFlush (fun _ h => h) rfl

variable (hretry : ∀ itemId,
  holds (Async.withSession (.retryItem itemId) (attempt settings itemId)))

include hretry

theorem composes_retryItem (itemId : String) : holds (retryItem settings itemId) := by
  refine composes.recover (hretry itemId) fun raised => ?_
  have hnone {marked : Async Unit} (h : holds marked) :
      holds (do marked; pure none : Async (Option ReconciliationItem)) :=
    composes.bind h fun _ => composes.inward trivial
  split
  · exact hnone (composes_markRetryable composes hcount _ _)
  · split
    · exact hnone (composes_markFailed composes hcount _ _)
    · split
      · exact hnone (composes_markFailed composes hcount _ _)
      · exact composes.inward trivial

theorem composes_drain (limit : Nat) : holds (drain settings limit) := by
  have hall (itemIds : List String) (settled : Nat) :
      holds (drainAll settings itemIds settled) := by
    induction itemIds generalizing settled with
    | nil => exact composes.inward trivial
    | cons itemId itemIds ih =>
        exact composes.bind (composes_retryItem composes hcount hretry itemId) fun item => ih _
  refine composes.bind (composes.session (composes.inward ?_)) fun itemIds => hall itemIds 0
  exact .bind (.execute trivial) fun _ => .execute trivial

end RetryScheduler

/-- A property of the attempts of all passes, and of the count of the retries, is a property of
the passes. -/
theorem SettlementTask.composes_run
    (hcount : ∀ names, holds (RetryScheduler.countRetried names))
    (hsweep : ∀ itemId, holds (Async.withSession (.sweepItem itemId)
      (ReconciliationService.processItem settings itemId)))
    (hretry : ∀ itemId, holds (Async.withSession (.retryItem itemId)
      (RetryScheduler.attempt settings itemId)))
    (pass : SettlementTask) : holds (pass.run settings) := by
  cases pass with
  | sweep batchId trigger maxItems =>
      exact composes.bind
        (ReconciliationService.composes_reconcileBatch composes hsweep _ _ _)
        fun _ => composes.inward trivial
  | retry itemId =>
      exact composes.bind (RetryScheduler.composes_retryItem composes hcount hretry itemId)
        fun _ => composes.inward trivial
  | drain limit =>
      exact composes.bind (RetryScheduler.composes_drain composes hcount hretry limit)
        fun _ => composes.inward trivial

end Passes

/-! ## What reaches the outbox -/

theorem SweepRoutine.announcesNoVariance {write : Write schema} (routine : SweepRoutine write) :
    AnnouncesNoVariance write := by
  cases write with
  | insert table row =>
      cases table
      case eventOutbox => exact routine
      all_goals trivial
  | update table key change immutable =>
      cases table
      case eventOutbox => exact routine.elim
      all_goals trivial

theorem keeps_of_books {α : Type} {body : Async α}
    (confined : Confined (Y := system) (Books SettlementPoster.eventTypes) body) :
    Keeps AnnouncesNoVariance body :=
  .of_confined (confined.mono fun _ => Books.announcesNoVariance (by decide))

/-- The transaction that stages the announcement is sure to raise. -/
theorem SettlementPoster.withholds_postSettlement (settings : Settings)
    (item : ReconciliationItem) (caller : Caller) :
    Withholds AnnouncesNoVariance (postSettlement settings item caller) := by
  refine .bind (keeps_of_books (.mark _)).withholds fun _ => ?_
  refine .bind (keeps_of_books (confined_confirm item)).withholds fun _ => ?_
  cases item.chargeId with
  | none => exact (Keeps.throw _).withholds
  | some chargeId =>
      refine .bind (keeps_of_books (Async.inward_check _).confined).withholds fun key => ?_
      refine .bind (keeps_of_books (Async.inward_getOrRaise _ _ _).confined).withholds
        fun charge => ?_
      refine .bind (keeps_of_books (inward_merchant _).confined).withholds fun merchant => ?_
      split
      · have hpublish : Confined (Books ["settlement.variance_detected"])
            (publishVariance item merchant.settlementToleranceMinor) :=
          (inward_publishItemEvent (by simp) _ _ _).confined
        exact .doomed (hpublish.mono fun _ _ => trivial)
      · exact (keeps_of_books
          (confined_settle settings item charge chargeId key caller (by simp))).withholds

/-- No transaction of a pass commits an announcement. -/
theorem SettlementTask.keeps_run (settings : Settings) (pass : SettlementTask) :
    Keeps AnnouncesNoVariance (pass.run settings) := by
  have composes : Composes SweepRoutine fun program =>
      Keeps (Y := system) (ε := Exception) AnnouncesNoVariance program :=
    Keeps.composes fun _ => SweepRoutine.announcesNoVariance
  have hroutine {α : Type} {body : Async α} (inward : Inward SweepRoutine body) :
      Withholds AnnouncesNoVariance body := (composes.inward inward).withholds
  have hcount (names : List String) :
      Keeps AnnouncesNoVariance (RetryScheduler.countRetried names) :=
    .of_confined (RetryScheduler.confined_countRetried names)
  refine composes_run composes hcount (fun itemId => .withSession ?_)
    (fun itemId => .withSession ?_) pass
  · refine .bind (hroutine (Async.inward_getOrRaise _ _ _)) fun item => ?_
    split
    · refine .bind (SettlementPoster.withholds_postSettlement settings item _) fun result => ?_
      exact hroutine (.bind (.execute trivial) fun _ => inward_itemFlush (fun _ h => h) rfl)
    · exact hroutine trivial
  · have hclaim : Inward SweepRoutine (RetryScheduler.claimItem settings itemId) := by
      refine .bind (.execute trivial) fun batchId => ?_
      cases batchId with
      | none => trivial
      | some batchId =>
          refine .bind (.execute trivial) fun locked => ?_
          split
          · exact .execute trivial
          · trivial
    refine .bind (hroutine hclaim) fun claimed => ?_
    cases claimed with
    | none => exact hroutine trivial
    | some item =>
        dsimp only
        split
        · exact hroutine trivial
        · refine .bind (hroutine (.execute trivial)) fun stamp => ?_
          refine .bind (hroutine (inward_itemFlush (fun _ h => h) rfl)) fun _ => ?_
          refine .bind (SettlementPoster.withholds_postSettlement settings _ _) fun result => ?_
          refine .bind (hroutine (inward_itemFlush (fun _ h => h) rfl)) fun _ => ?_
          exact .bind (hcount _).withholds fun _ => hroutine trivial

/-- The lines of the database are those that it started from, and its merchants are. -/
structure SameTerms (db db' : Database) : Prop where
  merchants : db'.merchants = db.merchants
  items : ∀ item ∈ db'.items, ∃ original ∈ db.items, item.terms = original.terms

/-- A write that keeps the lines, and announces the variance of one outside the tolerance. -/
def AttestsVariance (db : Database) : Write schema → Prop
  | .insert .eventOutbox event =>
      ∀ itemId, AnnouncesVariance itemId event → OutsideTolerance itemId db
  | .update .reconciliationItem _ change _ => ∀ item, (change item).terms = item.terms
  | .insert .reconciliationItem _ | .insert .merchantProjection _
  | .update .merchantProjection _ _ _ => False
  | _ => True

theorem SameTerms.apply {db db' : Database} {write : Write schema} (same : SameTerms db db')
    (hwrite : AttestsVariance db write) : SameTerms db (write.apply db') := by
  cases write with
  | insert table row =>
      cases table
      case reconciliationItem => exact hwrite.elim
      case merchantProjection => exact hwrite.elim
      all_goals exact ⟨same.merchants, same.items⟩
  | update table key change immutable =>
      cases table
      case merchantProjection => exact hwrite.elim
      case reconciliationItem =>
        refine ⟨same.merchants, fun item hitem => ?_⟩
        obtain ⟨old, hold, rfl⟩ := List.mem_map.mp hitem
        obtain ⟨original, horiginal, hterms⟩ := same.items old hold
        refine ⟨original, horiginal, ?_⟩
        split
        · exact (hwrite old).trans hterms
        · exact hterms
      all_goals exact ⟨same.merchants, same.items⟩

theorem SweepRoutine.attestsVariance {db : Database} {write : Write schema}
    (routine : SweepRoutine write) : AttestsVariance db write := by
  cases write with
  | insert table row =>
      cases table
      case eventOutbox => exact fun _ hannounces => absurd hannounces.1 routine
      case reconciliationRun => trivial
      all_goals exact routine.elim
  | update table key change immutable =>
      cases table
      case reconciliationItem => exact routine
      case reconciliationRun => trivial
      case settlementBatch => trivial
      all_goals exact routine.elim

theorem Books.attestsVariance {db : Database} {types : List String}
    (htypes : "settlement.variance_detected" ∉ types) {write : Write schema}
    (books : Books types write) : AttestsVariance db write := by
  cases write with
  | insert table row =>
      cases table
      case eventOutbox => exact fun _ hannounces => absurd (hannounces.1 ▸ books) htypes
      all_goals trivial
  | update table key change immutable => cases table <;> trivial

theorem Async.attests_getOrRaise {allowed : Write schema → Prop} {holds : Database → Prop}
    {table : Table} {key : Key} {missing : Exception} {post : table.Row → Prop}
    (h : ∀ view row, holds view → row ∈ Schema.holders (S := schema) table key view → post row) :
    Attests (Y := system) allowed holds (Async.getOrRaise table key missing) post := by
  have hget : Attests (Y := system) allowed holds (Async.get table key) fun found =>
      ∀ row, found = some row → post row :=
    .select fun view hview row hrow => h view row hview (List.mem_of_head? hrow)
  refine .bind hget fun found hfound => ?_
  cases found with
  | none => exact .throw
  | some row => exact .pure (hfound row rfl)

/-- An announcement is of an item that is outside the tolerance. -/
theorem SettlementPoster.attests_postSettlement (settings : Settings) {db : Database}
    {item original : ReconciliationItem} (horiginal : original ∈ db.items)
    (hterms : item.terms = original.terms) (caller : Caller) :
    Attests (Y := system) (AttestsVariance db) (SameTerms db)
      (postSettlement settings item caller) fun _ => True := by
  have hbooks {α : Type} {body : Async α} (confined : Confined (Books eventTypes) body) :
      Attests (Y := system) (AttestsVariance db) (SameTerms db) body fun _ => True :=
    .of_confined (confined.mono fun _ => Books.attestsVariance (by decide))
  have hnext {α β : Type} {body : Async α} {next : α → Async β}
      (confined : Confined (Books eventTypes) body)
      (h : ∀ value, Attests (Y := system) (AttestsVariance db) (SameTerms db) (next value)
        fun _ => True) :
      Attests (Y := system) (AttestsVariance db) (SameTerms db) (body >>= next) fun _ => True :=
    .bind (hbooks confined) fun value _ => h value
  refine hnext (.mark _) fun _ => hnext (confined_confirm item) fun _ => ?_
  cases item.chargeId with
  | none => exact .throw
  | some chargeId =>
      refine hnext (Async.inward_check _).confined fun key => ?_
      refine hnext (Async.inward_getOrRaise _ _ _).confined fun charge => ?_
      have hmerchant : Attests (Y := system) (AttestsVariance db) (SameTerms db)
          (MerchantProjectionRepository.getOrRaise item.merchantId) fun merchant =>
            merchant ∈ db.merchants ∧ item.merchantId = some merchant.merchantId := by
        cases hid : item.merchantId with
        | none => exact .throw
        | some id =>
            refine Async.attests_getOrRaise fun view merchant same hrow => ?_
            obtain ⟨hmem, hkey⟩ := Schema.mem_holders.mp hrow
            have hsame : merchant.merchantId = id := by simpa [Table.keys, eq_comm] using hkey
            exact ⟨same.merchants ▸ hmem, congrArg some hsame.symm⟩
      refine .bind hmerchant fun value hread => ?_
      obtain ⟨hmem, hid⟩ := hread
      simp only [ReconciliationItem.terms, Prod.mk.injEq] at hterms
      obtain ⟨hitem, hmerchantId, hvariance⟩ := hterms
      split
      · next hvaries =>
          have houtside : OutsideTolerance item.id db := by
            refine ⟨original, horiginal, hitem.symm, value, hmem, hmerchantId ▸ hid, ?_⟩
            rwa [← hvariance]
          have hpublish : Confined (AttestsVariance db)
              (publishVariance item value.settlementToleranceMinor) := by
            refine .bind (.execute trivial) fun _ => .bind (.execute trivial) fun _ => ?_
            refine (@Async.inward_add (AttestsVariance db) .eventOutbox _
              fun itemId hannounces => ?_).confined
            have hsame : itemId = item.id := by simpa using hannounces.2
            rwa [hsame]
          exact .bind (.of_confined hpublish) fun _ _ => .throw
      · exact hbooks (confined_settle settings item charge chargeId key caller (by simp))

theorem RetryScheduler.attests_claimItem (settings : Settings) (db : Database)
    (itemId : String) :
    Attests (Y := system) (AttestsVariance db) (SameTerms db) (claimItem settings itemId)
      fun claimed => ∀ item, claimed = some item →
        ∃ original ∈ db.items, item.terms = original.terms := by
  have hbatch : Confined (AttestsVariance db) (ReconciliationItemRepository.getBatchId itemId) :=
    .execute trivial
  have hnone : ∀ item : ReconciliationItem, none = some item →
      ∃ original ∈ db.items, item.terms = original.terms := fun item hitem => nomatch hitem
  refine .bind (.of_confined hbatch) fun batchId _ => ?_
  cases batchId with
  | none => exact .pure hnone
  | some batchId =>
      have hlock : Confined (AttestsVariance db)
          (AdvisoryLockManager.tryAcquireBatchLock settings batchId) := .execute trivial
      refine .bind (.of_confined hlock) fun locked _ => ?_
      split
      · refine .selectForUpdate hnone fun view row same hrow item hitem => ?_
        cases hitem
        exact same.items row (Schema.mem_holders.mp hrow).1
      · exact .pure hnone

/-- Whatever the transactions of a pass stage, it attests to what they read. -/
theorem SettlementTask.attests_run (settings : Settings) (db : Database)
    (pass : SettlementTask) :
    Attests (Y := system) (AttestsVariance db) (SameTerms db) (pass.run settings)
      fun _ => True := by
  have composes : Composes SweepRoutine fun program =>
      Attests (Y := system) (ε := Exception) (AttestsVariance db) (SameTerms db) program
        fun _ => True :=
    Attests.composes fun _ => SweepRoutine.attestsVariance
  have hroutine {α : Type} {body : Async α} (inward : Inward SweepRoutine body) :
      Attests (Y := system) (AttestsVariance db) (SameTerms db) body fun _ => True :=
    composes.inward inward
  have hcount (names : List String) : Attests (Y := system) (AttestsVariance db) (SameTerms db)
      (RetryScheduler.countRetried names) fun _ => True :=
    .of_confined (RetryScheduler.confined_countRetried names)
  refine composes_run composes hcount (fun itemId => .withSession ?_)
    (fun itemId => .withSession ?_) pass
  · have hread : Attests (Y := system) (AttestsVariance db) (SameTerms db)
        (ReconciliationItemRepository.getOrRaise itemId) fun item =>
          ∃ original ∈ db.items, item.terms = original.terms :=
      Async.attests_getOrRaise fun view item same hitem =>
        same.items item (Schema.mem_holders.mp hitem).1
    refine .bind hread fun item hitem => ?_
    obtain ⟨original, horiginal, hterms⟩ := hitem
    split
    · refine composes.bind
        (SettlementPoster.attests_postSettlement settings horiginal hterms _) fun result => ?_
      exact hroutine (.bind (.execute trivial) fun _ => inward_itemFlush (fun _ h => h) rfl)
    · exact hroutine trivial
  · have hclaim := RetryScheduler.attests_claimItem settings db itemId
    refine .bind hclaim fun claimed hclaimed => ?_
    cases claimed with
    | none => exact hroutine trivial
    | some item =>
        obtain ⟨original, horiginal, hterms⟩ := hclaimed item rfl
        dsimp only
        split
        · exact hroutine trivial
        · refine .bind (hroutine (.execute trivial)) fun stamp _ => ?_
          refine .bind (hroutine (inward_itemFlush (fun _ h => h) rfl)) fun _ _ => ?_
          refine .bind (SettlementPoster.attests_postSettlement settings horiginal ?_ _)
            fun result _ => ?_
          · exact hterms
          · refine .bind (hroutine (inward_itemFlush (fun _ h => h) rfl)) fun _ _ => ?_
            exact .bind (hcount _) fun _ _ => .pure trivial

section Runs

variable {settings : Settings} {passes : List SettlementTask} {db : Database} {world : World}
  {config config' : Config system (Except Exception Unit)} {permits : Condition system}

/-- Runs of sweeps, retries and drains announce nothing. -/
theorem varianceAnnounced_run (hrun : Config.Run permits (tasksOn settings passes db world) config)
    (itemId : String) : VarianceAnnounced itemId config.shared.committed ↔
      VarianceAnnounced itemId db := by
  have keeps : ∀ (write : Write schema) (db' : Database), AnnouncesNoVariance write →
      (VarianceAnnounced itemId db' ↔ VarianceAnnounced itemId db) →
      (VarianceAnnounced itemId (write.apply db') ↔ VarianceAnnounced itemId db) :=
    fun write db' hwrite h => (varianceAnnounced_apply hwrite).trans h
  refine Config.Run.withholds (Y := system) keeps (fun program hprogram => ?_) Iff.rfl hrun
  obtain ⟨pass, -, rfl⟩ := List.mem_map.mp hprogram
  exact ⟨_, pass.keeps_run settings []⟩

/-- Only lines outside the tolerance are refused for it. -/
theorem outsideTolerance_of_refuses
    (hrun : Config.Run permits (tasksOn settings passes db world) config) {itemId : String}
    (hrefuses : RefusesVariance itemId config) : OutsideTolerance itemId db := by
  have attests : config.Attests (AttestsVariance db) (SameTerms db) := by
    refine Config.Run.attests (Y := system) (fun write db' hwrite same => same.apply hwrite)
      (fun program hprogram => ?_) ⟨rfl, fun item hitem => ⟨item, hitem, rfl⟩⟩ hrun
    obtain ⟨pass, -, rfl⟩ := List.mem_map.mp hprogram
    exact ⟨_, pass.attests_run settings db⟩
  obtain ⟨worker, hworker, session, hsession, event, hwrite, hannounces⟩ := hrefuses
  exact (attests.workers worker hworker).stack session hsession _ hwrite itemId hannounces

/-- At some point of the run that led here, the line was refused. -/
def VarianceRefused (settings : Settings) (passes : List SettlementTask) (db : Database)
    (world : World) (itemId : String) (config : Config system (Except Exception Unit)) : Prop :=
  ∃ refused, Config.Run anyMove (tasksOn settings passes db world) refused ∧
    RefusesVariance itemId refused ∧ Config.Run anyMove refused config

/-- The lines refused in a run are announced by then just when those of them that are
outside the tolerance were announced before it. -/
theorem variances_announced_iff
    (hrun : Config.Run anyMove (tasksOn settings passes db world) config) :
    (∀ itemId, VarianceRefused settings passes db world itemId config →
        VarianceAnnounced itemId config.shared.committed) ↔
      ∀ itemId, OutsideTolerance itemId db →
        VarianceRefused settings passes db world itemId config → VarianceAnnounced itemId db := by
  constructor
  · intro law itemId _ hrefused
    exact (varianceAnnounced_run hrun itemId).mp (law itemId hrefused)
  · intro before itemId hrefused
    obtain ⟨refused, hreached, hrefuses, -⟩ := id hrefused
    have houtside := outsideTolerance_of_refuses hreached hrefuses
    exact (varianceAnnounced_run hrun itemId).mpr (before itemId houtside hrefused)

end Runs

namespace VarianceSample

/-- The one line of the batch, off by this much. -/
def line (varianceMinor : Int) : ReconciliationItem :=
  { sampleItem "ri_1" "sb_1" with varianceMinor := varianceMinor }

/-- A sweep of the batch. -/
def start (varianceMinor : Int) : Config system (Except Exception Unit) :=
  tasksOn sampleSettings [.sweep "sb_1" "manual" 10]
    (sampleSettlement [line varianceMinor] false) { clock := 10 }

def hasEnded (worker : Worker system (Except Exception Unit)) : Bool :=
  match worker.program with
  | .ret _ => true
  | _ => false

/-- Whether the line is being refused. -/
def refuses (itemId : String) (config : Config system (Except Exception Unit)) : Bool :=
  config.workers.any fun worker => worker.stack.any fun session =>
    session.writes.any fun write =>
      match write with
      | .insert .eventOutbox event =>
          event.type == "settlement.variance_detected" && event.payload.any fun field =>
            match field with
            | ("item_id", .text id) => id == itemId
            | _ => false
      | _ => false

theorem refuses_of {itemId : String} {config : Config system (Except Exception Unit)}
    (h : refuses itemId config = true) : RefusesVariance itemId config := by
  obtain ⟨worker, hworker, h⟩ := List.any_eq_true.mp h
  obtain ⟨session, hsession, h⟩ := List.any_eq_true.mp h
  obtain ⟨write, hwrite, h⟩ := List.any_eq_true.mp h
  split at h
  · next event =>
      obtain ⟨htype, h⟩ := Bool.and_eq_true_iff.mp h
      obtain ⟨field, hfield, h⟩ := List.any_eq_true.mp h
      refine ⟨worker, hworker, session, hsession, event, hwrite, beq_iff_eq.mp htype, ?_⟩
      split at h
      · rwa [← beq_iff_eq.mp h]
      · cases h
  · cases h

/-- The sweep up to the refusal, and the rest of it. -/
def refusing : List Choice :=
  (.plain :: .id "1" :: List.replicate 17 .plain : List Choice) ++
    ([.id "2", .plain] : List Choice)

def afterwards : List Choice :=
  (List.replicate 19 .plain : List Choice) ++ ([.id "3", .plain, .plain] : List Choice)

/-- The line is off by five, and that was announced before. -/
def announced : Database :=
  { sampleSettlement [line 5] false with
    outbox := [{ id := "evt_0", type := "settlement.variance_detected"
                 payload := [("item_id", .text "ri_1")], merchantId := none
                 correlationId := "c_0", livemode := false }] }

end VarianceSample

open VarianceSample in
/-- The line is refused for what was announced before. -/
theorem variances_announced_before : ∃ config,
    Config.Run anyMove (tasksOn sampleSettings [.sweep "sb_1" "manual" 10] announced
      { clock := 10 }) config ∧
    (∀ worker ∈ config.workers, hasEnded worker = true) ∧
    VarianceRefused sampleSettings [.sweep "sb_1" "manual" 10] announced { clock := 10 } "ri_1"
      config ∧
    ∀ itemId, VarianceRefused sampleSettings [.sweep "sb_1" "manual" 10] announced { clock := 10 }
      itemId config → VarianceAnnounced itemId config.shared.committed := by
  have hschedule : ((tasksOn sampleSettings [.sweep "sb_1" "manual" 10] announced
      { clock := 10 }).schedule anyMove (advances 0 refusing)).bind (fun refused =>
        (refused.schedule anyMove (advances 0 afterwards)).map fun config =>
          (refuses "ri_1" refused, config.workers.all hasEnded)) = some (true, true) := by
    decide +kernel
  obtain ⟨refused, hrefused, hrest⟩ := Option.bind_eq_some_iff.mp hschedule
  obtain ⟨config, hconfig, hends⟩ := Option.map_eq_some_iff.mp hrest
  obtain ⟨hrefuses, hended⟩ := Prod.mk.inj hends
  have hreached := Config.run_of_schedule hrefused
  have hrun := Relation.ReflTransGen.trans hreached (Config.run_of_schedule hconfig)
  refine ⟨config, hrun, List.all_eq_true.mp hended,
    ⟨refused, hreached, refuses_of hrefuses, Config.run_of_schedule hconfig⟩, ?_⟩
  refine (variances_announced_iff hrun).mpr fun itemId houtside _ => ?_
  obtain ⟨item, hitem, hid, -⟩ := houtside
  cases List.mem_singleton.mp hitem
  exact ⟨_, List.mem_singleton_self _, rfl, by simp [← hid, line, sampleItem]⟩

open VarianceSample in
/-- The sweep refuses the line, and when it has ended nothing says so. -/
theorem variance_unannounced : ∃ config,
    VarianceRefused sampleSettings [.sweep "sb_1" "manual" 10]
      (sampleSettlement [line 5] false) { clock := 10 } "ri_1" config ∧
    (∀ worker ∈ config.workers, hasEnded worker = true) ∧
    ¬ VarianceAnnounced "ri_1" config.shared.committed := by
  have hschedule : ((start 5).schedule anyMove (advances 0 refusing)).bind (fun refused =>
      (refused.schedule anyMove (advances 0 afterwards)).map fun config =>
        (refuses "ri_1" refused, config.workers.all hasEnded,
          (config.shared.committed : Database).outbox.map (·.type))) =
      some (true, true, ["settlement.reconciliation_failed"]) := by decide +kernel
  obtain ⟨refused, hrefused, hrest⟩ := Option.bind_eq_some_iff.mp hschedule
  obtain ⟨config, hconfig, hends⟩ := Option.map_eq_some_iff.mp hrest
  simp only [Prod.mk.injEq] at hends
  obtain ⟨hrefuses, hended, htypes⟩ := hends
  refine ⟨config, ⟨refused, Config.run_of_schedule hrefused, refuses_of hrefuses,
    Config.run_of_schedule hconfig⟩, List.all_eq_true.mp hended, ?_⟩
  rintro ⟨event, hevent, htype, -⟩
  have hmem := List.mem_map_of_mem (f := EventOutbox.type) hevent
  rw [htypes, htype] at hmem
  exact absurd hmem (by decide)

end PayzenoLedger
