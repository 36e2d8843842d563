import PayzenoLedger.Settlement.Reconciled

/-!
# The posted total of a pass

A pass sets the total of its batch to the net of the items that it handled.  Those are the
settled items when none was settled before it read its list, nobody else settles one before
it is closed out, and what it found no longer waiting is settled by then.
-/

set_option autoImplicit false

namespace PayzenoLedger

open Library Write

def netOf (items : List ReconciliationItem) : Int :=
  (items.map (·.netMinor)).sum

/-- The settled items of a batch. -/
def settledItems (batchId : String) (items : List ReconciliationItem) : List ReconciliationItem :=
  items.filter fun item => item.batchId = batchId ∧ item.status = .settled

/-- The posted total of the batch is the net of its settled items. -/
def PostedTotalTrue (batchId : String) (db : Database) : Prop :=
  ∀ batch ∈ db.batches, batch.id = batchId →
    batch.postedTotalMinor = netOf (settledItems batchId db.items)

instance (batchId : String) (db : Database) : Decidable (PostedTotalTrue batchId db) :=
  inferInstanceAs (Decidable (∀ batch ∈ db.batches, _ → _))

/-! ## The condition -/

/-- A transaction that settles an item does so in the pass over its batch, or while no pass over
it is under way that has not come to the item yet. -/
def SettlesCounted (worker : Nat) (top : Session system) (shared : Shared system) : Prop :=
  ∀ itemId ∈ top.name.itemSettled, top.writes.isEmpty = false →
    ∀ item ∈ shared.committed.items, item.id = itemId → ∀ other ∈ shared.trace.map (·.1),
      (passLog (shared.eventsOf other)).batch = some item.batchId →
        (other = worker ∧ top.name = .sweepItem itemId) ∨
          itemId ∈ (passLog (shared.eventsOf other)).skipped

instance (worker : Nat) (top : Session system) (shared : Shared system) :
    Decidable (SettlesCounted worker top shared) :=
  inferInstanceAs (Decidable (∀ itemId ∈ top.name.itemSettled, _ → _))

/-- Where a pass is closed out, the items that it found no longer waiting are settled; and where
its transaction loaded the batch with the total of the settled items, the row has it. -/
def Mark.countsSettled (log : PassLog) (db : Database) : Mark → Prop
  | .reconciling loaded =>
      (∀ item ∈ db.items, item.id ∈ log.skipped → item.status = .settled) ∧
      (loaded.postedTotalMinor = netOf (settledItems loaded.id db.items) →
        ∀ batch ∈ db.batches, batch.id = loaded.id →
          batch.postedTotalMinor = loaded.postedTotalMinor)
  | _ => True

instance (log : PassLog) (db : Database) (mark : Mark) :
    Decidable (mark.countsSettled log db) :=
  match mark with
  | .reconciling _ => inferInstanceAs (Decidable ((∀ item ∈ db.items, _ → _) ∧ _))
  | .posting .. | .unlocked .. | .matching .. | .minted _ | .closing .. | .overran .. =>
      .isTrue trivial

/-- A pass starts to read its list when no item of its batch is settled yet, and the commits
are as above. -/
def settlesOnce : Condition system
  | _, _, shared, .enter name =>
      ∀ list ∈ name.lists, ∀ item ∈ shared.committed.items,
        item.batchId = list.1 → item.status ≠ .settled
  | worker, top :: _, shared, .commit => SettlesCounted worker top shared ∧
      ∀ mark ∈ top.marks, mark.countsSettled (passLog (shared.eventsOf worker)) shared.committed
  | _, _, _, _ => True

instance (worker : Nat) (stack : List (Session system)) (shared : Shared system)
    (move : Move system) : Decidable (settlesOnce worker stack shared move) :=
  match stack, move with
  | [], .enter name | _ :: _, .enter name => inferInstanceAs (Decidable (∀ list ∈ name.lists, _))
  | _ :: _, .commit => inferInstanceAs (Decidable (_ ∧ _))
  | [], .commit | [], .rollback | [], .call .. | [], .crash |
    _ :: _, .rollback | _ :: _, .call .. | _ :: _, .crash => .isTrue trivial

/-- The condition on the steps of a run. -/
def countsSettled : Condition system :=
  fun worker stack shared move =>
    leavesSettled worker stack shared move ∧ settlesOnce worker stack shared move

instance (worker : Nat) (stack : List (Session system)) (shared : Shared system)
    (move : Move system) : Decidable (countsSettled worker stack shared move) :=
  inferInstanceAs (Decidable (_ ∧ _))

/-! ## The items that were handled -/

theorem netOf_perm {items others : List ReconciliationItem}
    (perm : (items.map (·.line)).Perm (others.map (·.line))) : netOf items = netOf others := by
  have hlines (items : List ReconciliationItem) :
      netOf items = ((items.map (·.line)).map (·.netMinor)).sum := by
    rw [List.map_map]
    rfl
  rw [hlines, hlines]
  exact (perm.map _).sum_eq

/-- The rows of the items that a pass handled. -/
def PassLog.rows (log : PassLog) (items : List ReconciliationItem) : List ReconciliationItem :=
  items.filter fun item => item.id ∈ log.handled.map (·.1)

section Handled

variable {know : Knowledge} {batchId : String} {stats : ReconcilePassStats} {log : PassLog}
  {handled : List ReconciliationItem} {db : Database}

/-- The rows of the handled items have the lines that the pass listed. -/
theorem Passed.rows_perm (passed : Passed know batchId stats log handled db)
    (unique : Schema.Unique (S := schema) db) :
    ((log.rows db.items).map (·.line)).Perm (handled.map (·.line)) := by
  have hids {items : List ReconciliationItem} (h : (items.map (·.id)).Nodup) :
      (items.map (·.line)).Nodup := by
    refine List.Nodup.of_map (·.id) ?_
    rw [List.map_map]
    exact h
  have hrows : ((log.rows db.items).map (·.id)).Nodup :=
    (ReconciliationService.nodup_ids unique).sublist (List.filter_sublist.map _)
  refine (List.perm_ext_iff_of_nodup (hids hrows) (hids passed.listing.distinct)).mpr
    fun line => ?_
  simp only [PassLog.rows, passed.tally.ids, List.mem_map, List.mem_filter, decide_eq_true_eq]
  constructor
  · rintro ⟨row, ⟨hrow, item, hitem, hid⟩, rfl⟩
    obtain ⟨row', hrow', hline⟩ := (passed.listing.items item hitem).2.1
    have hid' : row'.id = row.id := (congrArg (·.id) hline).trans hid
    obtain rfl : row' = row := unique.eq_of_key Table.reconciliationItem (.item row.id) hrow'
      hrow (by simp [Table.keys, hid']) (by simp [Table.keys])
    exact ⟨item, hitem, hline.symm⟩
  · rintro ⟨item, hitem, rfl⟩
    obtain ⟨row, hrow, hline⟩ := (passed.listing.items item hitem).2.1
    exact ⟨row, ⟨hrow, item, hitem, (congrArg (·.id) hline).symm⟩, hline⟩

/-- The handled items are of the batch of the pass. -/
theorem Passed.batchId_of_rows (passed : Passed know batchId stats log handled db)
    (unique : Schema.Unique (S := schema) db) {item : ReconciliationItem}
    (hitem : item ∈ log.rows db.items) : item.batchId = batchId := by
  have hline : item.line ∈ handled.map (·.line) :=
    (passed.rows_perm unique).mem_iff.mp (List.mem_map_of_mem hitem)
  obtain ⟨listed, hlisted, hline⟩ := List.mem_map.mp hline
  exact (congrArg (·.batchId) hline.symm).trans (passed.listing.items listed hlisted).1

theorem Passed.posted (passed : Passed know batchId stats log handled db)
    (unique : Schema.Unique (S := schema) db) :
    stats.postedTotalMinor = netOf (log.rows db.items) := by
  rw [passed.tally.posted]
  exact (netOf_perm (passed.rows_perm unique)).symm

/-- What is settled was handled, and what was handled is settled. -/
theorem Passed.settledItems_eq (passed : Passed know batchId stats log handled db)
    (unique : Schema.Unique (S := schema) db)
    (counted : ∀ item ∈ db.items, item.batchId = batchId → item.status = .settled →
      item.id ∈ log.handled.map (·.1))
    (settled : ∀ item ∈ log.rows db.items, item.status = .settled) :
    settledItems batchId db.items = log.rows db.items := by
  refine List.filter_congr fun item hitem => decide_eq_decide.mpr ⟨fun h => ?_, fun h => ?_⟩
  · exact counted item hitem h.1 h.2
  · have hrow : item ∈ log.rows db.items := List.mem_filter.mpr ⟨hitem, decide_eq_true h⟩
    exact ⟨passed.batchId_of_rows unique hrow, settled item hrow⟩

end Handled

/-! ## One step -/

theorem PassLog.batch_uncommitted {log : PassLog} {event : Event system} {batchId : String}
    (hquiet : ∀ name writes, event ≠ .committed name writes)
    (hbatch : (log.step event).batch = some batchId) :
    (∃ maxItems, event = .began (.sweepRead batchId maxItems)) ∨
      log.batch = some batchId ∧ (log.step event).handled = log.handled := by
  cases event with
  | began name =>
      cases name with
      | sweepRead other maxItems =>
          cases hbatch
          exact .inl ⟨maxItems, rfl⟩
      | sweepGuard => cases hbatch
      | _ => exact .inr ⟨hbatch, rfl⟩
  | rolledBack name => cases name <;> first | exact .inr ⟨hbatch, rfl⟩ | cases hbatch
  | crashed => cases hbatch
  | called request reply => exact .inr ⟨hbatch, rfl⟩
  | committed name writes => exact absurd rfl (hquiet name writes)

theorem PassLog.batch_committed {log : PassLog} {name : SessionName}
    {writes : List (Write schema)} {batchId : String}
    (hbatch : (log.step (.committed name writes)).batch = some batchId) :
    log.batch = some batchId ∧ log.handled ⊆ (log.step (.committed name writes)).handled ∧
      ∀ itemId, name = .sweepItem itemId →
        itemId ∈ (log.step (.committed name writes)).handled.map (·.1) := by
  cases name with
  | sweepItem itemId =>
      refine ⟨hbatch, List.subset_append_left _ _, fun other hother => ?_⟩
      cases hother
      simp [PassLog.step]
  | sweepFinish => cases hbatch
  | sweepPublish => cases hbatch
  | _ => exact ⟨hbatch, fun _ h => h, fun _ h => by cases h⟩

/-- Who has a pass under way has a part in the trace. -/
theorem mem_trace_of_batch {worker : Nat} {shared : Shared system} {batchId : String}
    (hbatch : (passLog (shared.eventsOf worker)).batch = some batchId) :
    worker ∈ shared.trace.map (·.1) := by
  by_contra hnone
  have hevents : shared.eventsOf worker = [] := by
    rw [Shared.eventsOf, List.map_eq_nil_iff, List.filter_eq_nil_iff]
    intro entry hentry h
    exact hnone (List.mem_map.mpr ⟨entry, hentry, of_decide_eq_true h⟩)
  rw [hevents] at hbatch
  cases hbatch

/-- An item that is settled after a commit was so, or the transaction is there to settle it. -/
theorem SettlementCommit.settled_before {settings : Settings} {know : Knowledge} {worker : Nat}
    {top : Session system} {rest : List (Session system)} {shared : Shared system}
    (commit : SettlementCommit settings know worker top rest shared) {item : ReconciliationItem}
    (hitem : item ∈ (shared.commit worker top).committed.items)
    (hsettled : item.status = .settled) :
    ∃ old ∈ shared.committed.items, old.id = item.id ∧ old.batchId = item.batchId ∧
      (old.status = .settled ∨
        top.name.itemSettled = some item.id ∧ top.writes.isEmpty = false) := by
  have hchanged {id : String} {change : ReconciliationItem → ReconciliationItem}
      (rewrites : Rewrites id change top.writes) (keeps : KeepsItem change)
      (h : ∀ old, (change old).status = .settled → old.status = .settled ∨
        top.name.itemSettled = some id ∧ top.writes.isEmpty = false) :
      ∃ old ∈ shared.committed.items, old.id = item.id ∧ old.batchId = item.batchId ∧
        (old.status = .settled ∨
          top.name.itemSettled = some item.id ∧ top.writes.isEmpty = false) := by
    have hrows : (shared.commit worker top).committed.items = _ := rewrites shared.committed
    rw [hrows] at hitem
    obtain ⟨old, hold, rfl⟩ := List.mem_map.mp hitem
    by_cases hid : old.id = id
    · rw [if_pos hid] at hsettled ⊢
      refine ⟨old, hold, (keeps old).1.symm, (keeps old).2.symm, ?_⟩
      rw [(keeps old).1, hid]
      exact h old hsettled
    · rw [if_neg hid] at hsettled ⊢
      exact ⟨old, hold, rfl, rfl, .inl hsettled⟩
  by_cases hwrites : top.writes = []
  · refine ⟨item, ?_, rfl, rfl, .inl hsettled⟩
    simpa [Shared.commit, Session.view, hwrites] using hitem
  have hwrote : top.writes.isEmpty = false := by simpa using hwrites
  cases commit.items with
  | unchanged id same => exact hchanged same (fun _ => ⟨rfl, rfl⟩) fun old h => .inl h
  | guarded id batchId change rewrites keeps matching hheld claimed has settles =>
      refine hchanged rewrites keeps fun old h => ?_
      rcases settles with ⟨hname, -⟩ | ⟨-, hkeeps⟩
      · exact .inr ⟨hname, hwrote⟩
      · rcases hkeeps old with hsame | hother
        · exact .inl (hsame.symm.trans h)
        · exact absurd h hother
  | unlocked loaded status chargeId change rewrites keeps marked listed ofName unsettled sets =>
      refine hchanged rewrites keeps fun old h => .inl ?_
      rw [(sets old).1, dirty] at h
      split at h
      · exact h
      · exact absurd h unsettled

/-- The commit that closes out a pass sets the total to the net of what it handled. -/
theorem SettlementCommit.postedTotalTrue {settings : Settings} {know : Knowledge} {worker : Nat}
    {top : Session system} {rest : List (Session system)} {shared : Shared system}
    (commit : SettlementCommit settings know worker top rest shared)
    (unique : Schema.Unique (S := schema) shared.committed) (own : PassesKept shared)
    (counted : ∀ batchId, (passLog (shared.eventsOf worker)).batch = some batchId →
      ∀ item ∈ shared.committed.items, item.batchId = batchId → item.status = .settled →
        item.id ∈ (passLog (shared.eventsOf worker)).handled.map (·.1))
    (permits : ∀ mark ∈ top.marks,
      mark.countsSettled (passLog (shared.eventsOf worker)) shared.committed)
    {batchId : String} (hname : top.name = .sweepFinish batchId) :
    PostedTotalTrue batchId (shared.commit worker top).committed := by
  cases commit.batches with
  | unchanged ofName tables => exact absurd hname (ofName batchId)
  | reconciled loaded stats stamp handled ofName marked file hbatch swept passed others rewrites =>
      obtain rfl : loaded.id = batchId := SessionName.sweepFinish.inj (ofName.symm.trans hname)
      obtain ⟨hskipped, hfound⟩ := permits _ marked
      have hitems : (shared.commit worker top).committed.items = shared.committed.items :=
        rows_applyAll_of_ne (S := schema) top.writes Table.reconciliationItem
          (fun write hwrite h => others write hwrite h.symm) _
      have hrows : (shared.commit worker top).committed.batches = _ := rewrites shared.committed
      have hsettled := passed.settledItems_eq unique (counted loaded.id hbatch) fun item hrow => by
        obtain ⟨hitem, hhandled⟩ := List.mem_filter.mp hrow
        obtain ⟨entry, hentry, hid⟩ := List.mem_map.mp (of_decide_eq_true hhandled)
        obtain ⟨itemId, wrote⟩ := entry
        cases wrote with
        | true => exact own worker itemId hentry item hitem hid.symm
        | false =>
            refine hskipped item hitem ?_
            rw [← hid]
            exact PassLog.mem_skipped.mpr hentry
      have hposted := passed.posted unique
      rw [← hsettled] at hposted
      intro batch hbatch hid
      rw [hrows] at hbatch
      obtain ⟨old, hold, rfl⟩ := List.mem_map.mp hbatch
      have hold_id : old.id = loaded.id := by
        by_cases hsame : old.id = loaded.id
        · exact hsame
        · rwa [if_neg hsame] at hid
      rw [if_pos hold_id, hitems]
      change dirty loaded.postedTotalMinor stats.postedTotalMinor old.postedTotalMinor = _
      rw [hposted, dirty]
      split
      · next hsame => rw [hfound hsame.symm old hold hold_id, hsame]
      · rfl

/-! ## All passes -/

/-- Every settled item of a batch that a pass is under way over is one of those that the pass
handled; and after each pass that any part of the history closed out, its total was true. -/
structure TotalsTold (db : Database) (shared : Shared system) : Prop where
  replayed : shared.committed = Library.replay db shared.trace
  own : PassesKept shared
  counted : ∀ worker batchId, (passLog (shared.eventsOf worker)).batch = some batchId →
    ∀ item ∈ shared.committed.items, item.batchId = batchId → item.status = .settled →
      item.id ∈ (passLog (shared.eventsOf worker)).handled.map (·.1)
  told : ∀ earlier worker batchId writes,
    earlier ++ [(worker, .committed (.sweepFinish batchId) writes)] <+: shared.trace →
      PostedTotalTrue batchId
        (Library.replay db (earlier ++ [(worker, .committed (.sweepFinish batchId) writes)]))

namespace TotalsTold

variable {settings : Settings} {db : Database} {shared shared' : Shared system} {worker : Nat}

theorem tells (told : TotalsTold db shared) {entry : Nat × Event system}
    (htrace : shared'.trace = shared.trace ++ [entry])
    (hcommitted : shared'.committed = Library.replay shared.committed [entry])
    (hentry : ∀ batchId writes, entry.2 = .committed (.sweepFinish batchId) writes →
      PostedTotalTrue batchId shared'.committed) (earlier : List (Nat × Event system))
    (author : Nat) (batchId : String) (writes : List (Write schema))
    (hpart : earlier ++ [(author, .committed (.sweepFinish batchId) writes)] <+:
      shared'.trace) :
    PostedTotalTrue batchId
      (Library.replay db (earlier ++ [(author, .committed (.sweepFinish batchId) writes)])) := by
  rw [htrace, List.prefix_concat_iff] at hpart
  rcases hpart with hwhole | hold
  · rw [hwhole, replay_append, ← told.replayed, ← hcommitted]
    have hsame := (List.append_inj' hwhole rfl).2
    rw [List.cons.injEq] at hsame
    exact hentry batchId writes (by rw [← hsame.1])
  · exact told.told earlier author batchId writes hold

theorem uncommitted {event : Event system} (told : TotalsTold db shared)
    (stack : List (Session system)) (hcommitted : shared'.committed = shared.committed)
    (htrace : shared'.trace = shared.trace ++ [(worker, event)])
    (hquiet : ∀ name writes, event ≠ .committed name writes)
    (permits : ∀ name, event = .began name → settlesOnce worker stack shared (.enter name)) :
    TotalsTold db shared' where
  replayed := by
    rw [hcommitted, htrace, replay_append, ← told.replayed, replay_uncommitted hquiet]
  own := told.own.quiet hcommitted htrace hquiet
  counted other batchId hbatch item hitem hitemBatch hsettled := by
    rw [hcommitted] at hitem
    rw [Shared.eventsOf_append htrace] at hbatch ⊢
    split at hbatch
    · rw [if_pos (by assumption), passLog_append]
      rw [passLog_append] at hbatch
      rcases PassLog.batch_uncommitted hquiet hbatch with ⟨maxItems, hbegan⟩ | ⟨hsame, hhandled⟩
      · -- The pass is only about to read its list.
        have hnone := permits _ hbegan
        exact absurd hsettled (hnone _ rfl item hitem hitemBatch)
      · rw [hhandled]
        exact told.counted other batchId hsame item hitem hitemBatch hsettled
    · rw [if_neg (by assumption), List.append_nil]
      rw [List.append_nil] at hbatch
      exact told.counted other batchId hbatch item hitem hitemBatch hsettled
  told := told.tells htrace (hcommitted.trans (replay_uncommitted hquiet _ worker).symm)
    fun _ _ h => absurd h (hquiet _ _)

variable {know : Knowledge} {top : Session system} {rest : List (Session system)}

/-- What a commit settles is handled by every pass over its batch that is under way then. -/
theorem counted_commit (told : TotalsTold db shared)
    (commit : SettlementCommit settings know worker top rest shared)
    (permits : SettlesCounted worker top shared) {other : Nat} {batchId : String}
    (hbatch : (passLog ((shared.commit worker top).eventsOf other)).batch = some batchId)
    {item : ReconciliationItem} (hitem : item ∈ (shared.commit worker top).committed.items)
    (hitemBatch : item.batchId = batchId) (hsettled : item.status = .settled) :
    item.id ∈ (passLog ((shared.commit worker top).eventsOf other)).handled.map (·.1) := by
  have htrace : (shared.commit worker top).trace =
      shared.trace ++ [(worker, .committed top.name top.writes)] := rfl
  obtain ⟨old, hold, hid, holdBatch, hbefore⟩ := commit.settled_before hitem hsettled
  -- The item was handled before, or the transaction is the turn of the item in this pass.
  have hhandled (hbatch : (passLog (shared.eventsOf other)).batch = some batchId) :
      item.id ∈ (passLog (shared.eventsOf other)).handled.map (·.1) ∨
        other = worker ∧ top.name = .sweepItem item.id := by
    rcases hbefore with hsettledBefore | ⟨hname, hwrote⟩
    · rw [← hid]
      exact .inl (told.counted other batchId hbatch old hold (holdBatch.trans hitemBatch)
        hsettledBefore)
    · rcases permits item.id hname hwrote old hold hid other (mem_trace_of_batch hbatch)
          (hbatch.trans (congrArg some (holdBatch.trans hitemBatch).symm)) with hown | hskipped
      · exact .inr hown
      · exact .inl (List.mem_map.mpr ⟨_, PassLog.mem_skipped.mp hskipped, rfl⟩)
  rw [Shared.eventsOf_append htrace] at hbatch ⊢
  split at hbatch
  · rw [if_pos (by assumption), passLog_append]
    rw [passLog_append] at hbatch
    obtain ⟨hbatch', hkept, hturn⟩ := PassLog.batch_committed hbatch
    rcases hhandled hbatch' with hbefore | ⟨-, hname⟩
    · exact List.map_subset _ hkept hbefore
    · exact hturn item.id hname
  · next hother =>
    rw [if_neg hother, List.append_nil]
    rw [List.append_nil] at hbatch
    rcases hhandled hbatch with hbefore | ⟨hsame, -⟩
    · exact hbefore
    · exact absurd hsame.symm hother

theorem commit (told : TotalsTold db shared)
    (unique : Schema.Unique (S := schema) shared.committed)
    (commit : SettlementCommit settings know worker top rest shared)
    (permits : settlesOnce worker (top :: rest) shared .commit)
    (steps : List.Forall₂ (ItemStep settings (Held (top :: rest))) shared.committed.items
      (shared.commit worker top).committed.items) : TotalsTold db (shared.commit worker top) where
  replayed := by
    rw [Shared.commit, told.replayed, replay_append]
    rfl
  own := told.own.commit commit steps
  counted _ _ hbatch _ hitem hitemBatch hsettled :=
    told.counted_commit commit permits.1 hbatch hitem hitemBatch hsettled
  told := told.tells rfl rfl fun batchId writes h => by
    obtain ⟨hname, -⟩ := Event.committed.inj h
    exact commit.postedTotalTrue unique told.own (told.counted worker) permits.2 hname

end TotalsTold

def postedTotalRules (settings : Settings) (db : Database) : SettlementRules settings where
  permits := countsSettled
  guarantee _ held before after :=
    List.Forall₂ (ItemStep settings held) before.committed.items after.committed.items
  invariant := TotalsTold db
  Claimed := Unsettled
  drift _ _ _ told _ := ⟨told.replayed, told.own, told.counted, told.told⟩
  quiet worker stack _ event _ quiet permitted _ told := by
    refine ⟨List.forall₂_same.mpr fun item _ => .refl item,
      told.uncommitted stack rfl rfl (fun name writes h => ?_) fun name h => ?_⟩
    · subst h
      cases quiet
    · subst h
      exact permitted.2
  commit _ _ _ _ unique told permits commit :=
    have steps := commit.items_step (fun _ _ _ h => h) permits.1
    ⟨steps, told.commit unique commit permits.2 steps⟩
  capture _ stack _ _ _ _ _ _ _ _ told _ _ _ _ _ _ := fun _ =>
    ⟨List.forall₂_same.mpr fun item _ => .refl item, told.uncommitted stack rfl rfl
      (fun _ _ h => by cases h) fun _ h => by cases h⟩
  claimed _ _ _ h := h
  claimed_stable := unsettled_stable settings

/-- In a run whose passes count what is settled, every pass leaves its batch with the
net of its settled items as the posted total. -/
theorem posted_total_true (settings : Settings) {db : Database} {world : World}
    (unique : Schema.Unique (S := schema) db) (jobs : List SettlementJob)
    {config : Config system (Except Exception Unit)}
    (hrun : Config.Run countsSettled
      (Config.start db world (settlementWorkers settings jobs)) config)
    {earlier : List (Nat × Event system)} {worker : Nat} {batchId : String}
    {writes : List (Write schema)}
    (hpass : earlier ++ [(worker, .committed (.sweepFinish batchId) writes)] <+:
      config.shared.trace) :
    PostedTotalTrue batchId
      (replay db (earlier ++ [(worker, .committed (.sweepFinish batchId) writes)])) := by
  have start : TotalsTold db ⟨db, world, []⟩ := by
    refine ⟨rfl, fun _ _ h => ?_, fun _ _ h => ?_, fun earlier worker batchId writes h => ?_⟩
    · cases h
    · cases h
    · simp at h
  exact (settlement_run (postedTotalRules settings db) unique start (fun _ _ _ => trivial)
    hrun).good.2.told _ _ _ _ hpass

/-- The batch whose pass the last event closed out. -/
def lastPass (trace : List (Nat × Event system)) : Option String :=
  trace.getLast?.bind fun entry =>
    match entry.2 with
    | .committed (.sweepFinish batchId) _ => some batchId
    | _ => none

theorem of_lastPass {trace : List (Nat × Event system)} {batchId : String}
    (h : lastPass trace = some batchId) : ∃ earlier worker writes,
      trace = earlier ++ [(worker, .committed (.sweepFinish batchId) writes)] := by
  obtain ⟨⟨worker, event⟩, hlast, hevent⟩ := Option.bind_eq_some_iff.mp h
  obtain ⟨earlier, rfl⟩ := List.getLast?_eq_some_iff.mp hlast
  refine ⟨earlier, worker, ?_⟩
  dsimp only at hevent
  split at hevent
  · cases hevent
    exact ⟨_, rfl⟩
  · cases hevent

/-- A retry settles one of two items, then a pass the other: only that one is in the
total. -/
theorem posted_total_of_last_pass :
    ∃ config, Config.Run anyMove
        (sampleStart [sampleItem "ri_1" "sb_1", sampleItem "ri_2" "sb_1"] false
          [.retry "ri_1", .sweep "sb_1" "scheduled" 5]) config ∧
      ∃ earlier worker writes,
        earlier ++ [(worker, .committed (.sweepFinish "sb_1") writes)] <+: config.shared.trace ∧
        ¬ PostedTotalTrue "sb_1" (replay
          (sampleSettlement [sampleItem "ri_1" "sb_1", sampleItem "ri_2" "sb_1"] false)
          (earlier ++ [(worker, .committed (.sweepFinish "sb_1") writes)])) := by
  have hschedule : ((sampleStart [sampleItem "ri_1" "sb_1", sampleItem "ri_2" "sb_1"] false
      [.retry "ri_1", .sweep "sb_1" "scheduled" 5]).schedule anyMove
        (advances 0 (settleChoices []) ++
          advances 1 (([.plain, .id "1"] : List Choice) ++ secondChoices ++ plains 14))).map
        (fun config => (lastPass config.shared.trace,
          decide (PostedTotalTrue "sb_1" config.shared.committed))) =
      some (some "sb_1", false) := by
    decide +kernel
  obtain ⟨config, hconfig, hlast⟩ := Option.map_eq_some_iff.mp hschedule
  obtain ⟨hlast, htotal⟩ := Prod.mk.inj hlast
  obtain ⟨earlier, worker, writes, htrace⟩ := of_lastPass hlast
  have hrun := Config.run_of_schedule hconfig
  refine ⟨config, hrun, earlier, worker, writes, htrace ▸ List.prefix_refl _, ?_⟩
  have hreplay := hrun.replay
  rw [htrace] at hreplay
  rw [← hreplay]
  exact of_decide_eq_false htotal

/-- A pass that settles the one item of its batch. -/
theorem posted_total_true_pass :
    ∃ config, Config.Run countsSettled
        (sampleStart [sampleItem "ri_1" "sb_1"] false [.sweep "sb_1" "scheduled" 5]) config ∧
      config.shared.committed.batches.map (·.postedTotalMinor) = [470] ∧
      ∃ earlier worker writes,
        config.shared.trace = earlier ++ [(worker, .committed (.sweepFinish "sb_1") writes)] ∧
        PostedTotalTrue "sb_1" (replay (sampleSettlement [sampleItem "ri_1" "sb_1"] false)
          (earlier ++ [(worker, .committed (.sweepFinish "sb_1") writes)])) := by
  have hschedule : ((sampleStart [sampleItem "ri_1" "sb_1"] false
      [.sweep "sb_1" "scheduled" 5]).schedule countsSettled
        (advances 0 (([.plain, .id "1"] : List Choice) ++ plains 14 ++ postChoices ++
          settledChoices "2" ++ plains 11))).map
        (fun config => (lastPass config.shared.trace,
          config.shared.committed.batches.map (·.postedTotalMinor))) =
      some (some "sb_1", [470]) := by
    decide +kernel
  obtain ⟨config, hconfig, hlast⟩ := Option.map_eq_some_iff.mp hschedule
  obtain ⟨hlast, htotal⟩ := Prod.mk.inj hlast
  obtain ⟨earlier, worker, writes, htrace⟩ := of_lastPass hlast
  have hrun := Config.run_of_schedule hconfig
  exact ⟨config, hrun, htotal, earlier, worker, writes, htrace,
    posted_total_true sampleSettings (unique_sampleSettlement (by simp)) _ hrun
      (htrace ▸ List.prefix_refl _)⟩

end PayzenoLedger
