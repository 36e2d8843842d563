import Mathlib.Data.List.Infix
import PayzenoLedger.Settlement.Terminal

/-!
# What a reconciled batch has left

A pass makes its batch `reconciled` when none of the items that it listed failed.  Of the
others it knows nothing: those that were failed or orphaned when it read its list, those that
did not fit into it, those that its budget cut off, and those that it found handled.
-/

set_option autoImplicit false

namespace PayzenoLedger

open Library Write

/-- Every item of the batch is settled. -/
def BatchSettled (batchId : String) (db : Database) : Prop :=
  ∀ item ∈ db.items, item.batchId = batchId → item.status = .settled

/-- Every item of a reconciled batch is settled. -/
def ReconciledSettled (db : Database) : Prop :=
  ∀ batch ∈ db.batches, batch.status = .reconciled → BatchSettled batch.id db

instance (db : Database) : Decidable (ReconciledSettled db) :=
  inferInstanceAs (Decidable (∀ batch ∈ db.batches, _ → ∀ item ∈ db.items, _ → _))

/-! ## The condition -/

/-- The items of the batch are settled or wait, and a pass takes all that wait. -/
structure Listable (batchId : String) (maxItems : Nat) (db : Database) : Prop where
  waits : ∀ item ∈ db.items, item.batchId = batchId →
    item.status = .settled ∨ item.status.isRetryable = true
  fits : (waitingItems batchId db).length ≤ maxItems

instance (batchId : String) (maxItems : Nat) (db : Database) :
    Decidable (Listable batchId maxItems db) :=
  decidable_of_iff (_ ∧ _) ⟨fun h => ⟨h.1, h.2⟩, fun h => ⟨h.waits, h.fits⟩⟩

/-- The batch whose items the transaction lists, and how many it takes. -/
def SessionName.lists : SessionName → Option (String × Nat)
  | .sweepRead batchId maxItems => some (batchId, maxItems)
  | _ => none

/-- The batch that the transaction guards. -/
def SessionName.guards : SessionName → Option String
  | .sweepGuard batchId => some batchId
  | _ => none

/-- The batch that the worker is reading the items of after this part of a run, and how many it
takes. -/
def readingList (worker : Nat) (trace : List (Nat × Event system)) : Option (String × Nat) :=
  (trace.filter fun entry => entry.1 = worker).getLast?.bind fun entry =>
    match entry.2 with
    | .began name => name.lists
    | _ => none

/-- The clock of the pass was within its budget where it stopped. -/
def Mark.withinBudget (settings : Settings) : Mark → Prop
  | .overran started instant =>
      instant - started ≤ settings.reconcileSweepWallBudgetSeconds * 1000000
  | _ => True

instance (settings : Settings) (mark : Mark) : Decidable (mark.withinBudget settings) :=
  match mark with
  | .overran started instant => inferInstanceAs (Decidable (instant - started ≤ _))
  | .posting .. | .unlocked .. | .matching .. | .minted _ | .closing .. | .reconciling _ =>
      .isTrue trivial

/-- The items that a pass listed and that no longer waited when their turn came. -/
def PassLog.skipped (log : PassLog) : List String :=
  (log.handled.filter fun entry => !entry.2).map (·.1)

theorem PassLog.mem_skipped {log : PassLog} {itemId : String} :
    itemId ∈ log.skipped ↔ (itemId, false) ∈ log.handled := by
  simp [skipped]

/-- What a pass has to find for its batch to be settled by it: while it read its list, no item
was failed, orphaned or under review, and all that waited went into the list; an item that no
longer waited when its turn came is settled; and the budget lasted. -/
structure FoundWhole (settings : Settings) (db : Database) (worker : Nat) (top : Session system)
    (shared : Shared system) : Prop where
  listed : ∀ earlier ∈ shared.trace.inits, ∀ list ∈ readingList worker earlier,
    Listable list.1 list.2 (replay db earlier)
  skipped : ∀ item ∈ shared.committed.items,
    item.id ∈ (passLog (shared.eventsOf worker)).skipped → item.status = .settled
  budget : ∀ mark ∈ top.marks, mark.withinBudget settings

instance (settings : Settings) (db : Database) (worker : Nat) (top : Session system)
    (shared : Shared system) : Decidable (FoundWhole settings db worker top shared) :=
  decidable_of_iff (_ ∧ _ ∧ _)
    ⟨fun h => ⟨h.1, h.2.1, h.2.2⟩, fun h => ⟨h.listed, h.skipped, h.budget⟩⟩

/-- Every pass without a failed item finds its batch whole. -/
def findsWhole (settings : Settings) (db : Database) : Condition system
  | worker, top :: _, shared, .commit =>
      top.name.guards.isSome → (passLog (shared.eventsOf worker)).failed = 0 →
        FoundWhole settings db worker top shared
  | _, _, _, _ => True

instance (settings : Settings) (db : Database) (worker : Nat) (stack : List (Session system))
    (shared : Shared system) (move : Move system) :
    Decidable (findsWhole settings db worker stack shared move) :=
  match stack, move with
  | _ :: _, .commit => inferInstanceAs (Decidable (_ → _ → _))
  | [], _ | _ :: _, .enter _ | _ :: _, .rollback | _ :: _, .call .. | _ :: _, .crash =>
      .isTrue trivial

/-- The condition on the commits of a run. -/
def leavesNothing (settings : Settings) (db : Database) : Condition system :=
  fun worker stack shared move =>
    leavesSettled worker stack shared move ∧ findsWhole settings db worker stack shared move

instance (settings : Settings) (db : Database) (worker : Nat) (stack : List (Session system))
    (shared : Shared system) (move : Move system) :
    Decidable (leavesNothing settings db worker stack shared move) :=
  inferInstanceAs (Decidable (_ ∧ _))

/-! ## The items of a pass -/

/-- The items that passes settled themselves are settled. -/
def PassesKept (shared : Shared system) : Prop :=
  ∀ worker, ∀ itemId, (itemId, true) ∈ (passLog (shared.eventsOf worker)).handled →
    ∀ item ∈ shared.committed.items, item.id = itemId → item.status = .settled

/-- Only the commit of an item enters it. -/
theorem PassLog.handled_quiet {log : PassLog} {event : Event system}
    (hquiet : ∀ name writes, event ≠ .committed name writes) :
    (log.step event).handled ⊆ log.handled := by
  intro entry hentry
  cases event with
  | began name => cases name <;> first | exact hentry | cases hentry
  | rolledBack name => cases name <;> exact hentry
  | crashed => exact hentry
  | called request reply => exact hentry
  | committed name writes => exact absurd rfl (hquiet name writes)

theorem PassLog.handled_committed {log : PassLog} {name : SessionName}
    {writes : List (Write schema)} {entry : String × Bool}
    (hentry : entry ∈ (log.step (.committed name writes)).handled) :
    entry ∈ log.handled ∨ name = .sweepItem entry.1 ∧ entry.2 = !writes.isEmpty := by
  cases name with
  | sweepItem itemId =>
      rcases List.mem_append.mp hentry with hold | hnew
      · exact .inl hold
      · rw [List.mem_singleton.mp hnew]
        exact .inr ⟨rfl, rfl⟩
  | sweepPublish => cases hentry
  | _ => exact .inl hentry

theorem PassesKept.quiet {shared shared' : Shared system} {author : Nat} {event : Event system}
    (kept : PassesKept shared) (hcommitted : shared'.committed = shared.committed)
    (htrace : shared'.trace = shared.trace ++ [(author, event)])
    (hquiet : ∀ name writes, event ≠ .committed name writes) : PassesKept shared' := by
  intro worker itemId hhandled item hitem hid
  rw [hcommitted] at hitem
  refine kept worker itemId ?_ item hitem hid
  rw [Shared.eventsOf_append htrace] at hhandled
  split at hhandled
  · rw [passLog_append] at hhandled
    exact PassLog.handled_quiet hquiet hhandled
  · rwa [List.append_nil] at hhandled

/-- The commit of an item that writes anything settles the item. -/
theorem SettlementCommit.settles {settings : Settings} {know : Knowledge} {worker : Nat}
    {top : Session system} {rest : List (Session system)} {shared : Shared system}
    (commit : SettlementCommit settings know worker top rest shared) {itemId : String}
    (hname : top.name.itemSettled = some itemId) (hwrites : top.writes ≠ []) :
    ∀ item ∈ (shared.commit worker top).committed.items, item.id = itemId →
      item.status = .settled := by
  cases commit.items with
  | unchanged id same idle => exact absurd (idle (by simp [hname])) hwrites
  | guarded id batchId change rewrites keeps matching hheld claimed has settles =>
      rcases settles with ⟨hid, hsettled⟩ | ⟨hnone, -⟩
      · obtain rfl : id = itemId := Option.some.inj (hid.symm.trans hname)
        intro item hitem hitemId
        have hrows : (shared.commit worker top).committed.items = _ := rewrites shared.committed
        rw [hrows] at hitem
        obtain ⟨old, -, rfl⟩ := List.mem_map.mp hitem
        by_cases hsame : old.id = id
        · rw [if_pos hsame]
          exact hsettled old
        · rw [if_neg hsame] at hitemId
          exact absurd hitemId hsame
      · rw [hnone] at hname
        cases hname
  | unlocked loaded status chargeId change rewrites keeps marked listed ofName =>
      rw [ofName] at hname
      cases hname

theorem PassesKept.commit {settings : Settings} {know : Knowledge} {worker : Nat}
    {top : Session system} {rest : List (Session system)} {shared : Shared system}
    (kept : PassesKept shared)
    (commit : SettlementCommit settings know worker top rest shared)
    (steps : List.Forall₂ (ItemStep settings (Held (top :: rest))) shared.committed.items
      (shared.commit worker top).committed.items) :
    PassesKept (shared.commit worker top) := by
  intro other itemId hhandled item hitem hid
  have hold (hhandled : (itemId, true) ∈ (passLog (shared.eventsOf other)).handled) :
      item.status = .settled := by
    obtain ⟨old, hold, step⟩ := exists_left_of_forall₂ steps hitem
    exact (step.terminal (kept other itemId hhandled old hold (step.id.symm.trans hid))).1
  have htrace : (shared.commit worker top).trace =
      shared.trace ++ [(worker, .committed top.name top.writes)] := rfl
  rw [Shared.eventsOf_append htrace] at hhandled
  split at hhandled
  · next hsame =>
      subst hsame
      rw [passLog_append] at hhandled
      rcases PassLog.handled_committed hhandled with hbefore | ⟨hname, hwrites⟩
      · exact hold hbefore
      · refine commit.settles (by rw [hname]; rfl) (fun hnone => ?_) item hitem hid
        rw [hnone] at hwrites
        cases hwrites
  · rw [List.append_nil] at hhandled
    exact hold hhandled

/-! ## The guard of a pass -/

/-- The items are those of before, in their batches, and what was settled still is. -/
def ItemsKept (db db' : Database) : Prop :=
  ∀ item ∈ db'.items, ∃ old ∈ db.items, old.id = item.id ∧ old.batchId = item.batchId ∧
    (old.status = .settled → item.status = .settled)

theorem ItemsKept.refl (db : Database) : ItemsKept db db :=
  fun item hitem => ⟨item, hitem, rfl, rfl, id⟩

theorem ItemsKept.trans {first second third : Database} (left : ItemsKept first second)
    (right : ItemsKept second third) : ItemsKept first third := by
  intro item hitem
  obtain ⟨old, hold, hid, hbatch, hsettled⟩ := right item hitem
  obtain ⟨oldest, holdest, hid', hbatch', hsettled'⟩ := left old hold
  exact ⟨oldest, holdest, hid'.trans hid, hbatch'.trans hbatch, hsettled ∘ hsettled'⟩

theorem ItemsKept.of_steps {settings : Settings} {held : Lock system → Prop} {db db' : Database}
    (steps : List.Forall₂ (ItemStep settings held) db.items db'.items) : ItemsKept db db' := by
  intro item hitem
  obtain ⟨old, hold, step⟩ := exists_left_of_forall₂ steps hitem
  exact ⟨old, hold, step.id.symm, step.batchId.symm, fun h => (step.terminal h).1⟩

theorem BatchSettled.kept {batchId : String} {db db' : Database} (settled : BatchSettled batchId db)
    (kept : ItemsKept db db') : BatchSettled batchId db' := by
  intro item hitem hbatch
  obtain ⟨old, hold, -, hold_batch, hsettled⟩ := kept item hitem
  exact hsettled (settled old hold (hold_batch.trans hbatch))

/-- What holds of the passes at all times: their own items are settled, those of the whole batch
once the guard of a pass without failures has committed, and those of the reconciled batches. -/
structure PassesTold (db : Database) (shared : Shared system) : Prop where
  replayed : shared.committed = Library.replay db shared.trace
  kept : ∀ earlier, earlier <+: shared.trace →
    ItemsKept (Library.replay db earlier) shared.committed
  own : PassesKept shared
  swept : ∀ worker batchId, (passLog (shared.eventsOf worker)).batch = some batchId →
    (passLog (shared.eventsOf worker)).swept = true →
    (passLog (shared.eventsOf worker)).failed = 0 → BatchSettled batchId shared.committed
  settled : ReconciledSettled shared.committed

theorem readingList_of_last {worker maxItems : Nat} {batchId : String} {past : Shared system}
    (hread : (past.eventsOf worker).getLast? = some (.began (.sweepRead batchId maxItems))) :
    readingList worker past.trace = some (batchId, maxItems) := by
  unfold Shared.eventsOf at hread
  rw [List.getLast?_map] at hread
  obtain ⟨entry, hlast, hevent⟩ := Option.map_eq_some_iff.mp hread
  rw [readingList, hlast, Option.bind_some, hevent]
  rfl

/-- A pass that found its batch whole, and none of whose items failed, leaves it settled. -/
theorem PassesTold.swept_of_found {settings : Settings} {db : Database} {know : Knowledge}
    {worker : Nat} {batchId : String} {top : Session system} {shared : Shared system}
    (told : PassesTold db shared) (hmoment : ∀ past, know.Moment past → PassesTold db past)
    (list : SweptList settings know worker batchId top shared)
    (hfailed : (passLog (shared.eventsOf worker)).failed = 0)
    (found : FoundWhole settings db worker top shared) : BatchSettled batchId shared.committed := by
  obtain ⟨past, maxItems, since, moment, hread, hhandled⟩ := list.listed
  have hpast := (hmoment past moment).replayed
  have listable : Listable batchId maxItems past.committed := by
    rw [hpast]
    exact found.listed past.trace ((List.mem_inits _ _).mpr since.trace) _
      (readingList_of_last hread)
  intro item hitem hbatch
  obtain ⟨old, hold, hid, hold_batch, hkept⟩ := told.kept past.trace since.trace item hitem
  rw [← hpast] at hold
  rcases listable.waits old hold (hold_batch.trans hbatch) with hsettled | hwaits
  · exact hkept hsettled
  · rcases hhandled hfailed listable.fits with ⟨started, instant, hmark, hover⟩ | hall
    · exact absurd (found.budget _ hmark) (not_le.mpr hover)
    · have hwaiting : old ∈ waitingItems batchId past.committed :=
        List.mem_filter.mpr ⟨hold, by simp [hold_batch.trans hbatch, hwaits]⟩
      obtain ⟨entry, hentry, hentryId⟩ := List.mem_map.mp (hall old hwaiting)
      have hitemId : item.id = entry.1 := hid.symm.trans hentryId.symm
      obtain ⟨itemId, wrote⟩ := entry
      cases wrote with
      | true => exact told.own worker itemId hentry item hitem hitemId
      | false =>
          refine found.skipped item hitem ?_
          rw [hitemId]
          exact PassLog.mem_skipped.mpr hentry

/-! ## Steps -/

/-- Only a commit changes the rows. -/
theorem replay_uncommitted {event : Event system}
    (hquiet : ∀ name writes, event ≠ .committed name writes) (db : Database) (worker : Nat) :
    Library.replay db [(worker, event)] = db := by
  cases event with
  | committed name writes => exact absurd rfl (hquiet name writes)
  | _ => rfl

/-- The log of a pass that is swept and has no failures was so before an event that is no
commit. -/
theorem PassLog.swept_quiet {log : PassLog} {event : Event system} {batchId : String}
    (hquiet : ∀ name writes, event ≠ .committed name writes)
    (hbatch : (log.step event).batch = some batchId) (hswept : (log.step event).swept = true)
    (hfailed : (log.step event).failed = 0) :
    log.batch = some batchId ∧ log.swept = true ∧ log.failed = 0 := by
  cases event with
  | began name =>
      cases name <;> first | exact ⟨hbatch, hswept, hfailed⟩ | cases hswept
  | rolledBack name =>
      cases name <;> first | exact ⟨hbatch, hswept, hfailed⟩ | cases hbatch | cases hfailed
  | crashed => cases hbatch
  | called request reply => exact ⟨hbatch, hswept, hfailed⟩
  | committed name writes => exact absurd rfl (hquiet name writes)

/-- Only the commit of a guard sweeps. -/
theorem PassLog.swept_committed {log : PassLog} {name : SessionName}
    {writes : List (Write schema)} {batchId : String}
    (hbatch : (log.step (.committed name writes)).batch = some batchId)
    (hswept : (log.step (.committed name writes)).swept = true)
    (hfailed : (log.step (.committed name writes)).failed = 0) :
    log.batch = some batchId ∧ log.failed = 0 ∧
      (log.swept = true ∨ ∃ guarded, name = .sweepGuard guarded) := by
  cases name with
  | sweepGuard guarded => exact ⟨hbatch, hfailed, .inr ⟨guarded, rfl⟩⟩
  | sweepFinish => cases hbatch
  | sweepPublish => cases hbatch
  | _ => exact ⟨hbatch, hfailed, .inl hswept⟩

namespace PassesTold

variable {settings : Settings} {db : Database} {shared shared' : Shared system} {worker : Nat}

theorem history (told : PassesTold db shared) {entry : Nat × Event system}
    (htrace : shared'.trace = shared.trace ++ [entry])
    (hcommitted : shared'.committed = Library.replay shared.committed [entry])
    (kept : ItemsKept shared.committed shared'.committed) :
    shared'.committed = Library.replay db shared'.trace ∧ ∀ earlier, earlier <+: shared'.trace →
      ItemsKept (Library.replay db earlier) shared'.committed := by
  refine ⟨by rw [hcommitted, told.replayed, htrace, replay_append], fun earlier hprefix => ?_⟩
  rw [htrace, List.prefix_concat_iff] at hprefix
  rcases hprefix with rfl | hold
  · rw [replay_append, ← told.replayed, ← hcommitted]
    exact .refl _
  · exact (told.kept earlier hold).trans kept

theorem quiet {event : Event system} (told : PassesTold db shared)
    (hcommitted : shared'.committed = shared.committed)
    (htrace : shared'.trace = shared.trace ++ [(worker, event)])
    (hquiet : ∀ name writes, event ≠ .committed name writes) : PassesTold db shared' := by
  obtain ⟨hreplayed, hkept⟩ := told.history htrace
    (hcommitted.trans (replay_uncommitted hquiet _ worker).symm) (hcommitted ▸ .refl _)
  refine ⟨hreplayed, hkept, told.own.quiet hcommitted htrace hquiet, ?_, hcommitted ▸ told.settled⟩
  intro other batchId hbatch hswept hfailed
  rw [hcommitted]
  rw [Shared.eventsOf_append htrace] at hbatch hswept hfailed
  split at hbatch
  · rw [if_pos (by assumption), passLog_append] at hswept hfailed
    rw [passLog_append] at hbatch
    obtain ⟨hbatch', hswept', hfailed'⟩ := PassLog.swept_quiet hquiet hbatch hswept hfailed
    exact told.swept other batchId hbatch' hswept' hfailed'
  · rw [if_neg (by assumption), List.append_nil] at hswept hfailed
    rw [List.append_nil] at hbatch
    exact told.swept other batchId hbatch hswept hfailed

variable {know : Knowledge} {top : Session system} {rest : List (Session system)}

/-- After a commit, a pass that is swept without failures has its batch settled. -/
theorem swept_commit (told : PassesTold db shared)
    (hmoment : ∀ past, know.Moment past → PassesTold db past)
    (commit : SettlementCommit settings know worker top rest shared)
    (permits : findsWhole settings db worker (top :: rest) shared .commit) {other : Nat}
    {batchId : String}
    (hbatch : (passLog ((shared.commit worker top).eventsOf other)).batch = some batchId)
    (hswept : (passLog ((shared.commit worker top).eventsOf other)).swept = true)
    (hfailed : (passLog ((shared.commit worker top).eventsOf other)).failed = 0) :
    BatchSettled batchId shared.committed := by
  have htrace : (shared.commit worker top).trace =
      shared.trace ++ [(worker, .committed top.name top.writes)] := rfl
  rw [Shared.eventsOf_append htrace] at hbatch hswept hfailed
  split at hbatch
  · next hsame =>
      subst hsame
      rw [if_pos rfl, passLog_append] at hswept hfailed
      rw [passLog_append] at hbatch
      obtain ⟨hbatch', hfailed', hswept' | ⟨guarded, hname⟩⟩ :=
        PassLog.swept_committed hbatch hswept hfailed
      · exact told.swept worker batchId hbatch' hswept' hfailed'
      · have list := commit.swept guarded hname
        obtain rfl : guarded = batchId := Option.some.inj (list.batch.symm.trans hbatch')
        exact told.swept_of_found hmoment list hfailed' (permits (by rw [hname]; rfl) hfailed')
  · rw [if_neg (by assumption), List.append_nil] at hswept hfailed
    rw [List.append_nil] at hbatch
    exact told.swept other batchId hbatch hswept hfailed

/-- A pass makes its batch reconciled when it has none failed, and then it is settled. -/
theorem settled_commit (told : PassesTold db shared)
    (commit : SettlementCommit settings know worker top rest shared)
    (kept : ItemsKept shared.committed (shared.commit worker top).committed) :
    ReconciledSettled (shared.commit worker top).committed := by
  intro batch hbatch hreconciled
  cases commit.batches with
  | unchanged ofName tables =>
      have hrows : (shared.commit worker top).committed.batches = shared.committed.batches :=
        rows_applyAll_of_ne (S := schema) top.writes Table.settlementBatch
          (fun write hwrite h => tables write hwrite h.symm) _
      rw [hrows] at hbatch
      exact (told.settled batch hbatch hreconciled).kept kept
  | reconciled loaded stats stamp handled ofName marked file batch' swept passed others rewrites =>
      have hrows : (shared.commit worker top).committed.batches = _ := rewrites shared.committed
      rw [hrows] at hbatch
      obtain ⟨old, hold, rfl⟩ := List.mem_map.mp hbatch
      by_cases hid : old.id = loaded.id
      · rw [if_pos hid] at hreconciled ⊢
        by_cases hsame : loaded.status = .reconciled ∨ stats.failed ≠ 0
        · -- The flush leaves the status, or makes it another one.
          have hold' : old.status = .reconciled := by
            simp only [SettlementBatch.merge, SettlementBatchRepository.reconciledWith,
              decide_eq_true_eq, dirty] at hreconciled
            rcases hsame with hloaded | hfailed
            · simp only [hloaded] at hreconciled
              split at hreconciled <;> simp_all
            · simp only [if_neg hfailed] at hreconciled
              split at hreconciled
              · exact hreconciled
              · cases hreconciled
          exact (told.settled old hold hold').kept kept
        · simp only [not_or, not_not] at hsame
          have hfailed : (passLog (shared.eventsOf worker)).failed = 0 := by
            have htally := passed.tally.failed
            rw [hsame.2] at htally
            exact Int.ofNat_eq_zero.mp htally.symm
          have hsettled := told.swept worker loaded.id batch' swept hfailed
          change BatchSettled old.id _
          rw [hid]
          exact hsettled.kept kept
      · rw [if_neg hid] at hreconciled ⊢
        exact (told.settled old hold hreconciled).kept kept

theorem commit (told : PassesTold db shared)
    (hmoment : ∀ past, know.Moment past → PassesTold db past)
    (commit : SettlementCommit settings know worker top rest shared)
    (permits : findsWhole settings db worker (top :: rest) shared .commit)
    (steps : List.Forall₂ (ItemStep settings (Held (top :: rest))) shared.committed.items
      (shared.commit worker top).committed.items) : PassesTold db (shared.commit worker top) := by
  have kept := ItemsKept.of_steps steps
  obtain ⟨hreplayed, hkept⟩ := told.history rfl rfl kept
  exact ⟨hreplayed, hkept, told.own.commit commit steps,
    fun other batchId hbatch hswept hfailed =>
      (told.swept_commit hmoment commit permits hbatch hswept hfailed).kept kept,
    told.settled_commit commit kept⟩

end PassesTold

/-! ## Runs -/

def reconciledRules (settings : Settings) (db : Database) : SettlementRules settings where
  permits := leavesNothing settings db
  guarantee _ held before after :=
    List.Forall₂ (ItemStep settings held) before.committed.items after.committed.items
  invariant := PassesTold db
  Claimed := Unsettled
  drift _ _ _ told _ := ⟨told.replayed, told.kept, told.own, told.swept, told.settled⟩
  quiet _ _ _ event _ quiet _ _ told :=
    ⟨List.forall₂_same.mpr fun item _ => .refl item, told.quiet rfl rfl fun name writes h => by
      subst h
      cases quiet⟩
  commit _ _ _ _ _ told permits commit :=
    have steps := commit.items_step (fun _ _ _ h => h) permits.1
    ⟨steps, told.commit (fun _ h => h) commit permits.2 steps⟩
  capture _ _ _ _ _ _ _ _ _ _ told _ _ _ _ _ _ := fun _ =>
    ⟨List.forall₂_same.mpr fun item _ => .refl item, told.quiet rfl rfl fun _ _ h => by cases h⟩
  claimed _ _ _ h := h
  claimed_stable := unsettled_stable settings

/-- In a run whose passes without failures find their batches whole, every item of a reconciled
batch is settled. -/
theorem reconciled_settled (settings : Settings) {db : Database} {world : World}
    (unique : Schema.Unique (S := schema) db) (settled : ReconciledSettled db)
    (jobs : List SettlementJob) {config : Config system (Except Exception Unit)}
    (hrun : Config.Run (leavesNothing settings db)
      (Config.start db world (settlementWorkers settings jobs)) config) :
    ReconciledSettled config.shared.committed := by
  have start : PassesTold db ⟨db, world, []⟩ := by
    refine ⟨rfl, fun earlier hprefix => ?_, fun _ _ h => ?_, fun _ _ h => ?_, settled⟩
    · rw [List.prefix_nil.mp hprefix]
      exact .refl _
    · cases h
    · cases h
  exact (settlement_run (reconciledRules settings db) unique start (fun _ _ _ => trivial)
    hrun).good.2.settled

/-- The first pass finds that an item has no charge and marks it orphaned; the second
one lists nothing, so that nothing fails. -/
theorem reconciled_orphaned :
    ∃ config, Config.Run anyMove
        (sampleStart [{ sampleItem "ri_1" "sb_1" with chargeId := none }] false
          [.sweep "sb_1" "scheduled" 5, .sweep "sb_1" "scheduled" 5]) config ∧
      ¬ ReconciledSettled config.shared.committed := by
  have hschedule : ((sampleStart [{ sampleItem "ri_1" "sb_1" with chargeId := none }] false
      [.sweep "sb_1" "scheduled" 5, .sweep "sb_1" "scheduled" 5]).schedule anyMove
        (advances 0 (passChoices "1" (plains 33) "1") ++
          advances 1 (passChoices "2" (plains 22) "2"))).map
        (fun config => decide (ReconciledSettled config.shared.committed)) = some false := by
    decide +kernel
  obtain ⟨config, hconfig, hsettled⟩ := Option.map_eq_some_iff.mp hschedule
  exact ⟨config, Config.run_of_schedule hconfig, of_decide_eq_false hsettled⟩

/-- A pass that settles the one item of its batch. -/
theorem reconciled_settled_pass :
    ∃ config, Config.Run
        (leavesNothing sampleSettings (sampleSettlement [sampleItem "ri_1" "sb_1"] false))
        (sampleStart [sampleItem "ri_1" "sb_1"] false [.sweep "sb_1" "scheduled" 5]) config ∧
      config.shared.committed.batches.map (·.status) = [.reconciled] ∧
      ReconciledSettled config.shared.committed := by
  have hschedule : ((sampleStart [sampleItem "ri_1" "sb_1"] false
      [.sweep "sb_1" "scheduled" 5]).schedule
        (leavesNothing sampleSettings (sampleSettlement [sampleItem "ri_1" "sb_1"] false))
        (advances 0 (passChoices "1"
          (plains 14 ++ postChoices ++ settledChoices "2" ++ plains 14) "3"))).map
        (fun config => config.shared.committed.batches.map (·.status)) =
      some [.reconciled] := by
    decide +kernel
  obtain ⟨config, hconfig, hreconciled⟩ := Option.map_eq_some_iff.mp hschedule
  have hrun := Config.run_of_schedule hconfig
  exact ⟨config, hrun, hreconciled, reconciled_settled sampleSettings
    (unique_sampleSettlement (by simp)) (by decide) _ hrun⟩

end PayzenoLedger
