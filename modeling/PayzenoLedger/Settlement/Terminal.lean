import PayzenoLedger.Settlement.Jobs

/-!
# A settled item stays settled

Sweeps and retries settle an item, and the sweep marks it, only under the lock
of its batch and after they found it unsettled there.  The failure marks of a
retry and the manual match write without that lock, on what they read before.
-/

set_option autoImplicit false

namespace PayzenoLedger

open Library Write

/-- The settled items are as they were. -/
def SettledKept (db db' : Database) : Prop :=
  ∀ item ∈ db.items, item.status = .settled → ∃ item' ∈ db'.items, item'.id = item.id ∧
    item'.status = .settled ∧ item'.chargeId = item.chargeId ∧
    item'.settledTransactionId = item.settledTransactionId

instance (db db' : Database) : Decidable (SettledKept db db') :=
  inferInstanceAs (Decidable (∀ item ∈ db.items, _ → ∃ item' ∈ db'.items, _))

theorem SettledKept.refl (db : Database) : SettledKept db db :=
  fun item hitem hsettled => ⟨item, hitem, rfl, hsettled, rfl, rfl⟩

theorem SettledKept.trans {first second third : Database} (left : SettledKept first second)
    (right : SettledKept second third) : SettledKept first third := by
  intro item hitem hsettled
  obtain ⟨item', hitem', hid, hsettled', hcharge, htransaction⟩ := left item hitem hsettled
  obtain ⟨item'', hitem'', hid', hsettled'', hcharge', htransaction'⟩ :=
    right item' hitem' hsettled'
  exact ⟨item'', hitem'', hid'.trans hid, hsettled'', hcharge'.trans hcharge,
    htransaction'.trans htransaction⟩

/-! ## The condition -/

/-- A transaction that writes without the lock of the batch overwrites no settled
row: where the row is settled by now, the write found the status as it sets it,
so that its flush leaves it out, and the charge likewise or as the row has it. -/
def Mark.leavesSettled (items : List ReconciliationItem) : Mark → Prop
  | .unlocked loaded status chargeId =>
      ∀ item ∈ items, item.id = loaded.id → item.status = .settled →
        loaded.status = status ∧ (loaded.chargeId = chargeId ∨ item.chargeId = chargeId)
  | _ => True

instance (items : List ReconciliationItem) (mark : Mark) :
    Decidable (mark.leavesSettled items) := by
  cases mark <;> unfold Mark.leavesSettled <;> infer_instance

/-- The condition on the commits of a run. -/
def leavesSettled : Condition system
  | _, top :: _, shared, .commit =>
      ∀ mark ∈ top.marks, mark.leavesSettled shared.committed.items
  | _, _, _, _ => True

instance (worker : Nat) (stack : List (Session system)) (shared : Shared system)
    (move : Move system) : Decidable (leavesSettled worker stack shared move) :=
  match stack, move with
  | top :: _, .commit => inferInstanceAs (Decidable (∀ mark ∈ top.marks, _))
  | [], _ | _ :: _, .enter _ | _ :: _, .rollback | _ :: _, .call .. | _ :: _, .crash =>
      inferInstanceAs (Decidable True)

/-! ## One step -/

/-- What a commit under these locks may do to an item. -/
structure ItemStep (settings : Settings) (held : Lock system → Prop)
    (before after : ReconciliationItem) : Prop where
  id : after.id = before.id
  batchId : after.batchId = before.batchId
  terminal : before.status = .settled → after.status = .settled ∧
    after.chargeId = before.chargeId ∧
    after.settledTransactionId = before.settledTransactionId
  guarded : after.status = .settled → before.status ≠ .settled →
    held (.advisory (AdvisoryLockManager.key settings before.batchId))

variable {settings : Settings} {held : Lock system → Prop}

theorem ItemStep.refl (item : ReconciliationItem) : ItemStep settings held item item :=
  ⟨rfl, rfl, fun hsettled => ⟨hsettled, rfl, rfl⟩, fun hsettled hne => absurd hsettled hne⟩

theorem forall₂_of_rewrites {id : String}
    {change : ReconciliationItem → ReconciliationItem} {writes : List (Write schema)}
    (rewrites : Rewrites id change writes) (db : Database)
    (h : ∀ item ∈ db.items, item.id = id → ItemStep settings held item (change item)) :
    List.Forall₂ (ItemStep settings held) db.items (applyAll writes db : Database).items := by
  rw [rewrites, List.forall₂_map_right_iff, List.forall₂_same]
  intro item hitem
  split
  · next hid => exact h item hitem hid
  · exact .refl item

theorem SettledKept.of_steps {db db' : Database}
    (steps : List.Forall₂ (ItemStep settings held) db.items db'.items) :
    SettledKept db db' := by
  intro item hitem hsettled
  obtain ⟨new, hnew, step⟩ := exists_right_of_forall₂ steps hitem
  obtain ⟨hstatus, hcharge, htransaction⟩ := step.terminal hsettled
  exact ⟨new, hnew, step.id, hstatus, hcharge, htransaction⟩

/-- The item is of this batch and not settled. -/
def Unsettled (id batchId : String) (db : Database) : Prop :=
  ∀ item ∈ db.items, item.id = id → item.batchId = batchId ∧ item.status ≠ .settled

/-- Without the lock of its batch nobody settles an item. -/
theorem Unsettled.stable {id batchId : String} {db db' : Database}
    (unsettled : Unsettled id batchId db)
    (steps : List.Forall₂ (ItemStep settings held) db.items db'.items)
    (hfree : ¬ held (.advisory (AdvisoryLockManager.key settings batchId))) :
    Unsettled id batchId db' := by
  intro item hitem hid
  obtain ⟨old, hold, step⟩ := exists_left_of_forall₂ steps hitem
  obtain ⟨hbatch, hstatus⟩ := unsettled old hold (step.id.symm.trans hid)
  refine ⟨step.batchId.trans hbatch, fun hsettled => hfree ?_⟩
  rw [← hbatch]
  exact step.guarded hsettled hstatus

/-- An item that nobody settled stays so under any step of a worker without its batch's lock. -/
theorem unsettled_stable (settings : Settings) (_worker : Nat) (held : Lock system → Prop)
    (before after : Shared system) (itemId batchId : String)
    (steps : List.Forall₂ (ItemStep settings held) before.committed.items after.committed.items)
    (hfree : ¬ held (.advisory (AdvisoryLockManager.key settings batchId)))
    (unsettled : Unsettled itemId batchId before.committed) :
    Unsettled itemId batchId after.committed :=
  unsettled.stable steps hfree

/-- Each commit of the settlement, where the condition allows it. -/
theorem SettlementCommit.items_step {know : Knowledge} {worker : Nat} {top : Session system}
    {rest : List (Session system)} {shared : Shared system}
    (commit : SettlementCommit settings know worker top rest shared)
    (hclaimed : ∀ id batchId db, know.Claimed id batchId db → Unsettled id batchId db)
    (hmarks : ∀ mark ∈ top.marks, mark.leavesSettled shared.committed.items) :
    List.Forall₂ (ItemStep settings (Held (top :: rest))) shared.committed.items
      (shared.commit worker top).committed.items := by
  cases commit.items with
  | unchanged id same =>
      exact forall₂_of_rewrites same shared.committed fun item _ _ => .refl item
  | guarded id batchId change rewrites keeps matching hheld claimed =>
      refine forall₂_of_rewrites rewrites shared.committed fun item hitem hid => ?_
      obtain ⟨hbatch, hstatus⟩ := hclaimed _ _ _ claimed item hitem hid
      refine ⟨(keeps item).1, (keeps item).2, fun h => absurd h hstatus, fun _ _ => ?_⟩
      rw [hbatch]
      exact hheld
  | unlocked loaded status chargeId change rewrites keeps marked listed ofName unsettled sets =>
      refine forall₂_of_rewrites rewrites shared.committed fun item hitem hid => ?_
      obtain ⟨hstatus, hcharge, htransaction⟩ := sets item
      refine ⟨(keeps item).1, (keeps item).2, fun hsettled => ?_, fun hsettled hne => ?_⟩
      · -- The columns that the flush would set were found as it sets them.
        obtain ⟨hsame, hsameCharge⟩ := hmarks _ marked item hitem hid hsettled
        rw [hsame, dirty_self] at hstatus
        refine ⟨hstatus.trans hsettled, hcharge.trans ?_, htransaction⟩
        rcases hsameCharge with rfl | rfl <;> simp [dirty]
      · rw [hstatus, dirty] at hsettled
        split at hsettled
        · exact absurd hsettled hne
        · exact absurd hsettled unsettled

/-! ## All steps -/

/-- What was settled after any part of the history is settled now. -/
structure SettledHistory (db : Database) (shared : Shared system) : Prop where
  replayed : shared.committed = Library.replay db shared.trace
  kept : ∀ earlier, earlier <+: shared.trace →
    SettledKept (Library.replay db earlier) shared.committed

theorem SettledHistory.step {db : Database} {shared shared' : Shared system}
    (history : SettledHistory db shared) {entry : Nat × Event system}
    (htrace : shared'.trace = shared.trace ++ [entry])
    (hcommitted : shared'.committed = Library.replay shared.committed [entry])
    (kept : SettledKept shared.committed shared'.committed) : SettledHistory db shared' where
  replayed := by rw [hcommitted, history.replayed, htrace, replay_append]
  kept earlier hprefix := by
    rw [htrace, List.prefix_concat_iff] at hprefix
    rcases hprefix with rfl | hold
    · rw [replay_append, ← history.replayed, ← hcommitted]
      exact .refl _
    · exact (history.kept earlier hold).trans kept

/-- A quiet event leaves the committed database as it is. -/
theorem replay_quiet {event : Event system} (quiet : Quiet event) (db : Database)
    (worker : Nat) : Library.replay db [(worker, event)] = db := by
  cases event with
  | committed => cases quiet
  | _ => rfl

def terminalRules (settings : Settings) (db : Database) : SettlementRules settings where
  permits := leavesSettled
  guarantee _ held before after :=
    List.Forall₂ (ItemStep settings held) before.committed.items after.committed.items
  invariant := SettledHistory db
  Claimed := Unsettled
  drift _ _ _ history _ := ⟨history.replayed, history.kept⟩
  quiet worker _ _ _ _ quiet _ _ history :=
    ⟨List.forall₂_same.mpr fun item _ => .refl item,
      history.step rfl (replay_quiet quiet _ worker).symm (.refl _)⟩
  commit _ _ _ _ _ history permits commit :=
    have steps := commit.items_step (fun _ _ _ h => h) permits
    ⟨steps, history.step rfl rfl (.of_steps steps)⟩
  capture _ _ _ _ _ _ _ _ _ _ history _ _ _ _ _ _ := fun _ =>
    ⟨List.forall₂_same.mpr fun item _ => .refl item, history.step rfl rfl (.refl _)⟩
  claimed _ _ _ h := h
  claimed_stable := unsettled_stable settings

/-- In a run whose unlocked writes overwrite no settled row, an item that was
settled at any time keeps its status, its charge and its transaction. -/
theorem settled_terminal (settings : Settings) {db : Database} {world : World}
    (unique : Schema.Unique (S := schema) db) (jobs : List SettlementJob)
    {config config' : Config system (Except Exception Unit)}
    (hrun : Config.Run leavesSettled
      (Config.start db world (settlementWorkers settings jobs)) config)
    (hrun' : Config.Run leavesSettled config config') :
    SettledKept config.shared.committed config'.shared.committed := by
  have sound := settlement_run (terminalRules settings db) unique
    ⟨rfl, fun earlier hprefix => by rw [List.prefix_nil.mp hprefix]; exact .refl _⟩
    (fun _ _ _ => trivial) (hrun.trans hrun')
  obtain ⟨events, htrace, -⟩ := hrun'.follows
  rw [hrun.replay]
  exact sound.good.2.kept _ ⟨events, htrace.symm⟩

/-- A retry whose confirmation fails settles nothing; before it marks the item,
another retry settles it; the mark then makes it retryable again. -/
theorem settled_overwritten :
    ∃ config config', Config.Run anyMove
        (sampleStart [sampleItem "ri_1" "sb_1"] false [.retry "ri_1", .retry "ri_1"]) config ∧
      Config.Run anyMove config config' ∧
      ¬ SettledKept config.shared.committed config'.shared.committed := by
  have hschedule : (((sampleStart [sampleItem "ri_1" "sb_1"] false
      [.retry "ri_1", .retry "ri_1"]).schedule anyMove
        (advances 0 (claimChoices ++ [unreachable, .plain]) ++
          advances 1 (settleChoices []))).bind
        fun config => (config.schedule anyMove
          (advances 0 [.plain, .plain, .plain, .plain, .plain, .instant 120000000, .plain,
            .plain])).map fun config' =>
              decide (SettledKept config.shared.committed config'.shared.committed)) =
      some false := by
    decide +kernel
  obtain ⟨config, hconfig, hrest⟩ := Option.bind_eq_some_iff.mp hschedule
  obtain ⟨config', hconfig', hkept⟩ := Option.map_eq_some_iff.mp hrest
  exact ⟨config, config', Config.run_of_schedule hconfig, Config.run_of_schedule hconfig',
    of_decide_eq_false hkept⟩

/-- The same two retries, with the mark before the other one claims the item, and
a manual match that comes too late. -/
theorem settled_terminal_late_match :
    ∃ config config', Config.Run leavesSettled
        (sampleStart [sampleItem "ri_1" "sb_1"] false
          [.retry "ri_1", .retry "ri_1", .manualMatch "ri_1" "ch_2"]) config ∧
      Config.Run leavesSettled config config' ∧
      (config.shared.committed.items.map (·.status) = [.settled]) ∧
      SettledKept config.shared.committed config'.shared.committed := by
  have hschedule : (((sampleStart [sampleItem "ri_1" "sb_1"] false
      [.retry "ri_1", .retry "ri_1", .manualMatch "ri_1" "ch_2"]).schedule leavesSettled
        (advances 0 (claimChoices ++ [unreachable, .plain, .plain, .plain, .plain, .plain,
            .plain, .instant 60000000, .plain, .plain]) ++
          advances 1 (settleChoices []))).bind
        fun config => (config.schedule leavesSettled (advances 2 [.plain, .plain, .plain])).map
          fun _ => config.shared.committed.items.map (·.status)) = some [.settled] := by
    decide +kernel
  obtain ⟨config, hconfig, hrest⟩ := Option.bind_eq_some_iff.mp hschedule
  obtain ⟨config', hconfig', hsettled⟩ := Option.map_eq_some_iff.mp hrest
  have hrun := Config.run_of_schedule hconfig
  have hrun' := Config.run_of_schedule hconfig'
  refine ⟨config, config', hrun, hrun', hsettled, ?_⟩
  exact settled_terminal sampleSettings (unique_sampleSettlement (by simp)) _ hrun hrun'

end PayzenoLedger
