import PayzenoLedger.Settlement.Programs

/-!
# Sweeps, retries and manual matches

The three jobs, followed to their ends.  `settlement_run` is the one theorem from
which the properties of all their interleavings follow.
-/

set_option autoImplicit false

namespace PayzenoLedger

open Library Write

variable {settings : Settings} {rules : SettlementRules settings} {worker : Nat}
  {origin : Origin} {db : Database} {pass : PassLog} {id batchId : String}
  {top top' : Session system}
  {rest : List (Session system)} {shared shared' : Shared system}

/-! ## The sweep -/

/-- A row that the session reads under the lock of its batch, ready to settle. -/
theorem claimed_of_read {item : ReconciliationItem} {db : Database}
    (unique : Schema.Unique (S := schema) db) (hitem : item ∈ db.items)
    (hretryable : item.status.isRetryable = true) :
    rules.Claimed item.id item.batchId db := by
  refine rules.claimed _ _ _ fun other hother hid => ?_
  have heq : other = item := unique.eq_of_key Table.reconciliationItem
    (.item item.id) hother hitem (by simp [Table.keys, hid]) (by simp [Table.keys])
  subst heq
  refine ⟨rfl, fun hsettled => ?_⟩
  rw [hsettled] at hretryable
  cases hretryable

/-- What `session.get` finds in a session without writes. -/
theorem read_item {item : ReconciliationItem}
    (hholds : item ∈ Schema.holders (S := schema) Table.reconciliationItem (.item id)
      (top.view shared.committed)) (hwrites : top.writes = []) :
    item ∈ shared.committed.items ∧ item.id = id := by
  obtain ⟨hrow, hkey⟩ := Schema.mem_holders.mp hholds
  rw [Session.view, hwrites] at hrow
  refine ⟨hrow, ?_⟩
  simpa [Table.keys, eq_comm] using hkey

namespace ReconciliationService

/-- The transaction of one item of the pass: it may commit, whether it settled
the item or found it handled; when it raises, the item is still claimed. -/
theorem wpr_processItem (working : Working rules worker origin top shared)
    (hname : origin.name = .sweepItem id) (hwrites : top.writes = [])
    (hheld : Held rest (.advisory (AdvisoryLockManager.key settings batchId)))
    (hmarks : ∀ session ∈ rest, session.marks = [])
    (has : HasItem id batchId shared.committed) :
    wpr rules.discipline worker (processItem settings id)
      (fun _ => OnTop rest (MayCommit rules worker origin rest))
      (fun _ => OnTop rest (Failing rules worker origin rest id batchId))
      (top :: rest) shared := by
  unfold processItem
  rw [wpr_bind]
  refine Async.wpr_getOrRaise (fun shared₁ item progress₁ hholds => ?_)
    fun shared₁ progress₁ hnone => ?_
  · obtain ⟨hitem, rfl⟩ := read_item hholds hwrites
    have has₁ := has.grow (progress₁.later working.good).grows
    obtain rfl := has₁.batchId_eq progress₁.good.1 hitem rfl
    have working₁ := working.progress progress₁
    have listed := rules.listed shared₁ progress₁.good.2 item hitem
    split
    · next hretryable =>
        have settling₁ : Settling rules worker origin rest item.id item.batchId top shared₁ :=
          { working := working₁
            claiming :=
              { good := progress₁.good
                grows := working₁.grows
                held := held_cons.mpr (.inr hheld)
                has := has₁
                claimed := claimed_of_read progress₁.good.1 hitem hretryable }
            writes := by
              rw [hwrites]
              exact .nil }
        rw [wpr_bind]
        refine wpr_mono (SettlementPoster.wpr_postSettlement item settling₁
          ⟨item, listed, rfl, rfl, rfl⟩ hmarks) ?_
          fun _ _ _ h => h
        rintro result _ shared₂ ⟨top₂, rfl, settling₂⟩
        rw [wpr_bind]
        refine Async.wpr_now fun shared₃ progress₃ => ?_
        have settling₃ := settling₂.same progress₃
        refine ReconciliationItem.wpr_flush settling₃.working.here settling₃.claiming.has.seen
          fun shared₄ top₄ writes progress₄ hwrites₄ flush => ?_
        have hloaded : item.status ≠ .settled := by
          intro h
          rw [h] at hretryable
          cases hretryable
        obtain ⟨settling₄, hmay⟩ := settling₃.settled progress₄ hwrites₄ flush rfl rfl rfl hloaded
          (by rw [hname]; rfl)
        exact ⟨_, rfl, hmay _ settling₄⟩
    · refine ⟨top, rfl, (working₁.reporting hwrites).mayCommit ?_ fun _ => hwrites⟩
      rw [hname]
      rfl
  · obtain ⟨item, hitem, hid, -⟩ := (has.grow (progress₁.later working.good).grows).grow
      (applyAll_extends top.writes _)
    refine absurd ?_ (Schema.holders_eq_nil_iff.mp hnone item hitem)
    simp [Table.keys, hid]

/-- What holds of the guard transaction between two items of the pass. -/
structure Guarding (rules : SettlementRules settings) (worker : Nat) (db : Database)
    (pass : PassLog) (batchId : String) (guard : Session system) (shared : Shared system) :
    Prop where
  good : rules.discipline.Good shared
  grows : Schema.Extends (S := schema) db shared.committed
  idle : pendingCaptures worker shared = []
  pass : passLog (shared.eventsOf worker) = pass
  writes : guard.writes = []
  marks : guard.marks = []
  lock : .advisory (AdvisoryLockManager.key settings batchId) ∈ guard.locks

theorem Guarding.progress {guard : Session system}
    (guarding : Guarding rules worker db pass batchId guard shared)
    (progress : Progress rules.discipline worker rest guard shared guard shared') :
    Guarding rules worker db pass batchId guard shared' :=
  { guarding with
    good := progress.good
    grows := guarding.grows.trans (progress.later guarding.good).grows
    idle := by
      rw [pendingCaptures_rely progress.rely, guarding.idle]
    pass := by
      rw [progress.rely.events]
      exact guarding.pass }

theorem Guarding.here {guard : Session system}
    (guarding : Guarding rules worker db pass batchId guard shared) :
    Progress rules.discipline worker [] guard shared guard shared := by
  refine ⟨Discipline.Rely.refl _ _ _, guarding.good, ?_, rfl, rfl, fun _ h => h, fun _ h => h⟩
  rw [guarding.writes]
  exact Footprint.nil _ _

/-- Setting a mark leaves what is shared. -/
theorem Guarding.onward {guard guard' : Session system}
    (guarding : Guarding rules worker db pass batchId guard shared)
    (onward : Onward rules.discipline worker rest guard shared guard' shared') :
    Guarding rules worker db pass batchId guard shared' :=
  { guarding with
    good := onward.good
    grows := guarding.grows.trans (onward.later guarding.good).grows
    idle := by
      rw [pendingCaptures_rely onward.rely, guarding.idle]
    pass := by
      rw [onward.rely.events]
      exact guarding.pass }

/-- The transaction that marks a failed item, still under the lock of the batch. -/
theorem wpr_mark {name : SessionName} {guard : Session system}
    {change : ReconciliationItem → Instant → ReconciliationItem}
    (hname : name = .sweepMarkRetryable id ∨ name = .sweepMarkFailed id)
    (hcharge : ∀ item stamp, (change item stamp).chargeId = item.chargeId)
    (hmerchant : ∀ item stamp, (change item stamp).merchantId = item.merchantId)
    (hstatus : ∀ item stamp, (change item stamp).status ≠ .settled)
    (guarding : Guarding rules worker db pass batchId guard shared)
    (claiming : Claiming rules db [guard] id batchId shared) :
    wpr rules.discipline worker
      (Async.withSession name do
        let item ← ReconciliationItemRepository.getOrRaise id
        let stamp ← Async.now
        item.flush (change item stamp))
      (fun _ stack shared => stack = [guard] ∧
        Guarding rules worker db pass batchId guard shared)
      (fun _ stack _ => stack = [guard]) [guard] shared := by
  have hquiet : name.itemSettled = none ∧ name.closesPass = false ∧
      pass.step (.began name) = pass := by
    rcases hname with rfl | rfl
    · exact ⟨rfl, rfl, rfl⟩
    · exact ⟨rfl, rfl, rfl⟩
  obtain ⟨hsettled, hcloses, hstep⟩ := hquiet
  refine wpr_withSession fun shared₁ rely₁ _ _ good₁ => ?_
  have working₁ := Working.began name guarding.good guarding.grows
    guarding.pass guarding.idle rely₁ good₁
  rw [hstep] at working₁
  have claiming₁ := (claiming.rely rely₁).log good₁
  have herror (shared' : Shared system) (top : Session system) :
      ∃ top', top :: [guard] = top' :: [guard] ∧
        RollsBack rules.discipline worker top' [guard] shared' fun _ => [guard] = [guard] :=
    ⟨top, rfl, rollsBack fun _ _ _ => rfl⟩
  rw [wpr_bind]
  refine Async.wpr_getOrRaise (fun shared₂ item progress₂ hholds => ?_)
    fun shared₂ _ _ => herror shared₂ _
  obtain ⟨hitem, rfl⟩ := read_item hholds rfl
  have claiming₂ := (claiming₁.widen fun lock hlock => held_cons.mpr (.inr hlock)).progress
    progress₂
  obtain rfl := claiming₂.has.batchId_eq progress₂.good.1 hitem rfl
  have settling₂ : Settling rules worker ⟨db, pass, name⟩ [guard] item.id item.batchId
      (Session.fresh name) shared₂ :=
    ⟨working₁.progress progress₂, claiming₂, .nil⟩
  rw [wpr_bind]
  refine Async.wpr_now fun shared₃ progress₃ => ?_
  have settling₃ := settling₂.same progress₃
  refine ReconciliationItem.wpr_flush settling₃.working.here settling₃.claiming.has.seen
    fun shared₄ top₄ writes progress₄ hwrites₄ flush => ?_
  have may := settling₃.marked progress₄ rfl hwrites₄ flush (hcharge _ _) (hmerchant _ _)
    (hstatus _ _) hsettled hcloses
  refine ⟨top₄, rfl, may.commits fun later good grows idle hpass _ => ?_⟩
  rw [PassLog.step_committed hsettled hcloses] at hpass
  exact ⟨rfl, { guarding with good := good, grows := grows, idle := idle, pass := hpass }⟩

/-- From one log of a pass to another: the items were handled in their order, all of them unless
one failed or the pass was cut short. -/
structure Went (cut : Prop) (items : List ReconciliationItem) (pass pass' : PassLog)
    (handled handled' : List ReconciliationItem) : Prop where
  batch : pass'.batch = pass.batch
  sub : handled'.Sublist (handled ++ items)
  all : pass'.failed = 0 → pass.failed = 0 ∧ (cut ∨ handled' = handled ++ items)

theorem Went.next {cut : Prop} {item : ReconciliationItem} {items : List ReconciliationItem}
    {pass pass' pass'' : PassLog} {handled handled' handled'' : List ReconciliationItem}
    (first : Went False [item] pass pass' handled handled')
    (rest : Went cut items pass' pass'' handled' handled'') :
    Went cut (item :: items) pass pass'' handled handled'' where
  batch := rest.batch.trans first.batch
  sub := by
    rw [List.append_cons]
    exact rest.sub.trans (first.sub.append (List.Sublist.refl _))
  all hfailed := by
    obtain ⟨hfailed', hall⟩ := rest.all hfailed
    obtain ⟨hfailed'', hcut | rfl⟩ := first.all hfailed'
    · exact hcut.elim
    · rw [List.append_cons]
      exact ⟨hfailed'', hall⟩

/-- One item of the pass, whatever comes of it, leaves the guard as it was. -/
theorem wpr_sweepItem {guard : Session system} {item : ReconciliationItem}
    {stats : ReconcilePassStats} {handled : List ReconciliationItem}
    (guarding : Guarding rules worker db pass batchId guard shared)
    (tally : Tally stats pass handled) (has : HasItem item.id batchId db) :
    wpr rules.discipline worker (sweepItem settings item stats)
      (fun stats' stack shared => stack = [guard] ∧ ∃ pass' handled',
        Guarding rules worker db pass' batchId guard shared ∧ Tally stats' pass' handled' ∧
          Went False [item] pass pass' handled handled')
      (fun _ stack _ => stack = [guard]) [guard] shared := by
  have hheld : Held [guard] (.advisory (AdvisoryLockManager.key settings batchId)) :=
    held_cons.mpr (.inl guarding.lock)
  have hmarks : ∀ session ∈ [guard], session.marks = [] := by
    intro session hsession
    rw [List.mem_singleton.mp hsession, guarding.marks]
  have hfailed (raised : Exception) (shared₁ : Shared system)
      (guarding₁ : Guarding rules worker db (pass.step (.rolledBack (.sweepItem item.id)))
        batchId guard shared₁)
      (claiming₁ : Claiming rules db [guard] item.id batchId shared₁) :
      wpr rules.discipline worker
        (if raised.isInstance .retryableSettlementError then do
            markRetryable item.id raised.errorCode
            pure { stats with failed := stats.failed + 1 }
          else if raised.isInstance .payzenoLedgerError then do
            markFailed item.id raised.errorCode
            pure (stats.countFailed raised.errorCode)
          else throw raised)
        (fun stats' stack shared => stack = [guard] ∧ ∃ pass' handled',
          Guarding rules worker db pass' batchId guard shared ∧ Tally stats' pass' handled' ∧
            Went False [item] pass pass' handled handled')
        (fun _ stack _ => stack = [guard]) [guard] shared₁ := by
    have went : Went False [item] pass (pass.step (.rolledBack (.sweepItem item.id))) handled
        handled := ⟨rfl, List.sublist_append_left _ _, nofun⟩
    split
    · rw [wpr_bind]
      refine wpr_mono (wpr_mark (.inl rfl) (fun _ _ => rfl) (fun _ _ => rfl) (by simp) guarding₁
        claiming₁) ?_ fun _ _ _ h => h
      rintro _ _ shared₂ ⟨rfl, guarding₂⟩
      exact ⟨rfl, _, handled, guarding₂, tally.fails item.id rfl rfl rfl rfl, went⟩
    · split
      · rw [wpr_bind]
        refine wpr_mono (wpr_mark (.inr rfl) (fun _ _ => rfl) (fun _ _ => rfl) (fun _ _ => ?_)
          guarding₁ claiming₁) ?_ fun _ _ _ h => h
        · dsimp only
          split <;> simp
        · rintro _ _ shared₂ ⟨rfl, guarding₂⟩
          exact ⟨rfl, _, handled, guarding₂, tally.fails item.id rfl rfl rfl rfl, went⟩
      · rfl
  unfold sweepItem Async.recover
  rw [wpr_recover (Y := system), wpr_bind]
  refine wpr_withSession fun shared₁ rely₁ _ _ good₁ => ?_
  have working₁ := Working.began (.sweepItem item.id) guarding.good
    guarding.grows guarding.pass guarding.idle rely₁ good₁
  refine wpr_mono (wpr_processItem working₁ rfl rfl hheld hmarks (has.grow working₁.grows)) ?_ ?_
  · rintro _ _ shared₂ ⟨top, rfl, may⟩
    refine ⟨top, rfl, may.commits fun later good grows idle hpass _ => ?_⟩
    exact ⟨rfl, _, _,
      { guarding with good := good, grows := grows, idle := idle, pass := hpass },
      tally.handles item top.writes, rfl, List.Sublist.refl _, fun h => ⟨h, .inr rfl⟩⟩
  · rintro raised _ shared₂ ⟨top, rfl, failing⟩
    refine ⟨top, rfl, rollsBack fun later rely good => ?_⟩
    have claiming₃ := (failing.claiming.rely rely).log good
    refine hfailed raised _
      { guarding with
        good := good, grows := claiming₃.grows, idle := pendingCaptures_rolledBack _ _ _
        pass := ?_ }
      { claiming₃ with held := hheld }
    rw [Shared.eventsOf_log, passLog_append, rely.events, failing.pass, failing.name]
    rfl

theorem wpr_sweepItems {guard : Session system} {started : Instant}
    {items : List ReconciliationItem} {stats : ReconcilePassStats}
    {handled : List ReconciliationItem}
    (guarding : Guarding rules worker db pass batchId guard shared)
    (tally : Tally stats pass handled) (has : ∀ item ∈ items, HasItem item.id batchId db) :
    wpr rules.discipline worker (sweepItems settings started items stats)
      (fun stats' stack shared => ∃ guard' pass' handled', stack = [guard'] ∧
        guard'.name = guard.name ∧ guard'.writes = [] ∧
        Guarding rules worker db pass' batchId guard shared ∧ Tally stats' pass' handled' ∧
          Went (Overran settings guard'.marks) items pass pass' handled handled')
      (fun _ stack _ => stack = [guard]) [guard] shared := by
  induction items generalizing stats shared pass handled with
  | nil =>
      refine ⟨guard, pass, handled, rfl, rfl, guarding.writes, guarding, tally, rfl, ?_,
        fun h => ⟨h, .inr ?_⟩⟩
      · rw [List.append_nil]
      · rw [List.append_nil]
  | cons item items ih =>
      unfold sweepItems
      rw [wpr_bind]
      refine Async.wpr_now fun shared₁ progress₁ => ?_
      have guarding₁ := guarding.progress progress₁
      split
      · next hover =>
          rw [wpr_bind]
          refine Async.wpr_mark rules.freeMarks rfl guarding₁.here fun shared₂ onward => ?_
          exact ⟨_, pass, handled, rfl, rfl, guarding₁.writes, guarding₁.onward onward,
            ⟨tally.ids, tally.failed, tally.settled, tally.posted, tally.charges⟩, rfl,
            List.sublist_append_left _ _, fun h => ⟨h, .inl ⟨started, _,
              List.mem_append_right _ (List.mem_singleton_self _), hover⟩⟩⟩
      · rw [wpr_bind]
        refine wpr_mono (wpr_sweepItem guarding₁ tally (has item List.mem_cons_self)) ?_
          fun _ _ _ h => h
        rintro stats' _ shared₂ ⟨rfl, pass₂, handled₂, guarding₂, tally₂, went₂⟩
        refine wpr_mono (ih guarding₂ tally₂ fun other hother =>
          has other (List.mem_cons_of_mem _ hother)) ?_ fun _ _ _ h => h
        rintro stats₃ _ shared₃ ⟨guard₃, pass₃, handled₃, rfl, hname, hwrites, guarding₃, tally₃,
          went₃⟩
        exact ⟨guard₃, pass₃, handled₃, rfl, hname, hwrites, guarding₃, tally₃,
          went₂.next went₃⟩

/-- Items on file have different identifiers. -/
theorem nodup_ids (unique : Schema.Unique (S := schema) db) : (db.items.map (·.id)).Nodup :=
  unique.nodup_column Table.reconciliationItem (·.id) Key.item fun item => by simp [Table.keys]

/-- The list of a pass: items of its batch, and all that waited at the moment at which it was read,
if that was no more than the pass takes. -/
structure ListedAt (rules : SettlementRules settings) (worker : Nat) (batchId : String)
    (maxItems : Nat) (items : List ReconciliationItem) (shared : Shared system) : Prop where
  listing : Listing rules.knowledge batchId items shared.committed
  moment : ∃ past, Since past shared ∧ rules.invariant past ∧
    (past.eventsOf worker).getLast? = some (.began (.sweepRead batchId maxItems)) ∧
    ((waitingItems batchId past.committed).length ≤ maxItems →
      ∀ item ∈ waitingItems batchId past.committed, item.id ∈ items.map (·.id))

/-- The listing under the lock gives items of this batch, each once. -/
theorem listing_of_read {limit : Nat} (good : rules.discipline.Good shared) :
    Listing rules.knowledge batchId (((shared.committed.items.filter fun item =>
        item.batchId = batchId ∧ item.status.isRetryable).insertionSort
          fun first second => first.createdAt ≤ second.createdAt).take limit)
      shared.committed where
  distinct := Schema.nodup_page (nodup_ids good.1) _ _ _
  items item hitem := by
    have hfilter := (List.mem_insertionSort _).mp (List.mem_of_mem_take hitem)
    obtain ⟨hrow, hbatch⟩ := List.mem_filter.mp hfilter
    simp only [Bool.decide_and, Bool.and_eq_true, decide_eq_true_eq] at hbatch
    exact ⟨hbatch.1, ⟨item, hrow, rfl⟩, rules.listed shared good.2 item hrow⟩

theorem listedAt_of_read {maxItems : Nat} {past later : Shared system}
    (good : rules.discipline.Good past) (since : Since past later)
    (hread : (past.eventsOf worker).getLast? = some (.began (.sweepRead batchId maxItems))) :
    ListedAt rules worker batchId maxItems (((waitingItems batchId past.committed).insertionSort
      fun first second => first.createdAt ≤ second.createdAt).take maxItems) later where
  listing := (listing_of_read good).grow since.grows
  moment := by
    refine ⟨past, since, good.2, hread, fun hfits item hitem => List.mem_map_of_mem ?_⟩
    rw [List.take_of_length_le (by rwa [List.length_insertionSort]), List.mem_insertionSort]
    exact hitem

/-- The pass, from the lock to the last item. -/
theorem wpr_guardedPass {maxItems : Nat}
    (working : Working rules worker ⟨db, {}, .sweepGuard batchId⟩
      (Session.fresh (.sweepGuard batchId)) shared)
    (hidle : pendingCaptures worker shared = []) :
    wpr rules.discipline worker (guardedPass settings batchId maxItems)
      (fun stats => OnTop [] fun top shared => ∃ pass handled,
        MayCommit rules worker ⟨db, pass, .sweepGuard batchId⟩ [] top shared ∧
          Passed rules.knowledge batchId stats pass handled shared.committed ∧
          pass.batch = some batchId)
      (fun _ => OnTop [] fun _ _ => True) [Session.fresh (.sweepGuard batchId)] shared := by
  unfold guardedPass AdvisoryLockManager.acquireBatchLock
  rw [wpr_bind]
  refine wpr_acquire (Y := system) fun shared₁ progress₁ => ?_
  have hidle₁ : pendingCaptures worker shared₁ = [] := by
    rw [pendingCaptures_rely progress₁.rely, hidle]
  have working₁ := working.progress progress₁
  generalize hguard : (Session.fresh (Y := system) (.sweepGuard batchId)).lock
    [.advisory (AdvisoryLockManager.key settings batchId)] = guard at working₁
  have hwrites : guard.writes = [] := by rw [← hguard]; rfl
  have hmarks : guard.marks = [] := by rw [← hguard]; rfl
  have hname : guard.name = .sweepGuard batchId := working₁.name
  have hlock : .advisory (AdvisoryLockManager.key settings batchId) ∈ guard.locks := by
    rw [← hguard]
    exact List.mem_append_right _ (List.mem_singleton.mpr rfl)
  rw [wpr_bind]
  refine wpr_reportSession (ListedAt rules worker batchId maxItems) working₁.good
    working₁.grows working₁.pass hidle₁ rfl rfl
    (fun shared₂ reporting hread => ?_)
    (fun items shared₂ good₂ grows₂ idle₂ pass₂ listed₂ => ?_)
    fun _ _ => ⟨guard, rfl, trivial⟩
  · refine wpr_select (Y := system) fun shared₃ progress₃ => ?_
    refine ⟨_, rfl, reporting.same progress₃, fun later wrote => ?_⟩
    refine listedAt_of_read progress₃.good wrote.since ?_
    rw [progress₃.rely.events, hread]
  rw [wpr_bind]
  obtain ⟨listing₂, past, since₂, invariant, hread, hwaiting⟩ := listed₂
  have guarding₂ : Guarding rules worker shared₂.committed { batch := some batchId } batchId guard
      shared₂ :=
    ⟨good₂, Schema.Extends.refl _, idle₂, pass₂, hwrites, hmarks, hlock⟩
  have has₂ (item : ReconciliationItem) (hitem : item ∈ items) :
      HasItem item.id batchId shared₂.committed := by
    obtain ⟨rfl, hline, -⟩ := listing₂.items item hitem
    exact hline.hasItem
  have tally₂ : Tally { itemsTotal := items.length } { batch := some batchId } [] :=
    ⟨rfl, rfl, rfl, rfl, rfl⟩
  refine Async.wpr_now fun shared₃ progress₃ => ?_
  refine wpr_mono (wpr_since (wpr_sweepItems (guarding₂.progress progress₃) tally₂ has₂)
    (since₂.rely progress₃.rely)) ?_ ?_
  · rintro stats _ shared₄ ⟨since₄, guard₄, pass₄, handled, rfl, hname₄, hwrites₄, guarding₄,
      tally₄, went₄⟩
    have foot₄ : Footprint guard₄.keys guard₄.writes shared₄.committed := by
      rw [hwrites₄]
      exact Footprint.nil _ _
    have working₄ : Working rules worker ⟨db, pass₄, .sweepGuard batchId⟩ guard₄ shared₄ :=
      ⟨guarding₄.good, grows₂.trans guarding₄.grows, foot₄, .nil guarding₄.idle, guarding₄.pass,
        hname₄.trans hname⟩
    refine ⟨guard₄, rfl, pass₄, handled, (working₄.reporting hwrites₄).guard rfl
      fun later rely => ?_, ⟨tally₄, (listing₂.sublist went₄.sub).grow guarding₄.grows⟩,
      went₄.batch⟩
    have hpass : passLog (later.eventsOf worker) = pass₄ := by
      rw [rely.events, guarding₄.pass]
    refine ⟨by rw [hpass, went₄.batch], past, maxItems, since₄.rely rely, invariant, hread,
      fun hfailed hfits => ?_⟩
    rw [hpass] at hfailed ⊢
    obtain ⟨-, hcut | rfl⟩ := went₄.all hfailed
    · exact .inl hcut
    · refine .inr fun item hitem => ?_
      rw [tally₄.ids]
      exact hwaiting hfits item hitem
  · rintro _ _ shared₄ ⟨-, rfl⟩
    exact ⟨guard, rfl, trivial⟩

end ReconciliationService

section Reports

variable {events : List EventOutbox}

theorem ReconciliationService.wpr_publishChunks {run : ReconciliationRun}
    {stats : ReconcilePassStats} {batch : SettlementBatch} {count index : Nat}
    {chunks : List (List String)}
    (reporting : Reporting rules worker origin events top shared) :
    wpr rules.discipline worker (publishChunks run stats batch count index chunks)
      (fun _ => OnTop rest fun top shared => ∃ more,
        Reporting rules worker origin (events ++ more) top shared ∧
          List.Forall₂ (fun (entry : List String × Nat) event =>
            event.type = "settlement.completed" ∧ ∃ stamp, event.payload =
              completedPayload run stats batch entry.1 entry.2 count stamp)
            (chunks.zipIdx index) more)
      (fun _ => OnTop rest fun _ _ => True) (top :: rest) shared := by
  induction chunks generalizing index top shared events with
  | nil =>
      refine ⟨top, rfl, [], ?_, .nil⟩
      rwa [List.append_nil]
  | cons chargeIds chunks ih =>
      unfold publishChunks
      rw [wpr_bind]
      refine Async.wpr_now fun shared₁ progress₁ => ?_
      rw [wpr_bind]
      refine OutboxPublisher.wpr_publish (fun shared₂ event htype hpayload progress₂ => ?_)
        fun _ _ => ⟨_, rfl, trivial⟩
      refine wpr_mono (ih (reporting.publish (progress₁.trans progress₂))) ?_ fun _ _ _ h => h
      rintro _ _ shared₃ ⟨top₃, rfl, more, reporting₃, hmore⟩
      refine ⟨top₃, rfl, event :: more, ?_, .cons ⟨htype, _, hpayload⟩ hmore⟩
      simpa using reporting₃

/-- A run of this batch is on file. -/
def HasRun (runId batchId : String) (db : Database) : Prop :=
  ∃ run ∈ db.runs, run.id = runId ∧ run.batchId = batchId

theorem HasRun.grow {runId : String} {db db' : Database} (has : HasRun runId batchId db)
    (grows : Schema.Extends (S := schema) db db') : HasRun runId batchId db' := by
  obtain ⟨run, hrun, hid, hbatch⟩ := has
  obtain ⟨run', hrun', hident⟩ := grows.survives Table.reconciliationRun hrun
  obtain ⟨hid', hbatch'⟩ := Prod.mk.inj hident
  exact ⟨run', hrun', hid'.trans hid, hbatch'.trans hbatch⟩

theorem ReconciliationRunRepository.wpr_start {trigger : String}
    (reporting : Reporting rules worker origin events top shared) :
    wpr rules.discipline worker (ReconciliationRunRepository.start batchId trigger)
      (fun run => OnTop rest fun top shared => Reporting rules worker origin events top shared ∧
        ∀ later, Wrote top shared later → HasRun run.id batchId later.committed)
      (fun _ => OnTop rest fun _ _ => True) (top :: rest) shared := by
  unfold ReconciliationRunRepository.start
  rw [wpr_bind]
  refine Async.wpr_newId fun shared₁ body progress₁ => ?_
  rw [wpr_bind]
  refine Async.wpr_now fun shared₂ progress₂ => ?_
  rw [wpr_bind]
  refine Async.wpr_add (fun shared₃ _ _ progress₃ => ?_) fun shared₃ _ _ => ⟨_, rfl, trivial⟩
  refine ⟨_, rfl, reporting.run (progress₁.trans (progress₂.trans progress₃)) rfl rfl, ?_⟩
  rintro later ⟨-, before, -, hlater⟩
  rw [hlater, Session.insert, applyAll_append]
  exact ⟨_, List.mem_append_right _ (List.mem_singleton.mpr rfl), rfl, rfl⟩

theorem ReconciliationRunRepository.wpr_finish {runId : String} {total settled failed : Int}
    {status : RunStatus} {errorSummary : Option String}
    (reporting : Reporting rules worker origin events top shared) (hwrites : top.writes = [])
    (has : HasRun runId batchId shared.committed) :
    wpr rules.discipline worker
      (ReconciliationRunRepository.finish runId total settled failed status errorSummary)
      (fun run => OnTop rest fun top shared => Reporting rules worker origin events top shared ∧
        run.batchId = batchId)
      (fun _ => OnTop rest fun _ _ => True) (top :: rest) shared := by
  unfold ReconciliationRunRepository.finish
  rw [wpr_bind]
  refine Async.wpr_getOrRaise (fun shared₁ run progress₁ hholds => ?_)
    fun shared₁ _ _ => ⟨_, rfl, trivial⟩
  obtain ⟨hrow, hkey⟩ := Schema.mem_holders.mp hholds
  rw [Session.view, hwrites] at hrow
  have hbatch : run.batchId = batchId := by
    obtain ⟨other, hother, hid, hbatch⟩ :=
      has.grow (progress₁.later reporting.working.good).grows
    have hrunId : runId = run.id := by simpa [Table.keys] using hkey
    obtain rfl : other = run := progress₁.good.1.eq_of_key Table.reconciliationRun (.run runId)
      hother hrow (by simp [Table.keys, hid]) (by simp [Table.keys, hrunId])
    exact hbatch
  rw [wpr_bind]
  refine Async.wpr_now fun shared₂ progress₂ => ?_
  dsimp only
  rw [wpr_bind]
  have progress := progress₁.trans progress₂
  refine Async.wpr_update (fun shared₃ row _ _ progress₃ => ?_)
    (fun shared₃ progress₃ _ => ⟨_, rfl, reporting.same (progress.trans progress₃), hbatch⟩)
    fun shared₃ _ _ _ _ => ⟨_, rfl, trivial⟩
  exact ⟨_, rfl, reporting.run (progress.trans progress₃) rfl rfl, hbatch⟩

/-- The transaction that closes out a pass, up to its commit. -/
theorem SettlementBatchRepository.wpr_markReconciled {stats : ReconcilePassStats}
    {stamp : Instant} {handled : List ReconciliationItem}
    (reporting : Reporting rules worker origin [] top shared)
    (hname : origin.name = .sweepFinish batchId) (hbatch : origin.pass.batch = some batchId)
    (hswept : origin.pass.swept = true)
    (passed : Passed rules.knowledge batchId stats origin.pass handled shared.committed) :
    wpr rules.discipline worker
      (SettlementBatchRepository.markReconciled batchId stats.postedTotalMinor
        (decide (stats.failed = 0)) stamp)
      (fun _ => OnTop rest (MayCommit rules worker origin rest))
      (fun _ => OnTop rest fun _ _ => True) (top :: rest) shared := by
  unfold SettlementBatchRepository.markReconciled
  rw [wpr_bind]
  refine Async.wpr_getOrRaise (fun shared₁ loaded progress₁ hholds => ?_)
    fun shared₁ _ _ => ⟨_, rfl, trivial⟩
  obtain ⟨hrow, hkey⟩ := Schema.mem_holders.mp hholds
  obtain rfl : loaded.id = batchId := by simpa [Table.keys, eq_comm] using hkey
  change loaded ∈ (applyAll top.writes shared₁.committed : Database).batches at hrow
  rw [reporting.batches_eq] at hrow
  rw [wpr_bind]
  refine Async.wpr_mark rules.freeMarks rfl progress₁.here fun shared₂ onward₂ => ?_
  have working₂ := (reporting.working.progress progress₁).mark onward₂
  have grows₂ := (onward₂.later progress₁.good).grows
  have file₂ : HasBatchFile loaded shared₂.committed := HasBatchFile.grow ⟨loaded, hrow, rfl⟩ grows₂
  obtain ⟨row, hrow₂, hfile⟩ := file₂
  have hview : row ∈ ((top.mark (.reconciling loaded)).view shared₂.committed
      : Database).batches := by
    change row ∈ (applyAll top.writes shared₂.committed : Database).batches
    rwa [reporting.batches_eq]
  have hid : row.id = loaded.id := congrArg (·.id) hfile
  refine SettlementBatch.wpr_flush working₂.here hview hid
    fun shared₃ top₃ writes progress₃ hwrites flush => ?_
  have working₃ := working₂.progress progress₃
  have hwrites' : top₃.writes = top.writes ++ writes := hwrites
  have hmarked : Mark.reconciling loaded ∈ top₃.marks := by
    rw [progress₃.marks]
    exact List.mem_append_right _ (List.mem_singleton.mpr rfl)
  have grows₃ := (progress₃.later working₂.good).grows
  have passed₃ := passed.grow
    (((progress₁.later reporting.working.good).grows.trans grows₂).trans grows₃)
  have hnot (table : Table) (hreport : table.isReport = false)
      (hbatch : table ≠ Table.settlementBatch) : ∀ write ∈ top₃.writes, table ≠ write.table := by
    intro write hwrite h
    rw [hwrites'] at hwrite
    rcases List.mem_append.mp hwrite with hold | hnew
    · exact reporting.spares hreport write hold h
    · exact hbatch (h.trans (flush.tables write hnew))
  refine ⟨top₃, rfl, working₃.good, working₃.grows, working₃.pass, working₃.name,
    fun later rely => ?_⟩
  have growsLater := (rely.later working₃.good).grows
  refine ⟨fun write hwrite => ?_, .unchanged "" (fun db => ?_) fun h => ?_, fun other h => ?_, ?_,
    ?_, ⟨[], fun db => ?_, by simp⟩,
    working₃.answered.later (pendingCaptures_rely rely) fun _ h => h⟩
  · rw [hwrites'] at hwrite
    rcases List.mem_append.mp hwrite with hold | hnew
    · exact reporting.isSettlement write hold
    · rw [flush.tables write hnew]
      rfl
  · have hsame := rows_applyAll_of_ne (S := schema) top₃.writes Table.reconciliationItem
      (hnot _ rfl (by simp)) db
    exact hsame.trans (by simp [Table.rows])
  · rw [working₃.name, hname] at h
    exact absurd rfl h
  · rw [working₃.name, hname] at h
    cases h
  · refine .reconciled loaded stats stamp handled (by rw [working₃.name, hname]) hmarked ?_
      (by rw [rely.events, working₃.pass, hbatch]) (by rw [rely.events, working₃.pass, hswept]) ?_
      (fun write hwrite h => hnot _ rfl (by simp) write hwrite h.symm) fun db => ?_
    · exact HasBatchFile.grow ⟨row, hrow₂, hfile⟩ (grows₃.trans growsLater)
    · rw [rely.events, working₃.pass]
      exact passed₃.grow growsLater
    · rw [hwrites', applyAll_append, flush.rewrites, reporting.batches_eq]
  · refine .silent ?_ fun other h => ?_
    · rw [hwrites']
      refine reporting.stages.silent.append (Stages.nil fun write hwrite => ?_).silent
      rw [flush.tables write hwrite]
      simp
    · rw [working₃.name, hname] at h
      cases h
  · have hsame := rows_applyAll_of_ne (S := schema) top₃.writes Table.ledgerTransaction
      (hnot _ rfl (by simp)) db
    exact hsame.trans (List.append_nil _).symm

end Reports

/-! ## Jobs -/

theorem ReconciliationService.wpr_publishCompletion {run : ReconciliationRun}
    {stats : ReconcilePassStats} {handled : List ReconciliationItem}
    (good : rules.discipline.Good shared)
    (hpass : passLog (shared.eventsOf worker) = pass)
    (hidle : pendingCaptures worker shared = [])
    (passed : Passed rules.knowledge run.batchId stats pass handled shared.committed) :
    wpr rules.discipline worker (publishCompletion run stats) (fun _ _ _ => True)
      (fun _ _ _ => True) [] shared := by
  unfold publishCompletion
  refine wpr_withSession fun shared₁ rely₁ _ _ good₁ => ?_
  have working₁ := Working.began (.sweepPublish run.batchId) good
    (Schema.Extends.refl _) hpass hidle rely₁ good₁
  have reporting₁ := working₁.reporting rfl
  have hrolls (shared' : Shared system) (top : Session system) :
      ∃ top', [top] = [top'] ∧
        RollsBack rules.discipline worker top' [] shared' fun _ => True :=
    ⟨top, rfl, rollsBack fun _ _ _ => trivial⟩
  have hcommits {events : List EventOutbox} {shared' : Shared system} {top : Session system}
      (reporting : Reporting rules worker ⟨shared.committed, pass, .sweepPublish run.batchId⟩
        events top shared')
      (outbox : ∀ later, rules.discipline.Rely worker (Held [top]) shared' later →
        OutboxChange rules.knowledge worker top later) :
      ∃ top', [top] = [top'] ∧ Commits rules.discipline worker top' [] shared' fun _ => True := by
    have may : MayCommit rules worker ⟨shared.committed, pass, .sweepPublish run.batchId⟩ [] top
        shared' :=
      ⟨reporting.working.good, reporting.working.grows, reporting.working.pass,
        reporting.working.name, fun later rely => reporting.commit rely (fun h => absurd rfl h)
          (by simp) (fun _ h => nomatch h) (outbox later rely)⟩
    exact ⟨top, rfl, may.commits fun _ _ _ _ _ _ => trivial⟩
  have hlog {shared' later : Shared system} {top : Session system} {events : List EventOutbox}
      (reporting : Reporting rules worker ⟨shared.committed, pass, .sweepPublish run.batchId⟩
        events top shared') (rely : rules.discipline.Rely worker (Held [top]) shared' later) :
      passLog (later.eventsOf worker) = pass := by
    rw [rely.events]
    exact reporting.working.pass
  rw [wpr_bind]
  refine Async.wpr_getOrRaise (fun shared₂ batch progress₂ _ => ?_)
    fun shared₂ _ _ => hrolls shared₂ _
  have reporting₂ := reporting₁.same progress₂
  split
  · next hfailed =>
      rw [wpr_bind]
      refine Async.wpr_now fun shared₃ progress₃ => ?_
      refine OutboxPublisher.wpr_publish (fun shared₄ event htype _ progress₄ => ?_)
        fun shared₄ _ => hrolls shared₄ _
      have reporting₄ := reporting₂.publish (progress₃.trans progress₄)
      refine hcommits reporting₄ fun later rely => .silent ⟨_, reporting₄.stages, ?_⟩ fun _ _ => ?_
      · intro other hother
        rw [List.mem_singleton.mp hother, htype]
        simp
      · have hnone : handled = [] := by
          have hsettled := passed.tally.settled
          rw [hfailed.2] at hsettled
          exact List.eq_nil_of_length_eq_zero (Int.ofNat_eq_zero.mp hsettled.symm)
        have hids := passed.tally.ids
        rw [hnone] at hids
        rw [hlog reporting₄ rely]
        exact List.map_eq_nil_iff.mp hids
  · refine wpr_mono (wpr_publishChunks reporting₂) ?_ ?_
    · rintro _ _ shared₃ ⟨top₃, rfl, events, reporting₃, announces⟩
      refine hcommits reporting₃ fun later rely => ?_
      refine .announced run stats batch handled events reporting₃.working.name ?_
        reporting₃.stages announces
      rw [hlog reporting₃ rely]
      exact passed.grow (reporting₃.working.grows.trans
        (rely.later reporting₃.working.good).grows)
    · rintro _ _ shared₃ ⟨top₃, rfl, -⟩
      exact hrolls shared₃ top₃

theorem ReconciliationService.wpr_reconcileBatch {trigger : String} {maxItems : Nat}
    (good : rules.discipline.Good shared) (hidle : pendingCaptures worker shared = []) :
    wpr rules.discipline worker (reconcileBatch settings batchId trigger maxItems)
      (fun _ _ _ => True) (fun _ _ _ => True) [] shared := by
  unfold reconcileBatch
  rw [wpr_bind]
  refine wpr_reportSession (fun run later => HasRun run.id batchId later.committed) good
    (Schema.Extends.refl _) rfl hidle rfl rfl (fun _ reporting _ => ReconciliationRunRepository.wpr_start reporting)
    (fun run shared₁ good₁ _ hidle₁ _ has₁ => ?_) fun _ _ => trivial
  rw [wpr_bind]
  refine wpr_withSession fun shared₂ rely₂ _ _ good₂ => ?_
  have working₂ := Working.began (.sweepGuard batchId) good₁
    (Schema.Extends.refl _) rfl hidle₁ rely₂ good₂
  refine wpr_mono (wpr_guardedPass working₂ (by
    rw [pendingCaptures_began, pendingCaptures_rely rely₂, hidle₁])) ?_ ?_
  · rintro stats _ shared₃ ⟨guard, rfl, pass₃, handled, may, passed₃, hbatch₃⟩
    refine ⟨guard, rfl, may.commits fun shared₄ good₄ grows₄ hidle₄ hpass₄ wrote₄ => ?_⟩
    have hlog₄ : passLog (shared₄.eventsOf worker) = { pass₃ with swept := true } := hpass₄
    have passed₄ : Passed rules.knowledge batchId stats { pass₃ with swept := true } handled
        shared₄.committed := (passed₃.grow wrote₄.since.grows).same rfl rfl
    have has₄ := has₁.grow grows₄
    rw [wpr_bind]
    refine wpr_withSession fun shared₅ rely₅ _ _ good₅ => ?_
    have working₅ := Working.began (.sweepFinish batchId) good₄
      (Schema.Extends.refl _) hlog₄ hidle₄ rely₅ good₅
    have hgrows₅ := working₅.grows
    rw [wpr_bind]
    refine wpr_mono (ReconciliationRunRepository.wpr_finish (working₅.reporting rfl) rfl
      (has₄.grow hgrows₅)) ?_ ?_
    · rintro finished _ shared₆ ⟨top₆, rfl, reporting₆, hbatch⟩
      subst hbatch
      rw [wpr_bind]
      refine Async.wpr_now fun shared₇ progress₇ => ?_
      have reporting₇ := reporting₆.same progress₇
      rw [wpr_bind]
      refine wpr_mono (SettlementBatchRepository.wpr_markReconciled reporting₇ rfl hbatch₃ rfl
        (passed₄.grow reporting₇.working.grows)) ?_ ?_
      · rintro _ _ shared₈ ⟨top₈, rfl, may₈⟩
        refine ⟨top₈, rfl, may₈.commits fun shared₉ good₉ grows₉ hidle₉ hpass₉ _ => ?_⟩
        rw [wpr_bind]
        refine wpr_mono (wpr_publishCompletion good₉ hpass₉ hidle₉
          ((passed₄.grow grows₉).same rfl rfl)) ?_
          fun _ _ _ h => h
        exact fun _ _ _ _ => trivial
      · rintro _ _ shared₈ ⟨top₈, rfl, -⟩
        exact ⟨top₈, rfl, rollsBack fun _ _ _ => trivial⟩
    · rintro _ _ shared₆ ⟨top₆, rfl, -⟩
      exact ⟨top₆, rfl, rollsBack fun _ _ _ => trivial⟩
  · rintro _ _ shared₃ ⟨guard, rfl, -⟩
    exact ⟨guard, rfl, rollsBack fun _ _ _ => trivial⟩

/-- The writes give the item these columns, whatever the row has become. -/
structure Overwrites (loaded : ReconciliationItem) (status : ItemStatus)
    (chargeId merchantId : Option String) (writes : List (Write schema)) : Prop where
  tables : ∀ write ∈ writes, write.table = Table.reconciliationItem
  rewrites : ∃ change, Rewrites loaded.id change writes ∧ KeepsItem change ∧
    ∀ item, (change item).status = dirty loaded.status status item.status ∧
      (change item).chargeId = dirty loaded.chargeId chargeId item.chargeId ∧
      (change item).merchantId = dirty loaded.merchantId merchantId item.merchantId ∧
      (change item).settledTransactionId = item.settledTransactionId

theorem Flush.overwrites {loaded changed : ReconciliationItem} {writes : List (Write schema)}
    (flush : Flush loaded changed writes)
    (hsame : changed.settledTransactionId = loaded.settledTransactionId) :
    Overwrites loaded changed.status changed.chargeId changed.merchantId writes where
  tables := flush.tables
  rewrites := by
    refine ⟨_, flush.rewrites, ReconciliationItem.merge_keeps loaded changed, fun item => ?_⟩
    exact ⟨rfl, rfl, rfl, by simp [ReconciliationItem.merge, hsame]⟩

/-- The two flushes of a manual match: the operator's charge, then the rest. -/
theorem Flush.overwrites_append {loaded chosen changed : ReconciliationItem}
    {writes more : List (Write schema)} (first : Flush loaded chosen writes)
    (second : Flush chosen changed more) (hid : chosen.id = loaded.id)
    (hstatus : chosen.status = loaded.status) (hcharge : changed.chargeId = chosen.chargeId)
    (hmerchant : chosen.merchantId = loaded.merchantId)
    (hsame : chosen.settledTransactionId = loaded.settledTransactionId)
    (hsame' : changed.settledTransactionId = chosen.settledTransactionId) :
    Overwrites loaded changed.status chosen.chargeId changed.merchantId (writes ++ more) where
  tables write hwrite :=
    (List.mem_append.mp hwrite).elim (first.tables write) (second.tables write)
  rewrites := by
    have hsecond := second.rewrites
    rw [hid] at hsecond
    refine ⟨_, first.rewrites.append hsecond (ReconciliationItem.merge_keeps loaded chosen),
      fun item => ⟨rfl, rfl⟩, fun item => ⟨?_, ?_, ?_, ?_⟩⟩ <;>
      simp [ReconciliationItem.merge, hstatus, hcharge, hmerchant, hsame, hsame']

theorem Overwrites.not_written {loaded : ReconciliationItem} {status : ItemStatus}
    {chargeId merchantId : Option String} {writes : List (Write schema)}
    (overwrites : Overwrites loaded status chargeId merchantId writes) {table : Table}
    (htable : table ≠ Table.reconciliationItem) : ∀ write ∈ writes, write.table ≠ table := by
  intro write hwrite h
  exact htable (h.symm.trans (overwrites.tables write hwrite))

/-- The charge that a match attaches, as the transaction notes it. -/
structure MatchNoted (know : Knowledge) (loaded : ReconciliationItem)
    (chargeId merchantId : Option String) (top : Session system) : Prop where
  noted : ∃ charge, Mark.matching loaded charge ∈ top.marks ∧ know.Found charge ∧
    know.Matches loaded.id charge.chargeId ∧ chargeId = some charge.chargeId ∧
    merchantId = some (loaded.merchantId.getD charge.merchantId)

theorem Overwrites.mayCommit {loaded : ReconciliationItem} {status : ItemStatus}
    {chargeId merchantId : Option String}
    (overwrites : Overwrites loaded status chargeId merchantId top.writes)
    (working : Working rules worker origin top shared)
    (marked : Mark.unlocked loaded status chargeId ∈ top.marks)
    (listed : rules.Listed loaded) (unsettled : status ≠ .settled)
    (hname : origin.name.itemSettled = none) (hcloses : origin.name.closesPass = false)
    (matching : (chargeId = loaded.chargeId ∧ merchantId = loaded.merchantId) ∨
      origin.name = .manualMatch loaded.id ∧
        MatchNoted rules.knowledge loaded chargeId merchantId top) :
    MayCommit rules worker origin rest top shared where
  good := working.good
  grows := working.grows
  pass := working.pass
  name := working.name
  commit later rely := by
    obtain ⟨change, hrewrites, hkeeps, hsets⟩ := overwrites.rewrites
    have hcloses' : top.name.closesPass = false := by
      rw [working.name]
      exact hcloses
    refine ⟨fun write hwrite => ?_, .unlocked loaded status chargeId change hrewrites hkeeps marked
      listed ?_ unsettled (fun item => ?_) ?_,
      fun batchId h => absurd h (SessionName.ne_sweepGuard hcloses' _),
      .unchanged (SessionName.ne_sweepFinish hcloses') (overwrites.not_written (by simp)),
      .silent (Stages.nil (overwrites.not_written (by simp))).silent
        (fun batchId h => absurd h (SessionName.ne_sweepPublish hcloses' _)),
      ⟨[], fun db => ?_, by simp⟩,
      working.answered.later (pendingCaptures_rely rely) fun _ h => h⟩
    · rw [overwrites.tables write hwrite]
      rfl
    · rw [working.name]
      exact hname
    · obtain ⟨hstatus, hcharge, -, hsettled⟩ := hsets item
      exact ⟨hstatus, hcharge, hsettled⟩
    · rcases matching with ⟨rfl, rfl⟩ | ⟨hmatch, noted⟩
      · refine .inl fun item => ?_
        obtain ⟨-, hcharge, hmerchant, -⟩ := hsets item
        rw [hcharge, hmerchant, dirty_self, dirty_self]
        exact ⟨rfl, rfl⟩
      · obtain ⟨charge, hnoted, hfound, hmatches, hcharge, hmerchant⟩ := noted.noted
        refine .inr ⟨?_, charge, hnoted, hfound, hmatches, hcharge, fun item => ?_⟩
        · rw [working.name]
          exact hmatch
        · rw [(hsets item).2.2.1, hmerchant]
    · have hsame := rows_applyAll_of_ne (S := schema) top.writes Table.ledgerTransaction
        (fun write hwrite h => overwrites.not_written (by simp) write hwrite h.symm) db
      exact hsame.trans (List.append_nil _).symm

/-! ## The retry -/

namespace RetryScheduler

theorem wpr_backoff {attemptCount : Nat}
    {ok : Instant → List (Session system) → Shared system → Prop}
    {error : Exception → List (Session system) → Shared system → Prop}
    (hok : ∀ shared' next, Progress rules.discipline worker rest top shared top shared' →
      ok next (top :: rest) shared')
    (herror : ∀ raised shared', error raised (top :: rest) shared') :
    wpr rules.discipline worker (backoff settings attemptCount) ok error (top :: rest)
      shared := by
  unfold backoff
  rw [wpr_bind]
  refine Async.wpr_now fun shared₁ progress₁ => ?_
  split
  · exact herror _ _
  · exact wpr_query (Y := system) fun shared₂ choice next progress₂ _ =>
      hok shared₂ next (progress₁.trans progress₂)

/-- A claimed item is claimed under the lock of its batch. -/
theorem wpr_claimItem
    (working : Working rules worker origin (Session.fresh (.retryItem id)) shared)
    (hname : origin.name = .retryItem id) :
    wpr rules.discipline worker (claimItem settings id)
      (fun claimed => OnTop [] fun top shared => match claimed with
        | none => MayCommit rules worker origin [] top shared
        | some item => item.id = id ∧ item.status.isRetryable = true ∧ rules.Listed item ∧
            Settling rules worker origin [] item.id item.batchId top shared)
      (fun _ => OnTop [] fun _ _ => True) [Session.fresh (.retryItem id)] shared := by
  have hnothing {top' : Session system} {shared' : Shared system}
      (progress : Progress rules.discipline worker [] (Session.fresh (.retryItem id)) shared
        top' shared') (hwrites : top'.writes = []) :
      MayCommit rules worker origin [] top' shared' :=
    ((working.progress progress).reporting hwrites).mayCommit (by rw [hname]; rfl)
      fun _ => hwrites
  unfold claimItem ReconciliationItemRepository.getBatchId
  rw [wpr_bind]
  refine wpr_select (Y := system) fun shared₁ progress₁ => ?_
  split
  · exact ⟨_, rfl, hnothing progress₁ rfl⟩
  next batchId hbatch =>
  have has₁ : HasItem id batchId shared₁.committed := by
    obtain ⟨item, hhead, rfl⟩ := Option.map_eq_some_iff.mp hbatch
    have hfilter := List.mem_filter.mp (List.mem_of_mem_head? hhead)
    exact ⟨item, hfilter.1, by simpa using hfilter.2, rfl⟩
  unfold AdvisoryLockManager.tryAcquireBatchLock
  rw [wpr_bind]
  refine wpr_tryAcquire (Y := system) (fun shared₂ progress₂ => ?_)
    fun shared₂ progress₂ => ⟨_, rfl, hnothing (progress₁.trans progress₂) rfl⟩
  rw [if_pos rfl]
  refine wpr_selectForUpdate (Y := system)
    (fun shared₃ item progress₃ hholds hretryable progress₃' => ?_)
    fun shared₃ progress₃ =>
      ⟨_, rfl, hnothing (progress₁.trans (progress₂.trans progress₃)) rfl⟩
  have working₂ := working.progress (progress₁.trans progress₂)
  have has₃ := has₁.grow ((progress₂.later progress₁.good).grows.trans
    (progress₃.later progress₂.good).grows)
  obtain ⟨hitem, rfl⟩ := read_item hholds rfl
  obtain rfl := has₃.batchId_eq progress₃.good.1 hitem rfl
  have working₃ := working₂.progress progress₃'
  refine ⟨_, rfl, rfl, hretryable, rules.listed shared₃ progress₃.good.2 item hitem, working₃, ?_,
    .nil⟩
  exact
    { good := working₃.good
      grows := working₃.grows
      held := held_cons.mpr (.inl (by simp [Session.lock]))
      has := has₃
      claimed := claimed_of_read progress₃.good.1 hitem hretryable }

theorem wpr_attempt
    (working : Working rules worker origin (Session.fresh (.retryItem id)) shared)
    (hname : origin.name = .retryItem id) :
    wpr rules.discipline worker (attempt settings id)
      (fun _ => OnTop [] (MayCommit rules worker origin []))
      (fun _ => OnTop [] fun _ _ => True) [Session.fresh (.retryItem id)] shared := by
  unfold attempt
  rw [wpr_bind]
  refine wpr_mono (wpr_claimItem working hname) ?_ fun _ _ _ h => h
  rintro claimed _ shared₁ ⟨top₁, rfl, hclaimed⟩
  cases claimed with
  | none => exact ⟨top₁, rfl, hclaimed⟩
  | some item =>
      obtain ⟨rfl, hretryable, listed, settling₁⟩ : item.id = id ∧
          item.status.isRetryable = true ∧ rules.Listed item ∧
          Settling rules worker origin [] item.id item.batchId top₁ shared₁ := hclaimed
      dsimp only
      split
      · exact ⟨top₁, rfl, trivial⟩
      rw [wpr_bind]
      refine Async.wpr_now fun shared₂ progress₂ => ?_
      have settling₂ := settling₁.same progress₂
      rw [wpr_bind]
      refine ReconciliationItem.wpr_flush settling₂.working.here settling₂.claiming.has.seen
        fun shared₃ top₃ writes progress₃ hwrites₃ flush₃ => ?_
      have settling₃ := settling₂.progress progress₃ hwrites₃
        (flush₃.settlementWrites rfl rfl _)
      rw [wpr_bind]
      refine wpr_mono (SettlementPoster.wpr_postSettlement
        { item with
          attemptCount := item.attemptCount + 1
          lastAttemptAt := some shared₂.world.clock
          status := .settling } settling₃ ⟨item, listed, rfl, rfl, rfl⟩ (by simp)) ?_ ?_
      · rintro result _ shared₄ ⟨top₄, rfl, settling₄⟩
        rw [wpr_bind]
        refine ReconciliationItem.wpr_flush settling₄.working.here settling₄.claiming.has.seen
          fun shared₅ top₅ writes progress₅ hwrites₅ flush₅ => ?_
        obtain ⟨settling₅, hmay⟩ := settling₄.settled progress₅ hwrites₅ flush₅ rfl rfl rfl
          (by simp) (by rw [hname]; rfl)
        rw [wpr_bind]
        unfold countRetried Async.increment
        rw [wpr_bind]
        refine settling₅.wpr_call (quietRequest_increment _ _) fun counted shared₆ settling₆ => ?_
        exact Async.wpr_check (fun _ _ => ⟨top₅, rfl, hmay _ settling₆⟩)
          fun _ _ => ⟨top₅, rfl, trivial⟩
      · rintro _ _ _ ⟨top₄, rfl, -⟩
        exact ⟨top₄, rfl, trivial⟩

/-- A failure mark of the retry reads and writes with no lock on the batch. -/
theorem wpr_failureMark {name : SessionName} {status : ItemStatus}
    {next : ReconciliationItem → Async Unit}
    {error : Exception → List (Session system) → Shared system → Prop}
    (good : rules.discipline.Good shared) (hidle : pendingCaptures worker shared = [])
    (hnext : ∀ item top shared' origin, Working rules worker origin top shared' →
      origin.name = name → Mark.unlocked item status item.chargeId ∈ top.marks →
      rules.Listed item → HasItem item.id item.batchId shared'.committed → top.writes = [] →
      wpr rules.discipline worker (next item)
        (fun _ => OnTop [] (MayCommit rules worker origin []))
        (fun _ => OnTop [] fun _ _ => True) [top] shared')
    (herror : ∀ raised later, error raised [] later) :
    wpr rules.discipline worker
      (Async.withSession name do
        let item ← ReconciliationItemRepository.getOrRaise id
        Async.mark (.unlocked item status item.chargeId)
        next item)
      (fun _ stack later => stack = [] ∧ rules.discipline.Good later) error [] shared := by
  refine wpr_withSession fun shared₁ rely₁ _ _ good₁ => ?_
  have working₁ := Working.began name good (Schema.Extends.refl _) rfl
    hidle rely₁ good₁
  rw [wpr_bind]
  refine Async.wpr_getOrRaise (fun shared₂ item progress₂ hholds => ?_)
    fun shared₂ _ _ => ⟨_, rfl, rollsBack fun _ _ _ => herror _ _⟩
  obtain ⟨hitem, rfl⟩ := read_item hholds rfl
  have has₂ : HasItem item.id item.batchId shared₂.committed := ⟨item, hitem, rfl, rfl⟩
  have listed := rules.listed shared₂ progress₂.good.2 item hitem
  rw [wpr_bind]
  refine Async.wpr_mark rules.freeMarks rfl progress₂.here fun shared₃ onward₃ => ?_
  have working₃ := (working₁.progress progress₂).mark onward₃
  have hgrows := (onward₃.later progress₂.good).grows
  have marked : Mark.unlocked item status item.chargeId ∈
      ((Session.fresh (Y := system) name).mark (.unlocked item status item.chargeId)).marks :=
    List.mem_append_right _ (List.mem_singleton.mpr rfl)
  refine wpr_mono (hnext item _ shared₃ _ working₃ rfl marked listed (has₂.grow hgrows) rfl) ?_ ?_
  · rintro _ _ shared₄ ⟨top₄, rfl, may⟩
    exact ⟨top₄, rfl, may.commits fun later good₅ _ _ _ _ => ⟨rfl, good₅⟩⟩
  · rintro raised _ shared₄ ⟨top₄, rfl, -⟩
    exact ⟨top₄, rfl, rollsBack fun _ _ _ => herror _ _⟩

/-- The flush that ends a failure mark. -/
theorem wpr_flushMark {item changed : ReconciliationItem}
    (working : Working rules worker origin top shared) (hwrites : top.writes = [])
    (hname : origin.name = .retryMarkRetryable id ∨ origin.name = .retryMarkFailed id)
    (marked : Mark.unlocked item changed.status item.chargeId ∈ top.marks)
    (listed : rules.Listed item) (unsettled : changed.status ≠ .settled)
    (hcharge : changed.chargeId = item.chargeId)
    (hmerchant : changed.merchantId = item.merchantId)
    (hsame : changed.settledTransactionId = item.settledTransactionId)
    (has : HasItem item.id item.batchId shared.committed) :
    wpr rules.discipline worker (item.flush changed)
      (fun _ => OnTop [] (MayCommit rules worker origin []))
      (fun _ => OnTop [] fun _ _ => True) [top] shared := by
  have hquiet : origin.name.itemSettled = none ∧ origin.name.closesPass = false := by
    rcases hname with h | h <;> rw [h] <;> exact ⟨rfl, rfl⟩
  refine ReconciliationItem.wpr_flush working.here has.seen
    fun shared₁ top₁ writes progress₁ hwrites₁ flush => ?_
  have overwrites := flush.overwrites hsame
  rw [hwrites, List.nil_append] at hwrites₁
  rw [← hwrites₁, hcharge, hmerchant] at overwrites
  rw [← progress₁.marks] at marked
  exact ⟨top₁, rfl, overwrites.mayCommit (working.progress progress₁) marked listed unsettled
    hquiet.1 hquiet.2 (.inl ⟨rfl, rfl⟩)⟩

/-- What is counted after a mark, outside of any transaction. -/
theorem wpr_countRetried {names : List String} :
    wpr rules.discipline worker (countRetried names)
      (fun _ stack later => stack = [] ∧ rules.discipline.Good later) (fun _ _ _ => True) []
      shared := by
  unfold countRetried Async.increment
  rw [wpr_bind]
  refine (quietRequest_increment _ _).wpr_call fun counted shared₁ world _ _ good₁ => ?_
  exact Async.wpr_check (fun _ _ => ⟨rfl, good₁⟩) fun _ _ => trivial

theorem wpr_retryItem (good : rules.discipline.Good shared)
    (hidle : pendingCaptures worker shared = []) :
    wpr rules.discipline worker (retryItem settings id)
      (fun _ stack later => stack = [] ∧ rules.discipline.Good later) (fun _ _ _ => True) []
      shared := by
  have hretryable (shared₁ : Shared system) (code : String)
      (good₁ : rules.discipline.Good shared₁)
      (hidle₁ : pendingCaptures worker shared₁ = []) :
      wpr rules.discipline worker (markRetryable settings id code)
        (fun _ stack later => stack = [] ∧ rules.discipline.Good later) (fun _ _ _ => True) []
        shared₁ := by
    unfold markRetryable
    rw [wpr_bind]
    refine wpr_mono (wpr_failureMark good₁ hidle₁
      (fun item top shared₂ origin working₂ hname marked listed has₂ hwrites => ?_)
      fun _ _ => trivial) ?_ fun _ _ _ h => h
    · rw [wpr_bind]
      refine Async.wpr_now fun shared₃ progress₃ => ?_
      rw [wpr_bind]
      refine wpr_backoff (fun shared₄ next progress₄ => ?_) fun _ _ => ⟨_, rfl, trivial⟩
      have progress := progress₃.trans progress₄
      exact wpr_flushMark (working₂.progress progress) hwrites (.inl hname) marked listed
        (by simp) rfl rfl rfl (has₂.grow (progress.later working₂.good).grows)
    · rintro _ _ later ⟨rfl, -⟩
      exact wpr_countRetried
  have hfailed (shared₁ : Shared system) (code : String)
      (good₁ : rules.discipline.Good shared₁)
      (hidle₁ : pendingCaptures worker shared₁ = []) :
      wpr rules.discipline worker (markFailed id code)
        (fun _ stack later => stack = [] ∧ rules.discipline.Good later) (fun _ _ _ => True) []
        shared₁ := by
    unfold markFailed
    rw [wpr_bind]
    refine wpr_mono (wpr_failureMark good₁ hidle₁
      (fun item top shared₂ origin working₂ hname marked listed has₂ hwrites => ?_)
      fun _ _ => trivial) ?_ fun _ _ _ h => h
    · rw [wpr_bind]
      refine Async.wpr_now fun shared₃ progress₃ => ?_
      exact wpr_flushMark (working₂.progress progress₃) hwrites (.inr hname) marked listed
        (by simp) rfl rfl rfl (has₂.grow (progress₃.later working₂.good).grows)
    · rintro _ _ later ⟨rfl, -⟩
      exact wpr_countRetried
  unfold retryItem Async.recover
  rw [wpr_recover (Y := system)]
  refine wpr_withSession fun shared₁ rely₁ _ _ good₁ => ?_
  refine wpr_mono (wpr_attempt (.began _ good (Schema.Extends.refl _) rfl hidle rely₁ good₁)
    rfl) ?_ ?_
  · rintro _ _ shared₂ ⟨top₂, rfl, may⟩
    exact ⟨top₂, rfl, may.commits fun later good₃ _ _ _ _ => ⟨rfl, good₃⟩⟩
  · rintro raised _ shared₂ ⟨top₂, rfl, -⟩
    refine ⟨top₂, rfl, rollsBack fun later _ good₃ => ?_⟩
    have hidle₃ := pendingCaptures_rolledBack worker later top₂.name
    split
    · rw [wpr_bind]
      exact hretryable _ _ good₃ hidle₃
    · split
      · rw [wpr_bind]
        exact hfailed _ _ good₃ hidle₃
      · split
        · rw [wpr_bind]
          exact hfailed _ _ good₃ hidle₃
        · trivial

end RetryScheduler

theorem wpr_manualMatch {chargeId : String} (good : rules.discipline.Good shared)
    (hidle : pendingCaptures worker shared = []) (hmatches : rules.Matches id chargeId) :
    wpr rules.discipline worker (manualMatch id chargeId)
      (fun _ stack later => stack = [] ∧ rules.discipline.Good later) (fun _ _ _ => True) []
      shared := by
  unfold manualMatch
  refine wpr_withSession fun shared₁ rely₁ _ _ good₁ => ?_
  have working₁ := Working.began (.manualMatch id) good
    (Schema.Extends.refl _) rfl hidle rely₁ good₁
  have hrolls (shared' : Shared system) (top : Session system) :
      ∃ top', [top] = [top'] ∧
        RollsBack rules.discipline worker top' [] shared' fun _ => True :=
    ⟨top, rfl, rollsBack fun _ _ _ => trivial⟩
  rw [wpr_bind]
  refine Async.wpr_getOrRaise (fun shared₂ item progress₂ hholds => ?_)
    fun shared₂ _ _ => hrolls shared₂ _
  obtain ⟨hitem, rfl⟩ := read_item hholds rfl
  have has₂ : HasItem item.id item.batchId shared₂.committed := ⟨item, hitem, rfl, rfl⟩
  have listed := rules.listed shared₂ progress₂.good.2 item hitem
  split
  · exact hrolls shared₂ _
  rw [wpr_bind]
  refine Async.wpr_mark rules.freeMarks rfl progress₂.here fun shared₃ onward₃ => ?_
  have working₃ := (working₁.progress progress₂).mark onward₃
  have hgrows := (onward₃.later progress₂.good).grows
  have has₃ := has₂.grow hgrows
  dsimp only
  rw [wpr_bind]
  refine ReconciliationItem.wpr_flush working₃.here has₃.seen
    fun shared₄ top₄ writes progress₄ hwrites₄ flush₄ => ?_
  rw [wpr_bind]
  refine Async.wpr_getOrRaise (fun shared₅ charge progress₅ hcharge => ?_)
    fun shared₅ _ _ => hrolls shared₅ _
  have hchargeId : charge.chargeId = chargeId := by
    have hkeys := (Schema.mem_holders.mp hcharge).2
    simpa [Table.keys, eq_comm] using hkeys
  have hfound : rules.Found charge := by
    have hrow := (Schema.mem_holders.mp hcharge).1
    have hcharges := rows_applyAll_of_ne (S := schema) top₄.writes Table.settlementCharge
      (fun write hwrite h => by
        rw [hwrites₄] at hwrite
        have htable := flush₄.tables write (by
          simpa [Session.mark, Session.fresh] using hwrite)
        rw [← h] at htable
        cases htable) shared₅.committed
    exact rules.found shared₅ progress₅.good.2 charge
      (Eq.mp (congrArg (charge ∈ ·) hcharges) hrow)
  have working₅ := working₃.progress (progress₄.trans progress₅)
  rw [wpr_bind]
  refine Async.wpr_mark rules.freeMarks rfl working₅.here fun shared₅' onward₅ => ?_
  have working₅' := working₅.mark onward₅
  have hgrows₅ := (onward₅.later working₅.good).grows
  rw [wpr_bind]
  have has₅ := has₃.grow ((progress₄.trans progress₅).later working₃.good).grows
  refine ReconciliationItem.wpr_flush working₅'.here (has₅.grow hgrows₅).seen
    fun shared₆ top₆ writes' progress₆ hwrites₆ flush₆ => ?_
  have overwrites := flush₄.overwrites_append flush₆ rfl rfl
    (by simp [applyMatch_chargeId, hchargeId]) rfl rfl
    (by simp [applyMatch_settledTransactionId])
  have hwrites : top₆.writes = writes ++ writes' := by
    rw [hwrites₆, Session.mark, hwrites₄]
    rfl
  rw [← hwrites] at overwrites
  have marked : Mark.unlocked item .pending (some chargeId) ∈ top₆.marks := by
    rw [progress₆.marks, Session.mark, progress₄.marks]
    exact List.mem_append_left _ (List.mem_append_right _ (List.mem_singleton.mpr rfl))
  have noted : Mark.matching item charge ∈ top₆.marks := by
    rw [progress₆.marks]
    exact List.mem_append_right _ (List.mem_singleton.mpr rfl)
  have may : MayCommit rules worker _ [] top₆ shared₆ :=
    overwrites.mayCommit (working₅'.progress progress₆) marked listed (by simp) rfl rfl
      (.inr ⟨rfl, charge, noted, hfound, by rwa [hchargeId], by rw [hchargeId],
      applyMatch_merchantId _ charge .manual⟩)
  exact ⟨top₆, rfl, may.commits fun later good' _ _ _ _ => ⟨rfl, good'⟩⟩

/-! ## Runs -/

/-- The operators match what the rules know. -/
def SettlementRules.KnowsMatches (rules : SettlementRules settings) (jobs : List SettlementJob) :
    Prop :=
  ∀ itemId chargeId, SettlementJob.manualMatch itemId chargeId ∈ jobs →
    rules.Matches itemId chargeId

theorem SettlementJob.wp_run (job : SettlementJob) (good : rules.discipline.Good shared)
    (hidle : pendingCaptures worker shared = []) (knows : rules.KnowsMatches [job]) :
    wp rules.discipline worker (job.run settings).run (fun _ _ _ => True) [] shared := by
  have hending : wpr rules.discipline worker (job.run settings) (fun _ _ _ => True)
      (fun _ _ _ => True) [] shared := by
    unfold SettlementJob.run
    cases job with
    | sweep batchId trigger maxItems =>
        dsimp only
        rw [wpr_bind]
        exact ReconciliationService.wpr_reconcileBatch good hidle
    | retry itemId =>
        dsimp only
        rw [wpr_bind]
        exact wpr_mono (RetryScheduler.wpr_retryItem good hidle) (fun _ _ _ _ => trivial)
          fun _ _ _ h => h
    | manualMatch itemId chargeId =>
        dsimp only
        rw [wpr_bind]
        have hmatches := knows itemId chargeId (List.mem_singleton.mpr rfl)
        exact wpr_mono (wpr_manualMatch good hidle hmatches) (fun _ _ _ _ => trivial)
          fun _ _ _ h => h
  refine wp_mono hending fun result _ _ _ => trivial

/-- Whatever jobs run side by side, every configuration that a permitted run
reaches keeps the invariant of the rules. -/
theorem settlement_run (rules : SettlementRules settings) {db : Database} {world : World}
    (unique : Schema.Unique (S := schema) db)
    (hinvariant : rules.invariant ⟨db, world, []⟩) {jobs : List SettlementJob}
    (knows : rules.KnowsMatches jobs)
    {config : Config system (Except Exception Unit)}
    (hrun : Config.Run rules.permits
      (Config.start db world (settlementWorkers settings jobs)) config) :
    Sound rules.discipline (fun _ _ _ _ => True) config := by
  have stable : StablePost rules.discipline
      (fun _ (_ : Except Exception Unit) _ _ => True) := fun _ _ _ _ _ _ _ _ => trivial
  refine Sound.run stable (Sound.start ⟨unique, hinvariant⟩
    fun worker program hprogram => ?_) hrun
  simp only [settlementWorkers, List.getElem?_map, Option.map_eq_some_iff] at hprogram
  obtain ⟨job, hjob, rfl⟩ := hprogram
  refine job.wp_run ⟨unique, hinvariant⟩ rfl fun itemId chargeId hmatch => knows _ _ ?_
  rw [List.mem_singleton.mp hmatch]
  exact List.mem_of_getElem? hjob

/-- A line of five euros of which the acquirer kept thirty cents. -/
def sampleItem (id batchId : String) : ReconciliationItem where
  id := id
  batchId := batchId
  chargeId := some "ch_1"
  merchantId := some "mer_1"
  lineType := .sale
  grossMinor := 500
  feeMinor := 30
  interchangeMinor := 0
  schemeFeeMinor := 0
  netMinor := 470
  expectedGrossMinor := some 500
  varianceMinor := 0
  currency := "EUR"
  acquirer := "northgate"
  acquirerReference := id
  networkReference := none
  matchMethod := .exactReference
  matchedAt := none
  status := .pending
  attemptCount := 0
  lastErrorCode := none
  lastAttemptAt := none
  nextAttemptAt := 0
  settledTransactionId := none
  livemode := true
  createdAt := 1

/-- The one charge that the items are matched to. -/
def sampleCharge (captureAtSettlement : Bool) : SettlementCharge where
  chargeId := "ch_1"
  merchantId := "mer_1"
  amountMinor := 500
  currency := "EUR"
  acquirer := "northgate"
  networkTransactionId := none
  processorReference := none
  captureMethod := "automatic"
  captureAtSettlement := captureAtSettlement
  reserveBps := 0
  platformFeeBps := 0
  platformFeeFixedMinor := 0
  authorizedAt := 0
  capturedAt := none
  livemode := true
  sourceEventId := "evt_1"
  sourceOccurredAt := 0

def sampleMerchant : MerchantProjection where
  merchantId := "mer_1"
  displayName := none
  country := none
  defaultCurrency := some "EUR"
  status := "active"
  riskTier := "standard"
  reserveBps := 0
  reserveHoldDays := 0
  pricingModel := "blended"
  platformFeeBps := 0
  platformFeeFixedMinor := 0
  payoutDelayDays := 2
  settlementToleranceMinor := 0
  captureAtSettlement := false
  payoutSchedule := "daily"
  livemode := true
  sourceEventId := "evt_1"
  sourceOccurredAt := 0

/-- The batch of the two lines, closed and not swept yet. -/
def sampleBatch (status : BatchStatus) : SettlementBatch where
  id := "sb_1"
  currency := "EUR"
  processingDate := 7
  acquirer := "northgate"
  fileReference := "northgate-7-EUR"
  expectedTotalMinor := 940
  postedTotalMinor := 0
  fundedAmountMinor := 0
  fundingEventId := none
  itemCount := 2
  status := status
  closedAt := some 5
  reconciledAt := none
  fundedAt := none
  livemode := true

def sampleSettlement (items : List ReconciliationItem) (captureAtSettlement : Bool) :
    Database where
  batches := [sampleBatch .closed]
  items := items
  charges := [sampleCharge captureAtSettlement]
  merchants := [sampleMerchant]

theorem unique_sampleSettlement {items : List ReconciliationItem} {captureAtSettlement : Bool}
    (hitems : items.Pairwise fun first second =>
      ∀ key ∈ Table.reconciliationItem.keys first,
        key ∉ Table.reconciliationItem.keys second) :
    Schema.Unique (S := schema) (sampleSettlement items captureAtSettlement) := by
  refine Schema.unique_of_pairwise fun table => ?_
  cases table <;> first | exact hitems | simp [Table.rows, sampleSettlement]

/-- The jobs about to begin, ten microseconds after the epoch. -/
def sampleStart (items : List ReconciliationItem) (captureAtSettlement : Bool)
    (jobs : List SettlementJob) : Config system (Except Exception Unit) :=
  Config.start (sampleSettlement items captureAtSettlement) { clock := 10 }
    (settlementWorkers sampleSettings jobs)

/-- The answer of an acquirer that cannot be reached. -/
def unreachable : Choice :=
  .fails (.ledger (processorUnavailable "processor_unavailable"))

/-- A retry up to the acquirer's answer to the confirmation. -/
def claimChoices : List Choice :=
  [.plain, .plain, .plain, .plain, .plain, .plain, .plain]

/-- The first posting of an item, up to the captures and the event. -/
def postChoices : List Choice :=
  [.plain, .plain, .id "1", .instant 3, .plain, .plain, .plain, .id "1", .plain, .id "1",
   .instant 3, .plain, .id "2", .plain, .id "2", .instant 3, .plain, .plain, .id "1", .plain]

/-- The event, the flush and the commit. -/
def settledChoices (event : String) : List Choice :=
  [.plain, .id event, .plain, .plain, .plain]

/-- In a retry, with the counter before the commit. -/
def retriedChoices (event : String) : List Choice :=
  settledChoices event ++ ([.plain] : List Choice)

/-- A retry that settles the first item of all, with these answers to its capture. -/
def settleChoices (captures : List Choice) : List Choice :=
  claimChoices ++ ([.plain] : List Choice) ++ postChoices ++ captures ++ retriedChoices "2"

/-- The choices of a pass: its run, what it does to the items, and its announcement. -/
def passChoices (run : String) (steps : List Choice) (event : String) : List Choice :=
  ([.plain, .id run] : List Choice) ++ steps ++ ([.id event, .plain, .plain] : List Choice)

def plains (count : Nat) : List Choice :=
  List.replicate count .plain

/-- The pass over the second item, on the accounts of the first one, up to the flush. -/
def secondChoices : List Choice :=
  plains 16 ++ ([.id "2", .instant 3] : List Choice) ++ plains 3 ++
    ([.id "3", .instant 3, .plain, .id "4", .instant 3] : List Choice) ++ plains 2 ++
    ([.id "3"] : List Choice) ++ plains 2 ++ ([.id "4"] : List Choice)

end PayzenoLedger
