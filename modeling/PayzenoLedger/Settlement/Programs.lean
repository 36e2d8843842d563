import PayzenoLedger.Settlement.Commits

/-!
# The programs of the settlement

Each program is followed once, for every set of rules: its transactions commit
what `SettlementCommit` says, its captures are those of items on file, and it
settles only under the lock of the batch.
-/

set_option autoImplicit false

namespace PayzenoLedger

open Library Write

/-- How an open transaction began: on which database, after which part of the pass
of its worker, and under which name. -/
structure Origin where
  db : Database
  pass : PassLog
  name : SessionName

variable {settings : Settings} {rules : SettlementRules settings} {worker : Nat}
  {origin : Origin} {id batchId : String} {top top' : Session system}
  {rest : List (Session system)} {shared shared' : Shared system}

/-! ## Flushing an item -/

namespace Flush

variable {loaded changed : ReconciliationItem} {writes : List (Write schema)}

theorem posts (flush : Flush loaded changed writes) : Posts [] writes := by
  intro db
  have hsame := rows_applyAll_of_ne writes Table.ledgerTransaction (fun write hwrite h => by
    have htable := flush.tables write hwrite
    rw [← h] at htable
    cases htable) db
  exact hsame.trans (List.append_nil _).symm

theorem silent (flush : Flush loaded changed writes) : Silent writes := by
  refine (Stages.nil fun write hwrite h => ?_).silent
  have htable := flush.tables write hwrite
  rw [h] at htable
  cases htable

theorem settlementTables (flush : Flush loaded changed writes) :
    ∀ write ∈ writes, write.table.isSettlement = true := by
  intro write hwrite
  rw [flush.tables write hwrite]
  rfl

theorem settlementWrites (flush : Flush loaded changed writes)
    (hcharge : changed.chargeId = loaded.chargeId)
    (hmerchant : changed.merchantId = loaded.merchantId) (db : Database) :
    SettlementWrites loaded.id writes db where
  tables := flush.settlementTables
  batches write hwrite h := by
    have htable := flush.tables write hwrite
    rw [h] at htable
    cases htable
  rewrites := by
    refine ⟨_, flush.rewrites, ReconciliationItem.merge_keeps loaded changed, fun item => ?_⟩
    simp [ReconciliationItem.merge, hcharge, hmerchant]
  posts := ⟨[], flush.posts, by simp⟩
  silent := flush.silent

end Flush

/-! ## What a worker knows -/

/-- An open transaction. -/
structure Working (rules : SettlementRules settings) (worker : Nat) (origin : Origin)
    (top : Session system) (shared : Shared system) : Prop where
  good : rules.discipline.Good shared
  grows : Schema.Extends (S := schema) origin.db shared.committed
  foot : Footprint top.keys top.writes shared.committed
  answered : CapturesAnswered worker top shared
  pass : passLog (shared.eventsOf worker) = origin.pass
  name : top.name = origin.name

theorem Working.progress (working : Working rules worker origin top shared)
    (progress : Progress rules.discipline worker rest top shared top' shared') :
    Working rules worker origin top' shared' where
  good := progress.good
  grows := working.grows.trans (progress.later working.good).grows
  foot := progress.foot
  answered := working.answered.later (pendingCaptures_rely progress.rely) progress.writes
  pass := by
    rw [progress.rely.events]
    exact working.pass
  name := progress.name.trans working.name

/-- A mark that names no lock leaves what the worker knows. -/
theorem Working.mark {label : Mark} (working : Working rules worker origin top shared)
    (onward : Onward rules.discipline worker rest top shared (top.mark label) shared') :
    Working rules worker origin (top.mark label) shared' where
  good := onward.good
  grows := working.grows.trans (onward.later working.good).grows
  foot := onward.foot
  answered := working.answered.later (pendingCaptures_rely onward.rely) onward.writes
  pass := by
    rw [onward.rely.events]
    exact working.pass
  name := working.name

theorem Working.here (working : Working rules worker origin top shared) :
    Progress rules.discipline worker rest top shared top shared :=
  ⟨Discipline.Rely.refl _ _ _, working.good, working.foot, rfl, rfl, fun _ h => h, fun _ h => h⟩

/-- A transaction that just began. -/
theorem Working.began (name : SessionName) {held : Lock system → Prop} {db : Database}
    {pass : PassLog} (hgood : rules.discipline.Good shared)
    (grows : Schema.Extends (S := schema) db shared.committed)
    (hpass : passLog (shared.eventsOf worker) = pass)
    (hidle : pendingCaptures worker shared = [])
    (rely : rules.discipline.Rely worker held shared shared')
    (good : rules.discipline.Good (shared'.log worker (.began name))) :
    Working rules worker ⟨db, pass.step (.began name), name⟩ (Session.fresh name)
      (shared'.log worker (.began name)) where
  good := good
  grows := grows.trans (rely.later hgood).grows
  foot := Footprint.nil _ _
  answered := by
    refine .nil ?_
    rw [pendingCaptures_began, pendingCaptures_rely rely, hidle]
  pass := by
    rw [Shared.eventsOf_log, passLog_append, rely.events, hpass]
  name := rfl

/-- What is known of an item under the lock of its batch. -/
structure Claiming (rules : SettlementRules settings) (db : Database)
    (stack : List (Session system)) (id batchId : String) (shared : Shared system) :
    Prop where
  good : rules.discipline.Good shared
  grows : Schema.Extends (S := schema) db shared.committed
  held : Held stack (.advisory (AdvisoryLockManager.key settings batchId))
  has : HasItem id batchId shared.committed
  claimed : rules.Claimed id batchId shared.committed

section Claiming

variable {db : Database}

theorem Claiming.rely {stack : List (Session system)}
    (claiming : Claiming rules db stack id batchId shared)
    (rely : rules.discipline.Rely worker (Held stack) shared shared') :
    Claiming rules db stack id batchId shared' where
  good := rely.good claiming.good
  grows := claiming.grows.trans (rely.later claiming.good).grows
  held := claiming.held
  has := claiming.has.grow (rely.later claiming.good).grows
  claimed := by
    refine rely.preserves claiming.good
      (fun shared => rules.Claimed id batchId shared.committed)
      (fun before after _ step h => ?_) claiming.claimed
    rcases step.cause with ⟨_, _, _, rfl⟩ | ⟨_, _, held', hdisjoint, hguarantee, _⟩
    · exact h
    · exact rules.claimed_stable _ _ _ _ _ _ hguarantee (hdisjoint _ claiming.held) h

theorem Claiming.widen {stack stack' : List (Session system)}
    (claiming : Claiming rules db stack id batchId shared)
    (sub : ∀ lock, Held stack lock → Held stack' lock) :
    Claiming rules db stack' id batchId shared :=
  { claiming with held := sub _ claiming.held }

theorem Claiming.log {stack : List (Session system)} {event : Event system}
    (claiming : Claiming rules db stack id batchId shared)
    (good : rules.discipline.Good (shared.log worker event)) :
    Claiming rules db stack id batchId (shared.log worker event) :=
  { claiming with good := good }

theorem Claiming.progress (claiming : Claiming rules db (top :: rest) id batchId shared)
    (progress : Progress rules.discipline worker rest top shared top' shared') :
    Claiming rules db (top' :: rest) id batchId shared' :=
  (claiming.rely progress.rely).widen fun _ => progress.held

end Claiming

/-- The stack has a session over `rest` of which this holds. -/
def OnTop (rest : List (Session system)) (P : Session system → Shared system → Prop)
    (stack : List (Session system)) (shared : Shared system) : Prop :=
  ∃ top, stack = top :: rest ∧ P top shared

/-- The transaction that settles an item. -/
structure Settling (rules : SettlementRules settings) (worker : Nat) (origin : Origin)
    (rest : List (Session system)) (id batchId : String) (top : Session system)
    (shared : Shared system) : Prop where
  working : Working rules worker origin top shared
  claiming : Claiming rules origin.db (top :: rest) id batchId shared
  writes : SettlementWrites id top.writes shared.committed

/-- The transaction that failed to settle an item. -/
structure Failing (rules : SettlementRules settings) (worker : Nat) (origin : Origin)
    (rest : List (Session system)) (id batchId : String) (top : Session system)
    (shared : Shared system) : Prop where
  claiming : Claiming rules origin.db (top :: rest) id batchId shared
  pass : passLog (shared.eventsOf worker) = origin.pass
  name : top.name = origin.name

theorem Failing.progress (failing : Failing rules worker origin rest id batchId top shared)
    (progress : Progress rules.discipline worker rest top shared top' shared') :
    Failing rules worker origin rest id batchId top' shared' where
  claiming := failing.claiming.progress progress
  pass := by
    rw [progress.rely.events]
    exact failing.pass
  name := progress.name.trans failing.name

namespace Settling

theorem failing (settling : Settling rules worker origin rest id batchId top shared) :
    Failing rules worker origin rest id batchId top shared :=
  ⟨settling.claiming, settling.working.pass, settling.working.name⟩

theorem progress (settling : Settling rules worker origin rest id batchId top shared)
    (progress : Progress rules.discipline worker rest top shared top' shared')
    {more : List (Write schema)} (hwrites : top'.writes = top.writes ++ more)
    (hmore : SettlementWrites id more shared'.committed) :
    Settling rules worker origin rest id batchId top' shared' where
  working := settling.working.progress progress
  claiming := settling.claiming.progress progress
  writes := by
    rw [hwrites]
    exact (settling.writes.grow (progress.later settling.working.good).grows).append hmore

theorem same (settling : Settling rules worker origin rest id batchId top shared)
    (progress : Progress rules.discipline worker rest top shared top shared') :
    Settling rules worker origin rest id batchId top shared' where
  working := settling.working.progress progress
  claiming := settling.claiming.progress progress
  writes := settling.writes.grow (progress.later settling.working.good).grows

end Settling

/-- The top session may commit, at once or later. -/
structure MayCommit (rules : SettlementRules settings) (worker : Nat) (origin : Origin)
    (rest : List (Session system)) (top : Session system) (shared : Shared system) :
    Prop where
  good : rules.discipline.Good shared
  grows : Schema.Extends (S := schema) origin.db shared.committed
  pass : passLog (shared.eventsOf worker) = origin.pass
  name : top.name = origin.name
  commit : ∀ later, rules.discipline.Rely worker (Held (top :: rest)) shared later →
    SettlementCommit settings rules.knowledge worker top rest later

/-- What is shared after the commit of a session that last saw this. -/
structure Wrote (top : Session system) (shared later : Shared system) : Prop where
  since : Since shared later
  wrote : ∃ before, Schema.Extends (S := schema) shared.committed before ∧
    later.committed = applyAll top.writes before

theorem MayCommit.commits {next : Shared system → Prop}
    (may : MayCommit rules worker origin rest top shared)
    (hnext : ∀ later, rules.discipline.Good later →
      Schema.Extends (S := schema) origin.db later.committed →
      pendingCaptures worker later = [] →
      passLog (later.eventsOf worker) = origin.pass.step (.committed origin.name top.writes) →
      Wrote top shared later → next later) :
    Commits rules.discipline worker top rest shared next := by
  intro shared' rely good foot permits
  obtain ⟨hguarantee, hinvariant⟩ := rules.commit worker top rest shared' good.1 good.2 permits
    (may.commit shared' rely)
  have hgrows := (rely.later may.good).grows
  refine ⟨hguarantee, hinvariant, hnext _ ⟨?_, hinvariant⟩ ?_ (pendingCaptures_commit _ _ _) ?_
    ⟨(Since.of_rely rely).commit top, _, hgrows, rfl⟩⟩
  · exact foot.unique _ (Schema.Agree.refl _ _) good.1
  · exact (may.grows.trans hgrows).trans (applyAll_extends _ _)
  · rw [Shared.eventsOf_commit, passLog_append, rely.events, may.pass, may.name]

theorem rollsBack {next : Shared system → Prop}
    (hnext : ∀ later, rules.discipline.Rely worker (Held (top :: rest)) shared later →
      rules.discipline.Good (later.log worker (.rolledBack top.name)) →
      next (later.log worker (.rolledBack top.name))) :
    RollsBack rules.discipline worker top rest shared next := by
  intro shared' rely good permits
  refine hnext shared' rely ⟨good.1, ?_⟩
  exact (rules.discipline.rollback_sound worker top rest shared' good.2 permits).2

/-- A change of an item by a transaction of this name. -/
structure Settles (name : SessionName) (id : String)
    (change : ReconciliationItem → ReconciliationItem) : Prop where
  keeps : KeepsItem change
  matching : KeepsMatch change
  ofName : name.closesPass = false
  settles : (name.itemSettled = some id ∧ ∀ item, (change item).status = .settled) ∨
    (name.itemSettled = none ∧
      ∀ item, (change item).status = item.status ∨ (change item).status ≠ .settled)

theorem Settling.mayCommit {change : ReconciliationItem → ReconciliationItem}
    (settling : Settling rules worker origin rest id batchId top shared)
    (rewrites : Rewrites id change top.writes) (settles : Settles origin.name id change) :
    MayCommit rules worker origin rest top shared where
  good := settling.working.good
  grows := settling.working.grows
  pass := settling.working.pass
  name := settling.working.name
  commit later rely := by
    have claiming := settling.claiming.rely rely
    have writes := settling.writes.grow (rely.later settling.working.good).grows
    have hname := settling.working.name
    have hcloses : top.name.closesPass = false := by
      rw [hname]
      exact settles.ofName
    refine ⟨writes.tables, .guarded id batchId change rewrites settles.keeps settles.matching
      claiming.held claiming.claimed claiming.has ?_,
      fun batchId h => absurd h (SessionName.ne_sweepGuard hcloses _),
      .unchanged (SessionName.ne_sweepFinish hcloses) writes.batches,
      .silent writes.silent fun batchId h => absurd h (SessionName.ne_sweepPublish hcloses _),
      writes.posts, settling.working.answered.later (pendingCaptures_rely rely) fun _ h => h⟩
    rw [hname]
    exact settles.settles

/-- The flush that settles an item, after its posting: as long as it settles, the transaction
may commit. -/
theorem Settling.settled {loaded changed : ReconciliationItem} {writes : List (Write schema)}
    (settling : Settling rules worker origin rest loaded.id batchId top shared)
    (progress : Progress rules.discipline worker rest top shared top' shared')
    (hwrites : top'.writes = top.writes ++ writes) (flush : Flush loaded changed writes)
    (hcharge : changed.chargeId = loaded.chargeId)
    (hmerchant : changed.merchantId = loaded.merchantId) (hsettled : changed.status = .settled)
    (hloaded : loaded.status ≠ .settled) (hname : origin.name.itemSettled = some loaded.id) :
    Settling rules worker origin rest loaded.id batchId top' shared' ∧
      ∀ later, Settling rules worker origin rest loaded.id batchId top' later →
        MayCommit rules worker origin rest top' later := by
  refine ⟨settling.progress progress hwrites (flush.settlementWrites hcharge hmerchant _),
    fun later settling' => ?_⟩
  obtain ⟨change, hchange, hkeeps, hmatch⟩ := settling.writes.rewrites
  have hrewrites : Rewrites loaded.id (ReconciliationItem.merge loaded changed ∘ change)
      top'.writes := by
    rw [hwrites]
    exact hchange.append flush.rewrites hkeeps
  refine settling'.mayCommit hrewrites ⟨hkeeps, fun item => ?_, ?_, .inl ?_⟩
  · simp [ReconciliationItem.merge, hcharge, hmerchant, hmatch item]
  · cases h : origin.name <;> rw [h] at hname <;> first | rfl | cases hname
  · refine ⟨hname, fun item => ?_⟩
    simp [ReconciliationItem.merge, dirty, hsettled, Ne.symm hloaded]

/-- The flush of a transaction that marks a failed item. -/
theorem Settling.marked {loaded changed : ReconciliationItem} {writes : List (Write schema)}
    (settling : Settling rules worker origin rest loaded.id batchId top shared)
    (progress : Progress rules.discipline worker rest top shared top' shared')
    (hempty : top.writes = []) (hwrites : top'.writes = top.writes ++ writes)
    (flush : Flush loaded changed writes) (hcharge : changed.chargeId = loaded.chargeId)
    (hmerchant : changed.merchantId = loaded.merchantId) (hstatus : changed.status ≠ .settled)
    (hname : origin.name.itemSettled = none) (hcloses : origin.name.closesPass = false) :
    MayCommit rules worker origin rest top' shared' := by
  have settling' := settling.progress progress hwrites
    (flush.settlementWrites hcharge hmerchant _)
  have hrewrites : Rewrites loaded.id (ReconciliationItem.merge loaded changed) top'.writes := by
    rw [hwrites, hempty]
    exact flush.rewrites
  refine settling'.mayCommit hrewrites ⟨ReconciliationItem.merge_keeps loaded changed,
    fun item => ?_, hcloses, .inr ⟨hname, fun item => ?_⟩⟩
  · simp [ReconciliationItem.merge, hcharge, hmerchant]
  · simp only [ReconciliationItem.merge, dirty]
    split
    · exact .inl rfl
    · exact .inr hstatus

/-! ## Sessions that touch no item -/

/-- The transaction reads, or writes runs and stages these events. -/
structure Reporting (rules : SettlementRules settings) (worker : Nat) (origin : Origin)
    (events : List EventOutbox) (top : Session system) (shared : Shared system) : Prop where
  working : Working rules worker origin top shared
  reports : ∀ write ∈ top.writes, write.table.isReport = true
  stages : Stages events top.writes

/-- A transaction that has written nothing yet. -/
theorem Working.reporting (working : Working rules worker origin top shared)
    (hwrites : top.writes = []) : Reporting rules worker origin [] top shared :=
  ⟨working, by simp [hwrites], by rw [hwrites]; exact Stages.nil (by simp)⟩

namespace Reporting

variable {events : List EventOutbox}

theorem progress (reporting : Reporting rules worker origin events top shared)
    (progress : Progress rules.discipline worker rest top shared top' shared')
    {more : List (Write schema)} {staged : List EventOutbox}
    (hwrites : top'.writes = top.writes ++ more)
    (hmore : ∀ write ∈ more, write.table.isReport = true) (hstaged : Stages staged more) :
    Reporting rules worker origin (events ++ staged) top' shared' where
  working := reporting.working.progress progress
  reports write hwrite := by
    rw [hwrites] at hwrite
    exact (List.mem_append.mp hwrite).elim (reporting.reports write) (hmore write)
  stages := by
    rw [hwrites]
    exact reporting.stages.append hstaged

theorem same (reporting : Reporting rules worker origin events top shared)
    (progress : Progress rules.discipline worker rest top shared top shared') :
    Reporting rules worker origin events top shared' :=
  ⟨reporting.working.progress progress, reporting.reports, reporting.stages⟩

/-- One more event. -/
theorem publish {event : EventOutbox} (reporting : Reporting rules worker origin events top shared)
    (progress : Progress rules.discipline worker rest top shared
      (top.insert Table.eventOutbox event) shared') :
    Reporting rules worker origin (events ++ [event]) (top.insert Table.eventOutbox event)
      shared' := by
  refine reporting.progress progress rfl (fun write hwrite => ?_) (Stages.insert event)
  rw [List.mem_singleton.mp hwrite]
  rfl

/-- A write to a run. -/
theorem run {write : Write schema} (reporting : Reporting rules worker origin events top shared)
    (progress : Progress rules.discipline worker rest top shared top' shared')
    (hwrites : top'.writes = top.writes ++ [write])
    (htable : write.table = Table.reconciliationRun) :
    Reporting rules worker origin events top' shared' := by
  have hreports : ∀ other ∈ [write], other.table.isReport = true := by
    intro other hother
    rw [List.mem_singleton.mp hother, htable]
    rfl
  have hstages : Stages [] [write] := Stages.nil fun other hother => by
    rw [List.mem_singleton.mp hother, htable]
    simp
  have reporting' := reporting.progress progress hwrites hreports hstages
  rwa [List.append_nil] at reporting'

/-- It writes to no other table. -/
theorem spares (reporting : Reporting rules worker origin events top shared) {table : Table}
    (hreport : table.isReport = false) : ∀ write ∈ top.writes, table ≠ write.table := by
  intro write hwrite h
  have htable := reporting.reports write hwrite
  rw [← h, hreport] at htable
  cases htable

theorem isSettlement (reporting : Reporting rules worker origin events top shared) :
    ∀ write ∈ top.writes, write.table.isSettlement = true := by
  intro write hwrite
  have htable := reporting.reports write hwrite
  revert htable
  cases write.table <;> simp [Table.isReport, Table.isSettlement]

theorem items_eq (reporting : Reporting rules worker origin events top shared) (db : Database) :
    (applyAll top.writes db : Database).items = db.items :=
  rows_applyAll_of_ne (S := schema) top.writes Table.reconciliationItem (reporting.spares rfl) db

theorem batches_eq (reporting : Reporting rules worker origin events top shared) (db : Database) :
    (applyAll top.writes db : Database).batches = db.batches :=
  rows_applyAll_of_ne (S := schema) top.writes Table.settlementBatch (reporting.spares rfl) db

/-- Such a transaction may commit, whatever it announces. -/
theorem commit (reporting : Reporting rules worker origin events top shared)
    {later : Shared system}
    (rely : rules.discipline.Rely worker (Held (top :: rest)) shared later)
    (hidle : origin.name.itemSettled ≠ none → top.writes = [])
    (hfinish : ∀ batchId, origin.name ≠ .sweepFinish batchId)
    (swept : ∀ batchId, origin.name = .sweepGuard batchId →
      SweptList settings rules.knowledge worker batchId top later)
    (outbox : OutboxChange rules.knowledge worker top later) :
    SettlementCommit settings rules.knowledge worker top rest later where
  tables := reporting.isSettlement
  items := by
    refine .unchanged "" (fun db => ?_) fun h => hidle ?_
    · rw [reporting.items_eq]
      simp
    · rwa [← reporting.working.name]
  swept batchId h := swept batchId (reporting.working.name.symm.trans h)
  batches := by
    refine .unchanged (fun batchId h => hfinish batchId ?_) fun write hwrite h => ?_
    · rw [← reporting.working.name, h]
    · exact reporting.spares rfl write hwrite h.symm
  outbox := outbox
  posts := by
    refine ⟨[], fun db => ?_, by simp⟩
    have hsame := rows_applyAll_of_ne (S := schema) top.writes Table.ledgerTransaction
      (reporting.spares rfl) db
    exact hsame.trans (List.append_nil _).symm
  answered := reporting.working.answered.later (pendingCaptures_rely rely) fun _ h => h

/-- A transaction that announces nothing may commit. -/
theorem mayCommit (reporting : Reporting rules worker origin [] top shared)
    (hcloses : origin.name.closesPass = false)
    (hidle : origin.name.itemSettled ≠ none → top.writes = []) :
    MayCommit rules worker origin rest top shared where
  good := reporting.working.good
  grows := reporting.working.grows
  pass := reporting.working.pass
  name := reporting.working.name
  commit later rely := by
    refine reporting.commit rely hidle (SessionName.ne_sweepFinish hcloses)
      (fun batchId h => absurd h (SessionName.ne_sweepGuard hcloses _))
      (.silent reporting.stages.silent fun batchId h => ?_)
    rw [reporting.working.name] at h
    exact absurd h (SessionName.ne_sweepPublish hcloses _)

/-- The guard of a pass may commit that has gone through its list. -/
theorem guard (reporting : Reporting rules worker origin [] top shared)
    (hname : origin.name = .sweepGuard batchId)
    (swept : ∀ later, rules.discipline.Rely worker (Held (top :: rest)) shared later →
      SweptList settings rules.knowledge worker batchId top later) :
    MayCommit rules worker origin rest top shared where
  good := reporting.working.good
  grows := reporting.working.grows
  pass := reporting.working.pass
  name := reporting.working.name
  commit later rely := by
    refine reporting.commit rely (fun h => ?_) (fun other h => ?_) (fun other h => ?_)
      (.silent reporting.stages.silent fun other h => ?_)
    · rw [hname] at h
      exact absurd rfl h
    · rw [hname] at h
      cases h
    · obtain rfl := SessionName.sweepGuard.inj (hname.symm.trans h)
      exact swept later rely
    · rw [reporting.working.name, hname] at h
      cases h

end Reporting

theorem PassLog.step_committed {log : PassLog} {name : SessionName} {writes : List (Write schema)}
    (hname : name.itemSettled = none) (hcloses : name.closesPass = false) :
    log.step (.committed name writes) = log := by
  cases name <;> first | rfl | (cases hname; done) | cases hcloses

/-- A session whose body only reports: it commits, or raises. -/
theorem wpr_reportSession {α : Type} {name : SessionName} {body : Async α}
    {stack : List (Session system)} (fact : α → Shared system → Prop) {db : Database}
    {pass : PassLog} {ok : α → List (Session system) → Shared system → Prop}
    {error : Exception → List (Session system) → Shared system → Prop}
    (good : rules.discipline.Good shared)
    (grows : Schema.Extends (S := schema) db shared.committed)
    (hpass : passLog (shared.eventsOf worker) = pass)
    (hidle : pendingCaptures worker shared = [])
    (hcloses : name.closesPass = false) (hname : name.itemSettled = none)
    (hbody : ∀ shared',
      Reporting rules worker ⟨db, pass.step (.began name), name⟩ [] (Session.fresh name) shared' →
      (shared'.eventsOf worker).getLast? = some (.began name) →
      wpr rules.discipline worker body
        (fun value => OnTop stack fun top shared =>
          Reporting rules worker ⟨db, pass.step (.began name), name⟩ [] top shared ∧
            ∀ later, Wrote top shared later → fact value later)
        (fun _ => OnTop stack fun _ _ => True) (Session.fresh name :: stack) shared')
    (hok : ∀ value later, rules.discipline.Good later →
      Schema.Extends (S := schema) db later.committed → pendingCaptures worker later = [] →
      passLog (later.eventsOf worker) = pass.step (.began name) →
      fact value later → ok value stack later)
    (herror : ∀ raised later, error raised stack later) :
    wpr rules.discipline worker (Async.withSession name body) ok error stack shared := by
  refine wpr_withSession fun shared₁ rely₁ _ _ good₁ => ?_
  have working₁ := Working.began name good grows hpass hidle rely₁ good₁
  refine wpr_mono (hbody _ (working₁.reporting rfl) ?_) ?_ ?_
  · rw [Shared.eventsOf_log, List.getLast?_concat]
  · rintro value _ shared₂ ⟨top, rfl, reporting, hfact⟩
    have hgrows := reporting.working.grows
    have may : MayCommit rules worker ⟨db, pass.step (.began name), name⟩ stack top shared₂ :=
      reporting.mayCommit hcloses fun h => absurd hname h
    have may' : MayCommit rules worker ⟨shared₂.committed, pass.step (.began name), name⟩ stack
        top shared₂ :=
      { may with grows := Schema.Extends.refl _ }
    refine ⟨top, rfl, may'.commits fun later good' grows' hidle' hpass' wrote => ?_⟩
    rw [PassLog.step_committed hname hcloses] at hpass'
    exact hok value later good' (hgrows.trans grows') hidle' hpass' (hfact _ wrote)
  · rintro raised _ shared₂ ⟨top, rfl, -⟩
    exact ⟨top, rfl, rollsBack fun later _ _ => herror raised _⟩

/-! ## The poster -/

theorem SettlementWrites.publish {event : EventOutbox}
    (htype : event.type ≠ "settlement.completed") (db : Database) :
    SettlementWrites id [.insert Table.eventOutbox event] db := by
  refine .of_report (fun write hwrite => ?_) (.insert htype)
  rw [List.mem_singleton.mp hwrite]
  rfl

/-- The posting of an item enters its transaction and changes no item. -/
theorem SettlementWrites.posting {posting : Posting} {item : ReconciliationItem}
    {key : String} {lines : List PostingLine} {db db' : Database}
    (valid : posting.Valid db')
    (hrequest : posting.request = SettlementPoster.settleRequest settings item key lines)
    (has : HasItem item.id item.batchId db)
    (hkey : ledgerKey "settle" item.batchId item.id = .ok key) :
    SettlementWrites item.id posting.writes db where
  tables write hwrite := by
    simp only [Posting.writes, Posting.bookWrites, inserts, List.mem_append, List.mem_map,
      List.mem_singleton, exists_eq_left] at hwrite
    rcases hwrite with (((rfl | ⟨_, _, rfl⟩) | ⟨_, _, rfl⟩) | hmove) | rfl
    · rfl
    · rfl
    · rfl
    · cases hposting : posting.move <;> rw [hposting] at hmove <;>
        simp only [BalanceMove.writes, List.not_mem_nil, List.mem_singleton] at hmove <;>
        subst hmove <;> rfl
    · rfl
  batches write hwrite := by
    simp only [Posting.writes, Posting.bookWrites, inserts, List.mem_append, List.mem_map,
      List.mem_singleton, exists_eq_left] at hwrite
    rcases hwrite with (((rfl | ⟨_, _, rfl⟩) | ⟨_, _, rfl⟩) | hmove) | rfl
    · simp [Write.table]
    · simp [Write.table]
    · simp [Write.table]
    · cases hposting : posting.move <;> rw [hposting] at hmove <;>
        simp only [BalanceMove.writes, List.not_mem_nil, List.mem_singleton] at hmove <;>
        subst hmove <;> simp [Write.table]
    · simp [Write.table]
  rewrites := by
    refine ⟨fun item => item, fun db => ?_, fun _ => ⟨rfl, rfl⟩, fun _ => ⟨rfl, rfl⟩⟩
    rw [Posting.applyAll_writes]
    simp
  posts := by
    refine ⟨[posting.header], fun db => ?_, fun header hheader => ?_⟩
    · rw [Posting.applyAll_writes]
    · rw [List.mem_singleton.mp hheader, valid.header, hrequest]
      exact ⟨rfl, rfl, item.batchId, has, hkey⟩
  silent := by
    refine ⟨[posting.event], fun db => ?_, fun event hevent => ?_⟩
    · rw [Posting.applyAll_writes]
    · rw [List.mem_singleton.mp hevent, valid.announced]
      simp

theorem Posting.header_mem_writes (posting : Posting) :
    Write.insert Table.ledgerTransaction posting.header ∈ posting.writes := by
  simp [Posting.writes, Posting.bookWrites, inserts]

/-- Settling changes no charge: what the session reads is on file. -/
theorem SettlementWrites.read_charge {chargeId : String} {charge : SettlementCharge}
    {db db' : Database} (writes : SettlementWrites id top.writes db)
    (hholds : charge ∈ Schema.holders (S := schema) Table.settlementCharge (.charge chargeId)
      (top.view db')) : charge ∈ db'.charges ∧ charge.chargeId = chargeId := by
  obtain ⟨hrow, hkey⟩ := Schema.mem_holders.mp hholds
  have hsame : (top.view db' : Database).charges = db'.charges :=
    rows_applyAll_of_ne (S := schema) top.writes Table.settlementCharge (fun write hwrite h => by
      have htable := writes.tables write hwrite
      rw [← h] at htable
      cases htable) db'
  refine ⟨hsame ▸ hrow, ?_⟩
  simpa [Table.keys, eq_comm] using hkey

section Poster

variable {item : ReconciliationItem}

theorem SettlementPoster.wpr_publishItemEvent {type stampName : String}
    {payload : List (String × Json)} (htype : type ≠ "settlement.completed")
    (settling : Settling rules worker origin rest id batchId top shared) :
    wpr rules.discipline worker
      (SettlementPoster.publishItemEvent type stampName item payload)
      (fun _ => OnTop rest (Settling rules worker origin rest id batchId))
      (fun _ => OnTop rest (Failing rules worker origin rest id batchId))
      (top :: rest) shared := by
  unfold SettlementPoster.publishItemEvent
  rw [wpr_bind]
  refine Async.wpr_now fun shared₁ progress₁ => ?_
  exact OutboxPublisher.wpr_publish
    (fun shared₂ event hevent _ progress₂ => ⟨_, rfl,
      settling.progress (progress₁.trans progress₂) rfl (.publish (by rwa [hevent]) _)⟩)
    fun shared₂ progress₂ => ⟨_, rfl,
      settling.failing.progress (progress₁.trans progress₂)⟩

theorem SettlementPoster.wpr_answered {α : Type} {reply : Except Exception α}
    {stack : List (Session system)}
    {ok : α → List (Session system) → Shared system → Prop}
    {error : Exception → List (Session system) → Shared system → Prop}
    (hok : ∀ value, reply = .ok value → ok value stack shared)
    (herror : ∀ raised, error raised stack shared) :
    wpr rules.discipline worker (SettlementPoster.answered item reply) ok error stack
      shared := by
  cases reply with
  | ok value => exact hok value rfl
  | error raised =>
      obtain ⟨thrown, hthrown⟩ := SettlementPoster.answered_error (α := α) item raised
      rw [hthrown]
      exact herror thrown

/-- A call of the worker leaves the log of its pass. -/
theorem passLog_called {request : Request} {reply : request.Reply} {pass : PassLog}
    {world : World} (hpass : passLog (shared.eventsOf worker) = pass) :
    passLog ((shared.answer worker world request reply).eventsOf worker) = pass := by
  rw [Shared.eventsOf_answer, passLog_append, hpass]
  rfl

/-- A call that neither captures nor answers with a capture. -/
structure QuietRequest (request : Request) : Prop where
  quiet : ∀ reply : request.Reply, Quiet (.called request reply)
  captures : ∀ (worker : Nat) (choice : Choice) (world world' : World) (reply : request.Reply),
    World.respond worker request choice world = some (reply, world') →
      world'.captures = world.captures

theorem quietRequest_confirmSettlement (acquirer acquirerReference batchId : String) :
    QuietRequest (.confirmSettlement acquirer acquirerReference batchId) where
  quiet _ := trivial
  captures worker choice world world' reply hreply := by
    cases choice <;> simp only [World.respond, reduceCtorEq, Option.some.injEq,
      Prod.mk.injEq] at hreply
    · rw [← hreply.2]
    · rw [← hreply.2]

theorem quietRequest_increment (metric : String) (names : List String) :
    QuietRequest (.increment metric names) where
  quiet _ := trivial
  captures worker choice world world' reply hreply := by
    cases choice <;> simp only [World.respond, reduceCtorEq, Option.some.injEq] at hreply
    obtain ⟨-, rfl⟩ := Prod.mk.inj hreply
    rfl

theorem quietRequest_countDuplicate (acquirer caller : String) :
    QuietRequest (.countDuplicate acquirer caller) where
  quiet _ := trivial
  captures worker choice world world' reply hreply := by
    cases choice with
    | plain =>
        cases hreply
        rfl
    | fails error =>
        cases error <;> simp only [World.respond, reduceCtorEq, Option.some.injEq,
          Prod.mk.injEq] at hreply
        rw [← hreply.2]
    | _ => cases hreply

/-- A quiet call keeps to the rules, and whatever it is answered changes no row. -/
theorem QuietRequest.wpr_call {request : Request} (quiet : QuietRequest request)
    {stack : List (Session system)}
    {ok : request.Reply → List (Session system) → Shared system → Prop}
    {error : Exception → List (Session system) → Shared system → Prop}
    (h : ∀ reply shared₁ world,
      rules.discipline.Rely worker (Held stack) shared shared₁ → rules.discipline.Good shared₁ →
      rules.discipline.Good (shared₁.answer worker world request reply) →
      ok reply stack (shared₁.answer worker world request reply)) :
    wpr rules.discipline worker (Async.call request) ok error stack shared := by
  refine Library.wpr_call (Y := system) fun shared₁ choice reply world rely good hreply _ => ?_
  obtain ⟨hguarantee, hinvariant⟩ := rules.quiet worker stack shared₁ (.called request reply)
    world (quiet.quiet reply) trivial (quiet.captures worker choice _ world reply hreply) good.2
  exact ⟨hguarantee, hinvariant, h reply shared₁ world rely good ⟨good.1, hinvariant⟩⟩

/-- In the transaction that settles an item it leaves what the worker knows. -/
theorem Settling.wpr_call {request : Request} (quiet : QuietRequest request)
    (settling : Settling rules worker origin rest id batchId top shared)
    {ok : request.Reply → List (Session system) → Shared system → Prop}
    {error : Exception → List (Session system) → Shared system → Prop}
    (h : ∀ reply shared', Settling rules worker origin rest id batchId top shared' →
      ok reply (top :: rest) shared') :
    wpr rules.discipline worker (Async.call request) ok error (top :: rest) shared := by
  refine quiet.wpr_call fun reply shared₁ world rely good good' => h reply _ ?_
  have settled := settling.same
    (.of_rely settling.working.good settling.working.foot rely)
  have answered : CapturesAnswered worker top (shared₁.answer worker world request reply) :=
    settled.working.answered.later
      (pendingCaptures_called (quiet.quiet reply) worker shared₁ world) fun _ h => h
  exact ⟨⟨good', settled.working.grows, settled.working.foot, answered,
    passLog_called settled.working.pass, settled.working.name⟩,
    { settled.claiming with good := good' }, settled.writes⟩

/-- The acquirer's acknowledgement changes nothing that is shared. -/
theorem SettlementPoster.wpr_confirm
    (settling : Settling rules worker origin rest id batchId top shared) :
    wpr rules.discipline worker (SettlementPoster.confirm item)
      (fun _ => OnTop rest (Settling rules worker origin rest id batchId))
      (fun _ => OnTop rest (Failing rules worker origin rest id batchId))
      (top :: rest) shared := by
  unfold SettlementPoster.confirm
  rw [wpr_bind]
  refine settling.wpr_call (quietRequest_confirmSettlement _ _ _) fun reply shared₁ settled => ?_
  exact SettlementPoster.wpr_answered (fun _ _ => ⟨top, rfl, settled⟩)
    fun _ => ⟨top, rfl, settled.failing⟩

theorem SettlementPoster.wpr_publishDuplicate {key : String} {existing : LedgerTransaction}
    {caller : Caller} (settling : Settling rules worker origin rest id batchId top shared) :
    wpr rules.discipline worker
      (SettlementPoster.publishDuplicate settings item key existing caller)
      (fun _ => OnTop rest (Settling rules worker origin rest id batchId))
      (fun _ => OnTop rest (Failing rules worker origin rest id batchId))
      (top :: rest) shared := by
  unfold SettlementPoster.publishDuplicate
  rw [wpr_bind]
  refine wpr_mono (SettlementPoster.wpr_publishItemEvent (by simp) settling) ?_ fun _ _ _ h => h
  rintro _ _ shared₁ ⟨top₁, rfl, settling₁⟩
  split
  · rw [wpr_bind]
    refine settling₁.wpr_call (quietRequest_countDuplicate _ _) fun counted shared₂ settling₂ => ?_
    exact Async.wpr_check (fun _ _ => ⟨top₁, rfl, settling₂⟩)
      fun _ _ => ⟨top₁, rfl, settling₂.failing⟩
  · exact ⟨top₁, rfl, settling₁⟩

/-- The item is one that the worker read, but for what an attempt sets in it. -/
def ItemRead (rules : SettlementRules settings) (item : ReconciliationItem) : Prop :=
  ∃ loaded, rules.Listed loaded ∧ loaded.id = item.id ∧ loaded.batchId = item.batchId ∧
    loaded.chargeId = item.chargeId

/-- An item and its charge, as a worker read the two. -/
structure ChargeRead (rules : SettlementRules settings) (item : ReconciliationItem)
    (charge : SettlementCharge) : Prop where
  matched : item.chargeId = some charge.chargeId
  itemRead : ItemRead rules item
  found : rules.Found charge

/-- The rule of a capture, for an item as the worker has it. -/
theorem ChargeRead.capture {item : ReconciliationItem} {charge : SettlementCharge}
    {stack : List (Session system)} {amountMinor : Int} {currency reference key : String}
    {outcome : CaptureOutcome} (chargeRead : ChargeRead rules item charge)
    (hinvariant : rules.invariant shared) (has : HasItem item.id item.batchId shared.committed)
    (hdeferred : charge.captureAtSettlement = true)
    (hkey : ledgerKey "capture" item.batchId charge.chargeId = .ok key) :
    let answer := shared.world.capture charge.chargeId key outcome
    let request := Request.captureDeferred charge.chargeId amountMinor currency reference key
      (some item.id)
    rules.permits worker stack shared (.call request answer.1 answer.2) →
    rules.guarantee worker (Held stack) shared (shared.answer worker answer.2 request answer.1) ∧
      rules.invariant (shared.answer worker answer.2 request answer.1) := by
  obtain ⟨loaded, listed, hid, hbatch, hmatched⟩ := chargeRead.itemRead
  rw [← hid, ← hbatch] at has
  rw [← hbatch] at hkey
  rw [← hid]
  exact rules.capture worker stack shared loaded charge amountMinor currency reference key outcome
    hinvariant has listed (hmatched.trans chargeRead.matched) chargeRead.found hdeferred hkey

/-- A capture is of the charge of an item on file that this transaction settles, and only an
answered one goes on. -/
theorem SettlementPoster.wpr_capture {charge : SettlementCharge}
    (settling : Settling rules worker origin rest item.id item.batchId top shared)
    (chargeRead : ChargeRead rules item charge) (hdeferred : charge.captureAtSettlement = true)
    (hwritten : SettleWritten item.id top.writes) :
    wpr rules.discipline worker (SettlementPoster.capture item charge charge.chargeId)
      (fun _ => OnTop rest (Settling rules worker origin rest item.id item.batchId))
      (fun _ => OnTop rest (Failing rules worker origin rest item.id item.batchId))
      (top :: rest) shared := by
  unfold SettlementPoster.capture
  rw [wpr_bind]
  refine Async.wpr_check (fun key hkey => ?_) fun raised _ => ⟨top, rfl, settling.failing⟩
  rw [wpr_bind]
  refine wpr_call (Y := system) fun shared₁ choice reply world rely good hreply permits => ?_
  cases choice <;> simp only [World.respond, reduceCtorEq, Option.some.injEq] at hreply
  next outcome =>
  obtain ⟨rfl, rfl⟩ := Prod.mk.inj hreply
  have settled := settling.same
    (.of_rely settling.working.good settling.working.foot rely)
  obtain ⟨hguarantee, hinvariant⟩ := chargeRead.capture good.2 settled.claiming.has hdeferred
    hkey permits
  refine ⟨hguarantee, hinvariant, ?_⟩
  have failing : Failing rules worker origin rest item.id item.batchId top
      (shared₁.answer worker _ _ _) :=
    ⟨{ settled.claiming with good := ⟨good.1, hinvariant⟩ },
      passLog_called settled.working.pass, settled.working.name⟩
  rw [wpr_bind]
  refine SettlementPoster.wpr_answered (fun response hanswer => ?_) fun _ =>
    ⟨top, rfl, failing⟩
  refine ⟨top, rfl, ⟨⟨⟨good.1, hinvariant⟩, settled.working.grows, settled.working.foot, ?_,
    failing.pass, failing.name⟩, failing.claiming, settled.writes⟩⟩
  intro asked hasked
  rw [pendingCaptures, Shared.eventsOf_answer, captureLog_append] at hasked
  rcases List.mem_append.mp hasked with hold | hnew
  · exact settled.working.answered asked hold
  · rw [List.mem_singleton.mp hnew]
    exact ⟨⟨response, hanswer⟩, hwritten⟩

theorem SettlementPoster.wpr_afterClaim {charge : SettlementCharge} {key : String}
    {caller : Caller} {posted : PostResult}
    (settling : Settling rules worker origin rest item.id item.batchId top shared)
    (chargeRead : ChargeRead rules item charge)
    (hwritten : posted.created = true → SettleWritten item.id top.writes) :
    wpr rules.discipline worker
      (SettlementPoster.afterClaim settings item charge charge.chargeId key caller posted)
      (fun _ => OnTop rest (Settling rules worker origin rest item.id item.batchId))
      (fun _ => OnTop rest (Failing rules worker origin rest item.id item.batchId))
      (top :: rest) shared := by
  unfold SettlementPoster.afterClaim
  split
  · next hcreated =>
      dsimp only
      split
      · next hdeferred =>
          rw [wpr_bind]
          refine wpr_mono (SettlementPoster.wpr_capture settling chargeRead hdeferred
            (hwritten hcreated)) ?_ fun _ _ _ h => h
          rintro _ _ shared₁ ⟨top₁, rfl, settling₁⟩
          rw [wpr_bind]
          exact SettlementPoster.wpr_publishItemEvent (by simp) settling₁
      · rw [wpr_bind]
        exact SettlementPoster.wpr_publishItemEvent (by simp) settling
  · rw [wpr_bind]
    exact SettlementPoster.wpr_publishDuplicate settling

/-- Settling an item in a transaction that holds the lock of its batch. -/
theorem SettlementPoster.wpr_postSettlement (item : ReconciliationItem) {caller : Caller}
    (settling : Settling rules worker origin rest item.id item.batchId top shared)
    (itemRead : ItemRead rules item) (hmarks : ∀ session ∈ rest, session.marks = []) :
    wpr rules.discipline worker (SettlementPoster.postSettlement settings item caller)
      (fun _ => OnTop rest (Settling rules worker origin rest item.id item.batchId))
      (fun _ => OnTop rest (Failing rules worker origin rest item.id item.batchId))
      (top :: rest) shared := by
  unfold SettlementPoster.postSettlement
  rw [wpr_bind]
  refine wpr_mark (Y := system) fun shared₁ rely good => ?_
  have settling₁ := settling.same
    (.of_rely settling.working.good settling.working.foot rely)
  refine ⟨⟨fun lock hlock => ?_, fun lock _ session hsession other hother => ?_,
    settling₁.claiming.has⟩, ?_⟩
  · cases hlock
    exact settling₁.claiming.held
  · rw [hmarks session hsession] at hother
    cases hother
  have hheld (lock : Lock system) (hlock : Held (top :: rest) lock) :
      Held (top.mark (.posting item.batchId item.id) :: rest) lock := by
    rw [held_cons] at hlock ⊢
    exact hlock
  have settling₂ : Settling rules worker origin rest item.id item.batchId
      (top.mark (.posting item.batchId item.id)) shared₁ :=
    ⟨⟨good, settling₁.working.grows, settling₁.working.foot, settling₁.working.answered,
        settling₁.working.pass, settling₁.working.name⟩,
      settling₁.claiming.widen hheld, settling₁.writes⟩
  rw [wpr_bind]
  refine wpr_mono (SettlementPoster.wpr_confirm settling₂) ?_ fun _ _ _ h => h
  rintro _ _ shared₃ ⟨top₃, rfl, settling₃⟩
  cases hmatched : item.chargeId with
  | none => exact ⟨top₃, rfl, settling₃.failing⟩
  | some chargeId =>
      dsimp only
      rw [wpr_bind]
      refine Async.wpr_check (fun key hkey => ?_) fun _ _ => ⟨top₃, rfl, settling₃.failing⟩
      rw [wpr_bind]
      refine Async.wpr_getOrRaise (fun shared₄ charge progress₄ hholds => ?_)
        fun shared₄ progress₄ _ => ⟨top₃, rfl, settling₃.failing.progress progress₄⟩
      obtain ⟨hcharge, rfl⟩ := settling₃.writes.read_charge hholds
      have settling₄ := settling₃.same progress₄
      have chargeRead : ChargeRead rules item charge :=
        ⟨hmatched, itemRead, rules.found shared₄ progress₄.good.2 charge hcharge⟩
      have hmerchant (shared₅ : Shared system) (merchant : MerchantProjection)
          (settling₅ : Settling rules worker origin rest item.id item.batchId top₃ shared₅) :
          wpr rules.discipline worker
            (if merchant.settlementToleranceMinor < |item.varianceMinor| then do
              SettlementPoster.publishVariance item merchant.settlementToleranceMinor
              throw (ledgerError .settlementVarianceExceededError
                ("item " ++ item.id ++ " varies by " ++ toString item.varianceMinor ++
                  " minor units")
                [("item_id", .text item.id), ("batch_id", .text item.batchId),
                 ("variance_minor", .int item.varianceMinor),
                 ("tolerance_minor", .int merchant.settlementToleranceMinor)])
            else do
              let lines ← Async.check (SettlementPoster.settleLines item)
              let posted ← LedgerPoster.post
                (SettlementPoster.settleRequest settings item key lines)
              SettlementPoster.afterClaim settings item charge charge.chargeId key caller posted)
            (fun _ => OnTop rest (Settling rules worker origin rest item.id item.batchId))
            (fun _ => OnTop rest (Failing rules worker origin rest item.id item.batchId))
            (top₃ :: rest) shared₅ := by
        split
        · rw [wpr_bind]
          refine wpr_mono (SettlementPoster.wpr_publishItemEvent (by simp) settling₅) ?_
            fun _ _ _ h => h
          rintro _ _ shared₆ ⟨top₆, rfl, settling₆⟩
          exact ⟨top₆, rfl, settling₆.failing⟩
        · rw [wpr_bind]
          refine Async.wpr_check (fun lines _ => ?_) fun _ _ =>
            ⟨top₃, rfl, settling₅.failing⟩
          rw [wpr_bind]
          refine LedgerPoster.wpr_post
            (fun shared₆ top₆ posting progress₆ hrequest hwrites valid _ => ?_)
            (fun shared₆ existing progress₆ _ _ _ => ?_)
            (fun shared₆ top₆ raised progress₆ =>
              ⟨top₆, rfl, settling₅.failing.progress progress₆⟩) settling₅.working.here
          · have valid := valid.now progress₆.good.1
            refine SettlementPoster.wpr_afterClaim (settling₅.progress progress₆ hwrites ?_)
              chargeRead fun _ => ⟨posting.header, ?_, ?_⟩
            · exact .posting valid hrequest (settling₅.claiming.progress progress₆).has hkey
            · rw [hwrites]
              exact List.mem_append_right _ posting.header_mem_writes
            · rw [valid.header, hrequest]
              exact ⟨rfl, rfl, rfl⟩
          · exact SettlementPoster.wpr_afterClaim (settling₅.same progress₆) chargeRead
              fun hcreated => by cases hcreated
      rw [wpr_bind]
      cases item.merchantId with
      | none => exact ⟨top₃, rfl, settling₄.failing⟩
      | some merchantId =>
          refine Async.wpr_getOrRaise (fun shared₅ merchant progress₅ _ => ?_)
            fun shared₅ progress₅ _ => ⟨top₃, rfl, settling₄.failing.progress progress₅⟩
          exact hmerchant shared₅ merchant (settling₄.same progress₅)

end Poster

end PayzenoLedger
