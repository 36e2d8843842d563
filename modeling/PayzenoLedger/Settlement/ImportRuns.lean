import PayzenoLedger.Settlement.Imports

/-!
# Imports, record pushes and closes

What the transactions of the importers and of the closers do when they commit,
why they are rolled back, and the programs followed to their ends under any rules.
-/

set_option autoImplicit false

namespace PayzenoLedger

open Library Write

/-! ## Jobs -/

inductive ImportJob where
  | importFile (acquirer : String) (processingDate : Date) (currency : Option String)
  | importLegacyRecords (acquirer : String) (processingDate : Date) (fileReference : String)
      (records : List LegacySettlementRecord)
  | closeBatch (batchId : String)
  | batchClose

def ImportJob.run : ImportJob → Async Unit
  | .importFile acquirer processingDate currency => do
      let _ ← SettlementImportService.importFile acquirer processingDate currency
  | .importLegacyRecords acquirer processingDate fileReference records => do
      let _ ← Async.withSession (.legacyImport acquirer fileReference)
        (SettlementService.importLegacyRecords acquirer processingDate fileReference records)
  | .closeBatch batchId => do
      let _ ← Async.withSession (.closeBatch batchId) (SettlementService.closeBatch batchId)
  | .batchClose => do
      let _ ← BatchCloseJob.runOnce

/-- One worker for each job. -/
def importWorkers (jobs : List ImportJob) : List (Program system (Except Exception Unit)) :=
  jobs.map fun job => job.run.run

open ReconciliationItemRepository (ofBatch acquirerReferencesForBatch
  acquirerReferencesAlreadyFiled totalsForBatch)
open SettlementImportService (unfiled requestedLines)

/-- The references that other files of a per-currency import already carried. -/
def filedElsewhere (acquirer : String) (processingDate : Date) (currency : Option String)
    (lines : List ParsedSettlementLine) (db : Database) : List String :=
  match currency with
  | none => []
  | some currency =>
      if lines.isEmpty then []
      else acquirerReferencesAlreadyFiled acquirer currency processingDate
        (lines.map (·.acquirerReference)) db

/-- The lines that a file import appends, by what it saw on file. -/
structure Planned (D : Discipline system) (worker : Nat) (acquirer : String)
    (processingDate : Date) (currency : Option String) (opened : List SettlementBatch)
    (batch : SettlementBatch) (parsed lines : List ParsedSettlementLine)
    (shared : Shared system) : Prop where
  ofPlan : ∃ existing filed, lines = unfiled filed (unfiled existing parsed) ∧
    Saw D worker (fun db : Database =>
      existing = acquirerReferencesForBatch batch.id db) shared ∧
    Saw D worker (fun db : Database =>
      filed = filedElsewhere acquirer processingDate currency (unfiled existing parsed)
        { db with batches := db.batches ++ opened }) shared

theorem Planned.rely {D : Discipline system} {worker : Nat} {acquirer : String}
    {processingDate : Date} {currency : Option String} {opened : List SettlementBatch}
    {batch : SettlementBatch} {parsed lines : List ParsedSettlementLine}
    {shared shared' : Shared system} {held : Lock system → Prop}
    (planned : Planned D worker acquirer processingDate currency opened batch parsed lines shared)
    (rely : D.Rely worker held shared shared') :
    Planned D worker acquirer processingDate currency opened batch parsed lines shared' := by
  obtain ⟨existing, filed, hlines, hexisting, hfiled⟩ := planned.ofPlan
  exact ⟨existing, filed, hlines, hexisting.rely rely, hfiled.rely rely⟩

/-- The items that an import builds, and where a file import has them from. -/
structure Built (D : Discipline system) (worker : Nat) (acquirer currency : String)
    (processingDate : Date) (fileReference : String) (opened : List SettlementBatch)
    (batch : SettlementBatch) (items : List ReconciliationItem) (name : SessionName)
    (shared : Shared system) : Prop where
  has : HasBatch D worker acquirer currency processingDate fileReference opened batch shared
  isOpen : batch.status = .opened
  imported : ∀ item ∈ items, Imported batch item
  ofName : (∃ date code parsed, name = .importItems acquirer date code parsed) ∨
    name = .legacyImport acquirer fileReference
  planned : ∀ requested date code parsed, name = .importItems requested date code parsed →
    acquirer = requested ∧ fileReference = fileReferenceFor requested date code ∧
      ∃ lines, Planned D worker requested date code opened batch parsed lines shared ∧
        List.Forall₂ (OfLine batch) lines items

theorem Built.rely {D : Discipline system} {worker : Nat} {acquirer currency : String}
    {processingDate : Date} {fileReference : String} {opened : List SettlementBatch}
    {batch : SettlementBatch} {items : List ReconciliationItem} {name : SessionName}
    {shared shared' : Shared system} {held : Lock system → Prop}
    (built : Built D worker acquirer currency processingDate fileReference opened batch items
      name shared)
    (rely : D.Rely worker held shared shared') :
    Built D worker acquirer currency processingDate fileReference opened batch items name
      shared' where
  has := built.has.rely rely
  isOpen := built.isOpen
  imported := built.imported
  ofName := built.ofName
  planned requested date code parsed hname := by
    obtain ⟨hacquirer, hreference, lines, planned, hlines⟩ :=
      built.planned requested date code parsed hname
    exact ⟨hacquirer, hreference, lines, planned.rely rely, hlines⟩

/-! ## Commits -/

/-- What is known of a transaction of an import or a close when it commits. -/
inductive ImportCommit (D : Discipline system) (worker : Nat) (top : Session system)
    (shared : Shared system) : Prop
  | reads (writes : top.writes = [])
      (stale : ∀ acquirer processingDate currency parsed,
        top.name = .importItems acquirer processingDate currency parsed →
        Saw D worker (fun db : Database => ∃ batch ∈ db.batches,
          IsFile acquirer (fileReferenceFor acquirer processingDate currency) batch ∧
            batch.status ≠ .opened) shared)
  | appends (acquirer currency : String) (processingDate : Date) (fileReference : String)
      (opened : List SettlementBatch) (batch : SettlementBatch)
      (items own : List ReconciliationItem)
      (built : Built D worker acquirer currency processingDate fileReference opened batch
        items top.name shared)
      (appending : Appending D opened own top shared)
      (attached : List.Forall₂ (Attached D worker top shared) items own)
  | closes (loaded : SettlementBatch) (items : List ReconciliationItem) (stamp : Instant)
      (name : ∀ acquirer processingDate currency parsed,
        top.name ≠ .importItems acquirer processingDate currency parsed)
      (isOpen : loaded.status = .opened)
      (saw : Saw D worker (fun db : Database => loaded ∈ db.batches) shared)
      (counted : Saw D worker (fun db : Database => db.items = items) shared)
      (marked : .closing loaded.id ((ofBatch loaded.id items).map (·.id)) ∈ top.marks)
      (rewrites : RewritesBatch loaded.id (SettlementBatch.merge loaded
        (SettlementService.closedWith loaded (totalsForBatch loaded.id items) stamp)) top.writes)
      (tables : ∀ write ∈ top.writes,
        write.table = Table.settlementBatch ∨ write.table = Table.eventOutbox)

/-- Why a transaction of an import or a close is rolled back. -/
inductive ImportFault (D : Discipline system) (Open : Nat → String → Shared system → Prop)
    (worker : Nat) (top : Session system) (shared : Shared system) : Prop
  | batchRefused (acquirer fileReference : String)
      (refused : BatchRefused D worker acquirer fileReference top shared)
  | itemRefused (acquirer currency : String) (processingDate : Date) (fileReference : String)
      (opened : List SettlementBatch) (batch : SettlementBatch)
      (before : List ReconciliationItem) (item : ReconciliationItem)
      (after : List ReconciliationItem)
      (built : Built D worker acquirer currency processingDate fileReference opened batch
        (before ++ item :: after) top.name shared)
      (marks : top.marks = opened.map (fun batch => .minted batch.id) ++
        (before ++ item :: after).map (fun item => .minted item.id))
      (taken : Saw D worker (fun db : Database => ∃ other ∈ db.items ++ before,
        other.id = item.id ∨ (other.batchId = item.batchId ∧
          other.acquirerReference = item.acquirerReference)) shared)
  | noRecords (acquirer fileReference : String)
    (name : top.name = .legacyImport acquirer fileReference)
  | closed (batchId : String) (name : top.name = .importClose batchId → Open worker batchId shared)
      (ofName : top.name = .importClose batchId ∨ top.name = .closeBatch batchId)
      (saw : Saw D worker (fun db : Database =>
        ∀ row ∈ db.batches, row.id = batchId → row.status ≠ .opened) shared)
  | unannounced (id : String) (marks : .minted id ∈ top.marks)
      (taken : Saw D worker (fun db : Database => ∃ event ∈ db.outbox, event.id = id) shared)

/-- A property of the runs of the importers: what it makes of their commits, of the
errors they raise and of the files they fetch.  `Open` is what a file import knows
of its batch from one transaction to the next. -/
structure ImportRules where
  discipline : Discipline system
  free : FreeMarks discipline
  Open : Nat → String → Shared system → Prop
  Raised : Nat → Exception → Shared system → Prop
  opens : ∀ worker top shared acquirer currency processingDate fileReference opened batch
    items own, discipline.Good shared → discipline.permits worker [top] shared .commit →
    Built discipline worker acquirer currency processingDate fileReference opened batch items
      top.name shared →
    Appending discipline opened own top shared →
    Open worker batch.id (shared.commit worker top)
  open_rely : ∀ worker batchId shared shared', Open worker batchId shared →
    discipline.Rely worker (fun _ => False) shared shared' → Open worker batchId shared'
  open_began : ∀ worker batchId shared name, Open worker batchId shared →
    Open worker batchId (shared.log worker (.began name))
  commit : ∀ worker top shared, discipline.Good shared →
    discipline.permits worker [top] shared .commit →
    ImportCommit discipline worker top shared →
    discipline.guarantee worker (Held [top]) shared (shared.commit worker top) ∧
      discipline.invariant (shared.commit worker top)
  rollback : ∀ worker top shared raised, discipline.Good shared →
    discipline.permits worker [top] shared .rollback →
    ImportFault discipline Open worker top shared →
    Raised worker raised (shared.log worker (.rolledBack top.name))
  fetch : ∀ worker (shared : Shared system) acquirer processingDate currency
    (reply : Except Exception (List ParsedSettlementLine)), discipline.Good shared →
    let request := Request.fetchSettlementFile acquirer processingDate currency
    discipline.permits worker [] shared (.call request reply shared.world) →
    discipline.guarantee worker (Held []) shared
        (shared.answer worker shared.world request reply) ∧
      discipline.invariant (shared.answer worker shared.world request reply) ∧
      ∀ error, reply = .error error →
        Raised worker error (shared.answer worker shared.world request reply)

variable {rules : ImportRules} {worker : Nat} {top top' : Session system}
  {shared shared' : Shared system}

theorem ImportCommit.rely {D : Discipline system} (commit : ImportCommit D worker top shared)
    (rely : D.Rely worker (Held [top]) shared shared') : ImportCommit D worker top shared' := by
  cases commit with
  | reads writes stale =>
      exact .reads writes fun acquirer date currency parsed hname =>
        (stale acquirer date currency parsed hname).rely rely
  | appends acquirer currency date reference opened batch items own built appending attached =>
      have onward := (Progress.of_rely appending.good appending.foot rely).onward
      exact .appends acquirer currency date reference opened batch items own (built.rely rely)
        (appending.rely rely) (attached.imp fun _ _ h => h.onward onward)
  | closes loaded items stamp name isOpen saw counted marked rewrites tables =>
      exact .closes loaded items stamp name isOpen (saw.rely rely) (counted.rely rely) marked
        rewrites tables

theorem ImportFault.rely (fault : ImportFault rules.discipline rules.Open worker top shared)
    (rely : rules.discipline.Rely worker (Held [top]) shared shared') :
    ImportFault rules.discipline rules.Open worker top shared' := by
  cases fault with
  | batchRefused acquirer reference refused =>
      obtain ⟨id, marks, saw, taken⟩ := refused
      exact .batchRefused acquirer reference ⟨id, marks, saw.rely rely, taken.rely rely⟩
  | itemRefused acquirer currency date reference opened batch before item after built marks taken =>
      exact .itemRefused acquirer currency date reference opened batch before item after
        (built.rely rely) marks (taken.rely rely)
  | noRecords acquirer reference name => exact .noRecords acquirer reference name
  | closed batchId name ofName saw =>
      refine .closed batchId (fun hname => ?_) ofName (saw.rely rely)
      exact rules.open_rely _ _ _ _ (name hname) (rely.mono fun _ hfalse => hfalse.elim)
  | unannounced id marks taken => exact .unannounced id marks (taken.rely rely)

/-- The session may commit, at once or later. -/
structure Commitable (rules : ImportRules) (worker : Nat) (top : Session system)
    (shared : Shared system) : Prop where
  foot : Footprint top.keys top.writes shared.committed
  commit : ImportCommit rules.discipline worker top shared

/-- A session of an import: it commits, or an error rolls it back. -/
theorem wpr_importSession {α : Type} {name : SessionName} {body : Async α}
    {ok : α → List (Session system) → Shared system → Prop}
    {error : Exception → List (Session system) → Shared system → Prop}
    (hbody : ∀ shared', rules.discipline.Rely worker (Held []) shared shared' →
      rules.discipline.Good (shared'.log worker (.began name)) →
      wpr rules.discipline worker body
        (fun value stack later => ∃ top, stack = [top] ∧ Commitable rules worker top later ∧
          ∀ last, rules.discipline.Rely worker (Held [top]) later last →
            rules.discipline.Good last → rules.discipline.permits worker [top] last .commit →
            rules.discipline.Good (last.commit worker top) →
            ok value [] (last.commit worker top))
        (fun _ stack later => ∃ top, stack = [top] ∧
          ImportFault rules.discipline rules.Open worker top later)
        [Session.fresh name] (shared'.log worker (.began name)))
    (herror : ∀ raised later, rules.Raised worker raised later → error raised [] later) :
    wpr rules.discipline worker (Async.withSession name body) ok error [] shared := by
  refine wpr_withSession fun shared₁ rely₁ _ _ good₁ => ?_
  refine wpr_mono (hbody shared₁ rely₁ good₁) ?_ ?_
  · rintro value _ shared₂ ⟨top, rfl, commitable, hnext⟩
    refine ⟨top, rfl, fun shared₃ rely₃ good₃ foot₃ permits₃ => ?_⟩
    obtain ⟨hguarantee, hinvariant⟩ := rules.commit worker top shared₃ good₃ permits₃
      (commitable.commit.rely rely₃)
    refine ⟨hguarantee, hinvariant, hnext shared₃ rely₃ good₃ permits₃ ⟨?_, hinvariant⟩⟩
    exact foot₃.unique _ (Schema.Agree.refl _ _) good₃.1
  · rintro raised _ shared₂ ⟨top, rfl, fault⟩
    refine ⟨top, rfl, fun shared₃ rely₃ good₃ permits₃ => ?_⟩
    exact herror raised _ (rules.rollback worker top shared₃ raised good₃ permits₃
      (fault.rely rely₃))

/-- The transaction that closes a batch: it freezes the totals of the items that it
saw, or it finds the batch missing or closed. -/
theorem SettlementService.wpr_closeBatch {batchId : String} {name : SessionName}
    (hname : name = .importClose batchId ∨ name = .closeBatch batchId)
    (hopen : name = .importClose batchId → rules.Open worker batchId shared) :
    wpr rules.discipline worker (closeBatch batchId)
      (fun _ stack later => ∃ top, stack = [top] ∧ Commitable rules worker top later)
      (fun _ stack later => ∃ top, stack = [top] ∧
        ImportFault rules.discipline rules.Open worker top later)
      [Session.fresh name] shared := by
  have hopens {shared₁ : Shared system} {held : Lock system → Prop}
      (rely : rules.discipline.Rely worker held shared shared₁) :
      name = .importClose batchId → rules.Open worker batchId shared₁ := fun h =>
    rules.open_rely _ _ _ _ (hopen h) (rely.mono fun _ hfalse => hfalse.elim)
  unfold closeBatch
  rw [wpr_bind]
  refine Async.wpr_getOrRaise (fun shared₁ loaded progress₁ hholds => ?_)
    fun shared₁ progress₁ hnone => ?_
  · obtain ⟨hrow, hkey⟩ := Schema.mem_holders.mp hholds
    obtain rfl : loaded.id = batchId := by simpa [Table.keys, eq_comm] using hkey
    have saw₁ : Saw rules.discipline worker (fun db : Database => loaded ∈ db.batches) shared₁ :=
      .now progress₁.good hrow
    split
    · next hclosed =>
        refine ⟨_, rfl, .closed loaded.id (hopens progress₁.rely) hname
          (.now progress₁.good fun row hmem hid => ?_)⟩
        have heq : row = loaded := progress₁.good.1.eq_of_key Table.settlementBatch
          (.batch loaded.id) hmem hrow (by simp [Table.keys, hid]) (by simp [Table.keys])
        rw [heq]
        exact hclosed
    · next hstatus =>
        have isOpen : loaded.status = .opened := not_not.mp hstatus
        rw [wpr_bind]
        refine wpr_select (Y := system) fun shared₂ progress₂ => ?_
        have counted₂ : Saw rules.discipline worker
            (fun db : Database => db.items = shared₂.committed.items) shared₂ :=
          .now progress₂.good rfl
        rw [wpr_bind]
        refine Async.wpr_mark rules.free rfl progress₂.here fun shared₃ onward₃ => ?_
        dsimp only
        rw [wpr_bind]
        refine Async.wpr_now fun shared₄ progress₄ => ?_
        have onward₄ := progress₂.onward.trans (onward₃.trans progress₄.onward)
        obtain ⟨row, hrow', hfile⟩ : ∃ row ∈ shared₄.committed.batches, row.file = loaded.file :=
          ((onward₄.later progress₁.good).grows).survives Table.settlementBatch hrow
        have hid : row.id = loaded.id := congrArg (·.id) hfile
        rw [wpr_bind]
        refine SettlementBatch.wpr_flush progress₄.here hrow' hid
          fun shared₅ top₅ writes progress₅ hwrites flush => ?_
        rw [wpr_bind]
        refine Async.wpr_mintId rules.free fun shared₆ eventId onward₆ => ?_
        have onward₅₆ := progress₅.onward.trans onward₆
        rw [wpr_bind]
        refine OutboxPublisher.wpr_stage (fun shared₇ event _ _ progress₇ => ?_)
          fun shared₇ progress₇ htaken => ?_
        · have onward₇ := onward₅₆.trans progress₇.onward
          have rely₇ : rules.discipline.Rely worker (fun _ => False) _ _ :=
            (onward₄.rely.mono fun _ h => h.elim).trans (onward₇.rely.mono fun _ h => h.elim)
          refine ⟨_, rfl, progress₇.foot, .closes loaded shared₂.committed.items
            shared₄.world.clock (fun acquirer date currency parsed h => ?_) isOpen
            (saw₁.rely rely₇) ?_ ?_ (fun db => ?_) fun write hwrite => ?_⟩
          · have hself : name = .importItems acquirer date currency parsed := by
              rw [← h]
              exact (onward₇.name.trans (onward₄.name.trans progress₁.name)).symm
            rcases hname with h' | h' <;> rw [h'] at hself <;> cases hself
          · exact ((counted₂.rely onward₃.rely).rely progress₄.rely).rely onward₇.rely
          · have hmark : Mark.closing loaded.id
                ((ofBatch loaded.id shared₂.committed.items).map (·.id)) ∈ top₅.marks := by
              rw [progress₅.marks]
              exact List.mem_append_right _ (List.mem_singleton.mpr rfl)
            exact List.mem_append_left _ hmark
          · change (applyAll (top₅.writes ++ _) db : Database).batches = _
            rw [applyAll_append, hwrites]
            exact flush.rewrites db
          · change write ∈ top₅.writes ++ _ at hwrite
            rw [hwrites] at hwrite
            rcases List.mem_append.mp hwrite with hold | hnew
            · exact .inl (flush.tables write hold)
            · rw [List.mem_singleton.mp hnew]
              exact .inr rfl
        · refine ⟨_, rfl, .unannounced eventId ?_ (.now progress₇.good ?_)⟩
          · exact List.mem_append_right _ (List.mem_singleton.mpr rfl)
          · have houtbox : (applyAll top₅.writes shared₇.committed : Database).outbox =
                shared₇.committed.outbox := by
              refine rows_applyAll_of_ne (S := schema) top₅.writes Table.eventOutbox
                (fun write hwrite h => ?_) shared₇.committed
              rw [hwrites] at hwrite
              have htable := flush.tables write hwrite
              rw [← h] at htable
              cases htable
            rw [← houtbox]
            exact htaken
  · refine ⟨_, rfl, .closed batchId (hopens progress₁.rely) hname
      (.now progress₁.good fun row hrow hid => ?_)⟩
    refine absurd ?_ (Schema.holders_eq_nil_iff.mp hnone row hrow)
    simp [Table.keys, hid]

section Appends

variable {currency : String} {processingDate : Date} {opened : List SettlementBatch}
  {batch : SettlementBatch}

/-- The items go in and are matched, or one of them is refused. -/
theorem wpr_appendItems {α : Type} (acquirer fileReference : String)
    {items : List ReconciliationItem} {value : α}
    {ok : α → List (Session system) → Shared system → Prop}
    {error : Exception → List (Session system) → Shared system → Prop}
    (built : Built rules.discipline worker acquirer currency processingDate fileReference opened
      batch items top.name shared)
    (appending : Appending rules.discipline opened [] top shared)
    (marks : top.marks = opened.map (fun batch => .minted batch.id) ++
      items.map (fun item => .minted item.id))
    (hok : ∀ shared' top' own,
      Built rules.discipline worker acquirer currency processingDate fileReference opened batch
        items top'.name shared' →
      Appending rules.discipline opened own top' shared' →
      List.Forall₂ (Attached rules.discipline worker top' shared') items own →
      ok value [top'] shared')
    (herror : ∀ shared' top', ImportFault rules.discipline rules.Open worker top' shared' →
      error .integrityError [top'] shared') :
    wpr rules.discipline worker (do
      Async.addAll .reconciliationItem items
      let _ ← matchItems matchStrategies items
      pure value) ok error [top] shared := by
  rw [wpr_bind]
  refine Async.wpr_addAll (fun shared₁ top₁ progress₁ hwrites₁ => ?_)
    (fun shared₁ top₁ before item after progress₁ hitems hwrites₁ htaken => ?_) appending.here
  · have appending₁ := appending.insertItems progress₁ hwrites₁
    rw [wpr_bind]
    have appending₁' : Appending rules.discipline opened ([] ++ items) top₁ shared₁ := appending₁
    refine wpr_matchItems rules.free appending₁'
      fun shared₂ top₂ own onward₂ appending₂ attached₂ => ?_
    refine hok shared₂ top₂ own ?_ appending₂ attached₂
    rw [onward₂.name, progress₁.name]
    exact (built.rely progress₁.rely).rely onward₂.rely
  · have appending₁ := appending.insertItems progress₁ hwrites₁
    subst hitems
    refine herror shared₁ top₁ (.itemRefused acquirer currency processingDate fileReference opened
      batch before item after ?_ ?_ (.now progress₁.good ?_))
    · rw [progress₁.name]
      exact built.rely progress₁.rely
    · rw [progress₁.marks]
      exact marks
    · obtain ⟨key, hkey, hheld⟩ := htaken
      obtain ⟨other, hother⟩ := List.exists_mem_of_ne_nil _ hheld
      obtain ⟨hrow, hother⟩ := Schema.mem_holders.mp hother
      change other ∈ (top₁.view shared₁.committed : Database).items at hrow
      rw [appending₁.view_items] at hrow
      refine ⟨other, hrow, ?_⟩
      simp only [Table.keys, List.mem_cons, List.not_mem_nil, or_false] at hkey hother
      rcases hkey with rfl | rfl
      · simp only [Key.item.injEq, reduceCtorEq, or_false] at hother
        exact .inl hother.symm
      · simp only [Key.itemReference.injEq, reduceCtorEq, false_or] at hother
        exact .inr ⟨hother.1.symm, hother.2.symm⟩

end Appends

/-! ## The file import -/

namespace SettlementImportService

/-- What is left after the look at other files. -/
theorem wpr_withoutFiled {acquirer : String} {processingDate : Date} {currency : Option String}
    {lines : List ParsedSettlementLine} {opened : List SettlementBatch}
    {ok : List ParsedSettlementLine → List (Session system) → Shared system → Prop}
    {error : Exception → List (Session system) → Shared system → Prop}
    (appending : Appending rules.discipline opened [] top shared)
    (hok : ∀ shared' filed, Progress rules.discipline worker [] top shared top shared' →
      Saw rules.discipline worker (fun db : Database =>
        filed = filedElsewhere acquirer processingDate currency lines
          { db with batches := db.batches ++ opened }) shared' →
      ok (unfiled filed lines) [top] shared') :
    wpr rules.discipline worker (withoutFiled acquirer processingDate currency lines) ok error
      [top] shared := by
  have hall : unfiled [] lines = lines := by simp [unfiled]
  unfold withoutFiled
  cases currency with
  | none =>
      have hdone := hok shared [] appending.here (.now appending.good rfl)
      rw [hall] at hdone
      exact hdone
  | some currency =>
      dsimp only
      split
      · next hempty =>
          have hdone := hok shared [] appending.here (.now appending.good (by
            simp [filedElsewhere, hempty]))
          rw [hall] at hdone
          exact hdone
      · next hlines =>
          rw [wpr_bind]
          refine wpr_select (Y := system) fun shared₁ progress₁ => ?_
          refine hok shared₁ _ progress₁ (.now progress₁.good ?_)
          have appending₁ := appending.same progress₁
          have hitems : (top.view shared₁.committed : Database).items =
              shared₁.committed.items := by
            rw [appending₁.view_items, List.append_nil]
          have hbatches : (top.view shared₁.committed : Database).batches =
              shared₁.committed.batches ++ opened := appending₁.batches _
          simp only [filedElsewhere, hlines, Bool.false_eq_true, if_false,
            acquirerReferencesAlreadyFiled, ReconciliationItemRepository.acquirerReferencesFiled,
            hitems, hbatches]

/-- The transaction that appends the lines of a file. -/
theorem wpr_appendLines {acquirer : String} {processingDate : Date} {currency : Option String}
    {parsed : List ParsedSettlementLine}
    {error : Exception → List (Session system) → Shared system → Prop}
    (herror : ∀ raised later, rules.Raised worker raised later → error raised [] later) :
    wpr rules.discipline worker (appendLines acquirer processingDate currency parsed)
      (fun batch stack later => stack = [] ∧ rules.discipline.Good later ∧
        (batch.status = .opened → rules.Open worker batch.id later)) error [] shared := by
  unfold appendLines
  refine wpr_importSession (fun shared₁ _ good₁ => ?_) herror
  dsimp only
  rw [wpr_bind]
  refine SettlementService.wpr_openBatch rules.free (.began good₁)
    (fun shared₂ top₂ opened batch onward₂ appending₂ has₂ marks₂ writes₂ => ?_)
    fun shared₂ top₂ onward₂ refused => ⟨top₂, rfl, .batchRefused _ _ refused⟩
  split
  · next hclosed =>
      -- A batch that was just opened is open, so this one was found.
      cases has₂ with
      | opened one new saw =>
          rw [new] at hclosed
          exact absurd rfl hclosed
      | found none saw file =>
          refine ⟨top₂, rfl, ⟨onward₂.foot, .reads (writes₂ none)
            fun requested date code lines hname => ?_⟩,
            fun last _ _ _ good => ⟨rfl, good, fun h => absurd h hclosed⟩⟩
          rw [onward₂.name] at hname
          cases hname
          exact saw.imp fun db hmem => ⟨batch, hmem, file, hclosed⟩
  · next hstatus =>
      have isOpen : batch.status = .opened := not_not.mp hstatus
      rw [wpr_bind]
      refine wpr_select (Y := system) fun shared₃ progress₃ => ?_
      have appending₃ := appending₂.same progress₃
      have hexisting : acquirerReferencesForBatch batch.id (top₂.view shared₃.committed) =
          acquirerReferencesForBatch batch.id shared₃.committed := by
        simp only [acquirerReferencesForBatch, appending₃.view_items, List.append_nil]
      rw [wpr_bind]
      refine wpr_withoutFiled appending₃ fun shared₄ filed progress₄ hfiled => ?_
      rw [wpr_bind]
      refine Async.wpr_now fun shared₅ progress₅ => ?_
      rw [wpr_bind]
      refine Async.wpr_transactionTime fun shared₆ createdAt progress₆ _ => ?_
      have progress₅₆ := progress₅.trans progress₆
      rw [wpr_bind]
      refine wpr_buildItems rules.free progress₆.here
        fun shared₇ top₇ items onward₇ writes₇ marks₇ ofLines => ?_
      have appending₇ := ((appending₃.same progress₄).same progress₅₆).onward onward₇ writes₇
      have onward₃₇ := (progress₃.trans (progress₄.trans progress₅₆)).onward.trans onward₇
      refine wpr_appendItems acquirer (fileReferenceFor acquirer processingDate currency)
        ⟨has₂.rely onward₃₇.rely, isOpen, fun item hitem => ?_,
          .inl ⟨processingDate, currency, parsed, ?_⟩,
          fun requested date code lines hname => ?_⟩ appending₇ ?_
        (fun shared₈ top₈ own built₈ appending₈ attached₈ => ?_)
        fun shared₈ top₈ fault => ⟨top₈, rfl, fault⟩
      · obtain ⟨line, -, ofLine⟩ := exists_left_of_forall₂ ofLines hitem
        exact ofLine.imported
      · rw [onward₇.name, onward₂.name]
        rfl
      · rw [onward₇.name, onward₂.name] at hname
        cases hname
        refine ⟨rfl, rfl, _, ⟨_, filed, rfl, ?_, ?_⟩, ofLines⟩
        · exact (Saw.now progress₃.good hexisting).rely
            ((progress₄.trans progress₅₆).onward.trans onward₇).rely
        · exact (hfiled.rely progress₅₆.rely).rely onward₇.rely
      · rw [marks₇, marks₂]
      · refine ⟨top₈, rfl, ⟨appending₈.foot, .appends _ _ _ _ _ _ _ _ built₈ appending₈ attached₈⟩,
          fun last rely good permits good' => ⟨rfl, good', fun _ => ?_⟩⟩
        exact rules.opens _ _ _ _ _ _ _ _ _ _ _ good permits (built₈.rely rely)
          (appending₈.rely rely)

theorem wpr_importFetched {acquirer : String} {processingDate : Date} {currency : Option String}
    {error : Exception → List (Session system) → Shared system → Prop}
    (herror : ∀ raised later, rules.Raised worker raised later → error raised [] later) :
    wpr rules.discipline worker (importFetched acquirer processingDate currency)
      (fun _ stack _ => stack = []) error [] shared := by
  unfold importFetched
  rw [wpr_bind]
  refine wpr_call (Y := system) fun shared₁ choice reply world rely good hreply permits => ?_
  have hworld : world = shared₁.world := by
    cases choice <;> simp only [World.respond, reduceCtorEq, Option.some.injEq,
      Prod.mk.injEq] at hreply
    · exact hreply.2.symm
    · exact hreply.2.symm
  subst hworld
  obtain ⟨hguarantee, hinvariant, hraised⟩ :=
    rules.fetch worker shared₁ acquirer processingDate currency reply good permits
  refine ⟨hguarantee, hinvariant, ?_⟩
  cases reply with
  | error refused => exact herror _ _ (hraised refused rfl)
  | ok file =>
      dsimp only
      split
      · rfl
      · rw [wpr_bind]
        refine wpr_mono (wpr_appendLines herror) ?_ fun _ _ _ h => h
        rintro batch _ shared₂ ⟨rfl, good₂, hopen⟩
        split
        · rfl
        · next hstatus =>
            rw [wpr_bind]
            refine wpr_importSession (fun shared₃ rely₃ good₃ => ?_) herror
            have hopen₃ := rules.open_rely _ _ _ _ (hopen (not_not.mp hstatus))
              (rely₃.mono fun _ hfalse => hfalse.elim)
            refine wpr_mono (SettlementService.wpr_closeBatch (.inl rfl)
              fun _ => rules.open_began _ _ _ _ hopen₃) ?_ fun _ _ _ h => h
            rintro closed _ shared₄ ⟨top, rfl, commitable⟩
            exact ⟨top, rfl, commitable, fun _ _ _ _ _ => rfl⟩

theorem wpr_findByFile {acquirer fileReference : String} {rest : List (Session system)}
    {D : Discipline system}
    {ok : Option SettlementBatch → List (Session system) → Shared system → Prop}
    {error : Exception → List (Session system) → Shared system → Prop}
    (hok : ∀ shared' found, Progress D worker rest top shared top shared' →
      ok found (top :: rest) shared') :
    wpr D worker (SettlementBatchRepository.findByFile acquirer fileReference) ok error
      (top :: rest) shared :=
  Async.wpr_get (fun shared₁ _ progress₁ _ => hok shared₁ _ progress₁)
    fun shared₁ progress₁ _ => hok shared₁ _ progress₁

theorem wpr_importFile {acquirer : String} {processingDate : Date} {currency : Option String}
    {error : Exception → List (Session system) → Shared system → Prop}
    (herror : ∀ raised later, rules.Raised worker raised later → error raised [] later) :
    wpr rules.discipline worker (importFile acquirer processingDate currency)
      (fun _ stack _ => stack = []) error [] shared := by
  unfold importFile
  cases currency with
  | none => exact wpr_importFetched herror
  | some code =>
      dsimp only
      rw [wpr_bind]
      refine wpr_importSession (fun shared₁ _ good₁ => ?_) herror
      have hreads {shared₂ : Shared system} {next : Async (Option SettlementBatch)}
          (hnext : ∀ last, wpr rules.discipline worker next (fun _ stack _ => stack = []) error []
            (Shared.commit last worker (Session.fresh (.importFind acquirer processingDate code))))
          (progress : Progress rules.discipline worker []
            (Session.fresh (Y := system) (.importFind acquirer processingDate code))
            (shared₁.log worker (.began (.importFind acquirer processingDate code)))
            (Session.fresh (Y := system) (.importFind acquirer processingDate code)) shared₂) :
          ∃ top, [Session.fresh (Y := system) (.importFind acquirer processingDate code)] = [top] ∧
            Commitable rules worker top shared₂ ∧
            ∀ last, rules.discipline.Rely worker (Held [top]) shared₂ last →
              rules.discipline.Good last → rules.discipline.permits worker [top] last .commit →
              rules.discipline.Good (last.commit worker top) →
              wpr rules.discipline worker next (fun _ stack _ => stack = []) error []
                (last.commit worker top) :=
        ⟨_, rfl, ⟨progress.foot, .reads rfl fun _ _ _ _ hname => by cases hname⟩,
          fun last _ _ _ _ => hnext last⟩
      unfold SettlementService.findImportedBatch
      rw [wpr_bind]
      refine wpr_findByFile fun shared₂ found progress₂ => ?_
      split
      · refine hreads (fun last => ?_) progress₂
        split
        · rfl
        · exact wpr_importFetched herror
      · rw [wpr_bind]
        refine wpr_findByFile fun shared₃ found₃ progress₃ =>
          hreads (fun last => ?_) (progress₂.trans progress₃)
        split
        · rfl
        · exact wpr_importFetched herror

end SettlementImportService

theorem SettlementService.wpr_importLegacyRecords {acquirer fileReference : String}
    {processingDate : Date} {records : List LegacySettlementRecord}
    (good : rules.discipline.Good shared) :
    wpr rules.discipline worker
      (importLegacyRecords acquirer processingDate fileReference records)
      (fun _ stack later => ∃ top, stack = [top] ∧ Commitable rules worker top later)
      (fun _ stack later => ∃ top, stack = [top] ∧
        ImportFault rules.discipline rules.Open worker top later)
      [Session.fresh (.legacyImport acquirer fileReference)] shared := by
  unfold importLegacyRecords
  cases records with
  | nil => exact ⟨_, rfl, .noRecords acquirer fileReference rfl⟩
  | cons first records =>
      dsimp only
      rw [wpr_bind]
      refine wpr_openBatch rules.free (.began good)
        (fun shared₂ top₂ opened batch onward₂ appending₂ has₂ marks₂ writes₂ => ?_)
        fun shared₂ top₂ onward₂ refused => ⟨top₂, rfl, .batchRefused _ _ refused⟩
      have hname {top₃ : Session system} {shared₃ : Shared system} {items : List ReconciliationItem}
          (onward : Onward rules.discipline worker []
            (Session.fresh (.legacyImport acquirer fileReference)) shared top₃ shared₃) :
          ∀ requested date code parsed, top₃.name = .importItems requested date code parsed →
            acquirer = requested ∧ fileReference = fileReferenceFor requested date code ∧
              ∃ lines, Planned rules.discipline worker requested date code opened batch parsed
                lines shared₃ ∧ List.Forall₂ (OfLine batch) lines items := by
        intro requested date code parsed hname
        rw [onward.name] at hname
        cases hname
      split
      · next hclosed =>
          cases has₂ with
          | opened one new saw =>
              rw [new] at hclosed
              exact absurd rfl hclosed
          | found none saw file =>
              refine ⟨top₂, rfl, onward₂.foot, .reads (writes₂ none)
                fun requested date code lines hname => ?_⟩
              rw [onward₂.name] at hname
              cases hname
      · next hstatus =>
          rw [wpr_bind]
          refine wpr_select (Y := system) fun shared₃ progress₃ => ?_
          rw [wpr_bind]
          refine Async.wpr_transactionTime fun shared₄ createdAt progress₄ _ => ?_
          have progress₃₄ := progress₃.trans progress₄
          rw [wpr_bind]
          refine wpr_recordItems rules.free progress₄.here
            fun shared₅ top₅ items onward₅ writes₅ marks₅ imported => ?_
          have appending₅ := (appending₂.same progress₃₄).onward onward₅ writes₅
          have onward₂₅ := progress₃₄.onward.trans onward₅
          refine wpr_appendItems acquirer fileReference
            ⟨has₂.rely onward₂₅.rely, not_not.mp hstatus,
              imported, .inr (onward₂.trans onward₂₅).name, hname (onward₂.trans onward₂₅)⟩
            appending₅ ?_
            (fun shared₈ top₈ own built₈ appending₈ attached₈ => ?_)
            fun shared₈ top₈ fault => ⟨top₈, rfl, fault⟩
          · rw [marks₅, marks₂]
          · exact ⟨top₈, rfl, appending₈.foot,
              .appends _ _ _ _ _ _ _ _ built₈ appending₈ attached₈⟩

namespace BatchCloseJob

theorem wpr_closeEach {batchIds : List String}
    {error : Exception → List (Session system) → Shared system → Prop}
    (herror : ∀ raised later, rules.Raised worker raised later → error raised [] later) :
    wpr rules.discipline worker (closeEach batchIds) (fun _ stack _ => stack = []) error []
      shared := by
  induction batchIds generalizing shared with
  | nil => rfl
  | cons batchId batchIds ih =>
      have hrest (shared₁ : Shared system) (closed : Nat) :
          wpr rules.discipline worker
            (do let rest ← closeEach batchIds
                pure (closed + rest)) (fun _ stack _ => stack = []) error [] shared₁ := by
        rw [wpr_bind]
        exact wpr_mono ih (fun _ _ _ h => h) fun _ _ _ h => h
      unfold closeEach Async.recover
      rw [wpr_bind, wpr_recover (Y := system), wpr_bind]
      refine wpr_importSession (fun shared₁ _ _ => ?_)
        fun raised later (hraised : rules.Raised worker raised later) => ?_
      · refine wpr_mono (SettlementService.wpr_closeBatch (.inr rfl)
          fun h => by cases h) ?_ fun _ _ _ h => h
        rintro closed _ shared₂ ⟨top, rfl, commitable⟩
        exact ⟨top, rfl, commitable, fun _ _ _ _ _ => hrest _ _⟩
      · split
        · exact hrest _ _
        · exact herror raised later hraised

theorem wpr_runOnce {error : Exception → List (Session system) → Shared system → Prop}
    (herror : ∀ raised later, rules.Raised worker raised later → error raised [] later) :
    wpr rules.discipline worker runOnce (fun _ stack _ => stack = []) error [] shared := by
  unfold runOnce
  rw [wpr_bind]
  refine wpr_importSession (fun shared₁ _ _ => ?_) herror
  rw [wpr_bind]
  refine Async.wpr_now fun shared₂ progress₂ => ?_
  unfold SettlementBatchRepository.listByStatus
  rw [wpr_bind]
  refine wpr_select (Y := system) fun shared₃ progress₃ => ?_
  exact ⟨_, rfl, ⟨progress₃.foot, .reads rfl fun _ _ _ _ hname => by cases hname⟩,
    fun _ _ _ _ _ => wpr_closeEach herror⟩

end BatchCloseJob

/-! ## Runs -/

theorem ImportJob.wpr_run (job : ImportJob) :
    wpr rules.discipline worker job.run (fun _ stack _ => stack = [])
      (fun raised stack later => stack = [] ∧ rules.Raised worker raised later) [] shared := by
  have herror (raised : Exception) (later : Shared system) (h : rules.Raised worker raised later) :
      ([] : List (Session system)) = [] ∧ rules.Raised worker raised later := ⟨rfl, h⟩
  unfold run
  cases job with
  | importFile acquirer processingDate currency =>
      rw [wpr_bind]
      exact SettlementImportService.wpr_importFile herror
  | importLegacyRecords acquirer processingDate fileReference records =>
      rw [wpr_bind]
      refine wpr_importSession (fun shared₁ _ good₁ => ?_) herror
      refine wpr_mono (SettlementService.wpr_importLegacyRecords good₁) ?_ fun _ _ _ h => h
      rintro value _ shared₂ ⟨top, rfl, commitable⟩
      exact ⟨top, rfl, commitable, fun _ _ _ _ _ => rfl⟩
  | closeBatch batchId =>
      rw [wpr_bind]
      refine wpr_importSession (fun shared₁ _ _ => ?_) herror
      refine wpr_mono (SettlementService.wpr_closeBatch (.inr rfl)
        fun h => by cases h) ?_ fun _ _ _ h => h
      rintro closed _ shared₂ ⟨top, rfl, commitable⟩
      exact ⟨top, rfl, commitable, fun _ _ _ _ _ => rfl⟩
  | batchClose =>
      rw [wpr_bind]
      exact BatchCloseJob.wpr_runOnce herror

/-- Whatever jobs run side by side, every configuration that a permitted run
reaches keeps the invariant of the rules, and a job that raised did so as they say. -/
theorem import_run (rules : ImportRules)
    {post : Nat → Except Exception Unit → List (Session system) → Shared system → Prop}
    (stable : StablePost rules.discipline post)
    (hok : ∀ worker shared, post worker (.ok ()) [] shared)
    (herror : ∀ worker raised shared, rules.Raised worker raised shared →
      post worker (.error raised) [] shared)
    {db : Database} {world : World} (unique : Schema.Unique (S := schema) db)
    (hinvariant : rules.discipline.invariant ⟨db, world, []⟩) (jobs : List ImportJob)
    {config : Config system (Except Exception Unit)}
    (hrun : Config.Run rules.discipline.permits
      (Config.start db world (importWorkers jobs)) config) :
    Sound rules.discipline post config := by
  refine Sound.run stable (Sound.start ⟨unique, hinvariant⟩
    fun worker program hprogram => ?_) hrun
  simp only [importWorkers, List.getElem?_map, Option.map_eq_some_iff] at hprogram
  obtain ⟨job, -, rfl⟩ := hprogram
  have hending : wpr rules.discipline worker job.run (fun _ stack _ => stack = [])
      (fun raised stack later => stack = [] ∧ rules.Raised worker raised later) []
      (Shared.mk db world []) := job.wpr_run
  refine wp_mono hending fun result stack shared h => ?_
  cases result with
  | ok value =>
      obtain rfl : stack = [] := h
      exact hok worker shared
  | error raised =>
      obtain ⟨rfl, hraised⟩ := h
      exact herror worker raised shared hraised

end PayzenoLedger
