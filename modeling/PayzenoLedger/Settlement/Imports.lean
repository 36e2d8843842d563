import PayzenoLedger.Ledger.Posting
import PayzenoLedger.Services.Settlements
import PayzenoLedger.Settlement.Flushes

/-!
# What the importers commit

The programs of file imports, record pushes and batch closes, followed once under
any discipline.  `ImportCommit` says what each of their transactions does when it
commits, and what it had seen of the database by then; `ImportFault` says why one
was rolled back.
-/

set_option autoImplicit false

namespace PayzenoLedger

open Library Write

variable {D : Discipline system} {worker : Nat} {top top' : Session system}
  {shared shared' : Shared system}

/-! ## Appending to a batch -/

/-- The rows that an import added to what is committed, now and whenever it
commits. -/
structure Appending (D : Discipline system) (opened : List SettlementBatch)
    (own : List ReconciliationItem) (top : Session system) (shared : Shared system) :
    Prop where
  good : D.Good shared
  foot : Footprint top.keys top.writes shared.committed
  tables : ∀ write ∈ top.writes,
    write.table = Table.settlementBatch ∨ write.table = Table.reconciliationItem
  batches : ∀ db, (applyAll top.writes db : Database).batches = db.batches ++ opened
  items : ∀ db, Schema.Later (S := schema) top.keys shared.committed db →
    (applyAll top.writes db : Database).items = db.items ++ own

namespace Appending

variable {opened : List SettlementBatch} {own : List ReconciliationItem}

theorem began {name : SessionName} (good : D.Good shared) :
    Appending D [] [] (Session.fresh name) shared where
  good := good
  foot := Footprint.nil _ _
  tables := by simp [Session.fresh]
  batches db := by simp [Session.fresh]
  items db _ := by simp [Session.fresh]

theorem onward (appending : Appending D opened own top shared)
    (onward : Onward D worker [] top shared top' shared') (hwrites : top'.writes = top.writes) :
    Appending D opened own top' shared' where
  good := onward.good
  foot := onward.foot
  tables := by
    rw [hwrites]
    exact appending.tables
  batches := by
    rw [hwrites]
    exact appending.batches
  items db later := by
    rw [hwrites]
    refine appending.items db ((onward.later appending.good).trans (later.mono fun key hkey => ?_))
    exact onward.locks _ hkey

theorem same (appending : Appending D opened own top shared)
    (progress : Progress D worker [] top shared top shared') :
    Appending D opened own top shared' :=
  appending.onward progress.onward rfl

theorem rely (appending : Appending D opened own top shared)
    (rely : D.Rely worker (Held [top]) shared shared') :
    Appending D opened own top shared' :=
  appending.same (.of_rely appending.good appending.foot rely)

theorem here (appending : Appending D opened own top shared) :
    Progress D worker [] top shared top shared where
  rely := Discipline.Rely.refl _ _ _
  good := appending.good
  foot := appending.foot
  name := rfl
  marks := rfl
  locks _ h := h
  writes _ h := h

/-- The session sees its items behind those that are committed. -/
theorem view_items (appending : Appending D opened own top shared) :
    (top.view shared.committed : Database).items = shared.committed.items ++ own :=
  appending.items _ (Schema.Later.refl _ appending.good.1)

theorem rows_eq (appending : Appending D opened own top shared) (table : Table)
    (hbatch : table ≠ .settlementBatch) (hitem : table ≠ .reconciliationItem)
    (db : Database) : table.rows (applyAll top.writes db) = table.rows db := by
  refine rows_applyAll_of_ne (S := schema) top.writes table (fun write hwrite h => ?_) db
  rcases appending.tables write hwrite with htable | htable
  · exact hbatch (h.trans htable)
  · exact hitem (h.trans htable)

/-- The appended items have identifiers of their own. -/
theorem ids {own : List ReconciliationItem} (appending : Appending D opened own top shared)
    {before after : List ReconciliationItem} (hown : own = before ++ after)
    {item other : ReconciliationItem} (hitem : item ∈ after) {db : Database}
    (later : Schema.Later (S := schema) top.keys shared.committed db)
    (hother : other ∈ db.items ++ before) : other.id ≠ item.id := by
  intro hid
  have hrows : Table.reconciliationItem.rows (applyAll top.writes db) =
      (db.items ++ before) ++ after := by
    rw [List.append_assoc, ← hown]
    exact appending.items db later
  have hunique := appending.foot.unique db later.agree later.unique
  refine hunique.not_mem_of_append Table.reconciliationItem hrows hother hitem (.item item.id)
    (by simp [Table.keys]) ?_
  simp [Table.keys, hid]

/-- A batch that a transaction opened is not on file yet. -/
theorem opened_new (appending : Appending D opened own top shared) {batch other : SettlementBatch}
    (hbatch : batch ∈ opened) (hother : other ∈ shared.committed.batches) :
    other.id ≠ batch.id := by
  intro hid
  have hunique := appending.foot.unique _ (Schema.Agree.refl _ _) appending.good.1
  have hrows : Table.settlementBatch.rows (applyAll top.writes shared.committed) =
      shared.committed.batches ++ opened := appending.batches _
  refine hunique.not_mem_of_append Table.settlementBatch hrows hother hbatch (.batch batch.id)
    (by simp [Table.keys]) ?_
  simp [Table.keys, hid]

/-- A batch row goes in first. -/
theorem insertBatch {batch : SettlementBatch} (appending : Appending D [] [] top shared)
    (progress : Progress D worker [] top shared (top.insert Table.settlementBatch batch) shared') :
    Appending D [batch] [] (top.insert Table.settlementBatch batch) shared' where
  good := progress.good
  foot := progress.foot
  tables write hwrite := by
    rcases List.mem_append.mp hwrite with hold | hnew
    · exact appending.tables write hold
    · rw [List.mem_singleton.mp hnew]
      exact .inl rfl
  batches db := by
    change (applyAll (top.writes ++ _) db : Database).batches = _
    rw [applyAll_append]
    change (applyAll top.writes db : Database).batches ++ [batch] = _
    rw [appending.batches, List.append_nil]
  items db later := by
    change (applyAll (top.writes ++ _) db : Database).items = _
    rw [applyAll_append]
    change (applyAll top.writes db : Database).items = _
    exact appending.items db ((progress.later appending.good).trans (later.mono progress.keys))

/-- The items go in after it. -/
theorem insertItems {items : List ReconciliationItem} (appending : Appending D opened [] top shared)
    (progress : Progress D worker [] top shared top' shared')
    (hwrites : top'.writes = top.writes ++ inserts Table.reconciliationItem items) :
    Appending D opened items top' shared' where
  good := progress.good
  foot := progress.foot
  tables write hwrite := by
    rw [hwrites] at hwrite
    rcases List.mem_append.mp hwrite with hold | hnew
    · exact appending.tables write hold
    · obtain ⟨item, -, rfl⟩ := List.mem_map.mp hnew
      exact .inr rfl
  batches db := by
    rw [hwrites, applyAll_append, applyAll_inserts]
    exact appending.batches db
  items db later := by
    rw [hwrites, applyAll_append, applyAll_inserts]
    have hitems := appending.items db
      ((progress.later appending.good).trans (later.mono progress.keys))
    rw [List.append_nil] at hitems
    change (applyAll top.writes db : Database).items ++ items = _
    rw [hitems]

/-- A flush of an appended item puts what the session has in its place. -/
theorem flush {before after : List ReconciliationItem} {loaded changed : ReconciliationItem}
    {writes : List (Write schema)}
    (appending : Appending D opened (before ++ loaded :: after) top shared)
    (hline : changed.line = loaded.line)
    (progress : Progress D worker [] top shared top' shared')
    (hwrites : top'.writes = top.writes ++ writes) (flush : Flush loaded changed writes) :
    Appending D opened (before ++ changed :: after) top' shared' where
  good := progress.good
  foot := progress.foot
  tables write hwrite := by
    rw [hwrites] at hwrite
    exact (List.mem_append.mp hwrite).elim (appending.tables write)
      fun hnew => .inr (flush.tables write hnew)
  batches db := by
    have hsame := rows_applyAll_of_ne writes Table.settlementBatch (fun write hwrite h => by
      have htable := flush.tables write hwrite
      rw [← h] at htable
      cases htable) (applyAll top.writes db)
    rw [hwrites, applyAll_append]
    exact hsame.trans (appending.batches db)
  items db later := by
    have later' := (progress.later appending.good).trans (later.mono progress.keys)
    rw [hwrites, applyAll_append, flush.rewrites, appending.items db later']
    have hothers : ∀ item ∈ db.items ++ before, item.id ≠ loaded.id := fun item hitem =>
      appending.ids rfl List.mem_cons_self later' hitem
    have hown : before ++ loaded :: after = (before ++ [loaded]) ++ after := by simp
    have hafter : ∀ item ∈ after, loaded.id ≠ item.id := fun item hitem =>
      appending.ids hown hitem later' (by simp)
    simp only [List.map_append, List.map_cons, if_true,
      ReconciliationItem.merge_loaded hline]
    have hkept (items : List ReconciliationItem) (h : ∀ item ∈ items, item.id ≠ loaded.id) :
        (items.map fun item => if item.id = loaded.id then
          ReconciliationItem.merge loaded changed item else item) = items := by
      refine (List.map_congr_left fun item hitem => ?_).trans (List.map_id items)
      exact if_neg (h item hitem)
    rw [hkept db.items fun item hitem => hothers item (List.mem_append_left _ hitem),
      hkept before fun item hitem => hothers item (List.mem_append_right _ hitem),
      hkept after fun item hitem => Ne.symm (hafter item hitem)]

end Appending

/-! ## Opening the batch -/

/-- The row of this file. -/
def IsFile (acquirer fileReference : String) (batch : SettlementBatch) : Prop :=
  batch.acquirer = acquirer ∧ batch.fileReference = fileReference

theorem isFile_iff {acquirer fileReference : String} {batch : SettlementBatch} :
    IsFile acquirer fileReference batch ↔
      .batchFile acquirer fileReference ∈ Table.settlementBatch.keys batch := by
  simp [IsFile, Table.keys, eq_comm]

/-- The batch that an import has in hand: one that it found on file, or one that it
opened because there was none. -/
inductive HasBatch (D : Discipline system) (worker : Nat) (acquirer currency : String)
    (processingDate : Date) (fileReference : String) (opened : List SettlementBatch)
    (batch : SettlementBatch) (shared : Shared system) : Prop
  | found (none : opened = [])
      (saw : Saw D worker (fun db : Database => batch ∈ db.batches) shared)
      (file : IsFile acquirer fileReference batch)
  | opened (one : opened = [batch])
      (new : batch = SettlementService.newBatch batch.id acquirer currency processingDate
        fileReference)
      (saw : Saw D worker (fun db : Database =>
        ∀ other ∈ db.batches, ¬ IsFile acquirer fileReference other) shared)

namespace HasBatch

variable {acquirer currency fileReference : String} {processingDate : Date}
  {opened : List SettlementBatch} {batch : SettlementBatch}

theorem rely {held : Lock system → Prop}
    (has : HasBatch D worker acquirer currency processingDate fileReference opened batch shared)
    (rely : D.Rely worker held shared shared') :
    HasBatch D worker acquirer currency processingDate fileReference opened batch shared' := by
  cases has with
  | found none saw file => exact .found none (saw.rely rely) file
  | opened one new saw => exact .opened one new (saw.rely rely)

theorem isFile
    (has : HasBatch D worker acquirer currency processingDate fileReference opened batch shared) :
    IsFile acquirer fileReference batch := by
  cases has with
  | found none saw file => exact file
  | opened one new saw =>
      rw [new]
      exact ⟨rfl, rfl⟩

end HasBatch

/-- Why a transaction of an import was refused. -/
inductive BatchRefused (D : Discipline system) (worker : Nat) (acquirer fileReference : String)
    (top : Session system) (shared : Shared system) : Prop
  | intro (id : String) (marks : top.marks = [.minted id])
      (saw : Saw D worker (fun db : Database =>
        ∀ other ∈ db.batches, ¬ IsFile acquirer fileReference other) shared)
      (taken : Saw D worker (fun db : Database =>
        ∃ other ∈ db.batches, other.id = id ∨ IsFile acquirer fileReference other) shared)

section OpenBatch

variable {acquirer currency fileReference : String} {processingDate : Date}
  {name : SessionName} {ok : SettlementBatch → List (Session system) → Shared system → Prop}
  {error : Exception → List (Session system) → Shared system → Prop}

theorem SettlementService.wpr_openBatch (free : FreeMarks D)
    (appending : Appending D [] [] (Session.fresh name) shared)
    (hok : ∀ shared' top' opened batch,
      Onward D worker [] (Session.fresh name) shared top' shared' →
      Appending D opened [] top' shared' →
      HasBatch D worker acquirer currency processingDate fileReference opened batch shared' →
      top'.marks = opened.map (fun batch => .minted batch.id) →
      (opened = [] → top'.writes = []) → ok batch [top'] shared')
    (herror : ∀ shared' top', Onward D worker [] (Session.fresh name) shared top' shared' →
      BatchRefused D worker acquirer fileReference top' shared' →
      error .integrityError [top'] shared') :
    wpr D worker (openBatch acquirer currency processingDate fileReference) ok error
      [Session.fresh name] shared := by
  unfold openBatch SettlementBatchRepository.findByFile
  rw [wpr_bind]
  refine Async.wpr_get (fun shared₁ batch progress₁ hholds => ?_) fun shared₁ progress₁ hnone => ?_
  · obtain ⟨hrow, hkey⟩ := Schema.mem_holders.mp hholds
    refine hok shared₁ _ [] batch progress₁.onward (appending.same progress₁) ?_ rfl fun _ => rfl
    exact .found rfl (.now progress₁.good hrow) (isFile_iff.mpr hkey)
  · have habsent : ∀ other ∈ shared₁.committed.batches, ¬ IsFile acquirer fileReference other :=
      fun other hother hfile =>
        Schema.holders_eq_nil_iff.mp hnone other hother (isFile_iff.mp hfile)
    have saw₁ : Saw D worker (fun db : Database =>
        ∀ other ∈ db.batches, ¬ IsFile acquirer fileReference other) shared₁ :=
      .now progress₁.good habsent
    dsimp only
    rw [wpr_bind]
    refine Async.wpr_mintId free fun shared₂ id onward₂ => ?_
    have appending₂ := (appending.same progress₁).onward onward₂ rfl
    rw [wpr_bind]
    refine Async.wpr_add (fun shared₃ progress₃ _ progress₃' => ?_)
      fun shared₃ progress₃ htaken => ?_
    · refine hok shared₃ _ _ _ ((progress₁.onward.trans onward₂).trans progress₃'.onward)
        (appending₂.insertBatch progress₃') ?_ rfl (by simp)
      exact .opened rfl rfl ((saw₁.rely onward₂.rely).rely progress₃.rely)
    · refine herror shared₃ _ ((progress₁.onward.trans onward₂).trans progress₃.onward)
        ⟨id, rfl, (saw₁.rely onward₂.rely).rely progress₃.rely, .now progress₃.good ?_⟩
      obtain ⟨key, hkey, hheld⟩ := htaken
      obtain ⟨other, hother⟩ := List.exists_mem_of_ne_nil _ hheld
      obtain ⟨hrow, hother⟩ := Schema.mem_holders.mp hother
      refine ⟨other, hrow, ?_⟩
      simp only [Table.keys, newBatch, List.mem_cons, List.not_mem_nil, or_false] at hkey hother
      unfold IsFile
      rcases hkey with rfl | rfl
      · simp only [Key.batch.injEq, reduceCtorEq, or_false] at hother
        exact .inl hother.symm
      · simp only [Key.batchFile.injEq, reduceCtorEq, false_or] at hother
        exact .inr ⟨hother.1.symm, hother.2.symm⟩

end OpenBatch

/-! ## Building the items -/

/-- An item as an importer creates it for this batch. -/
def Imported (batch : SettlementBatch) (item : ReconciliationItem) : Prop :=
  ∃ line merchantId nextAttemptAt createdAt,
    item = importedItem batch line merchantId item.id nextAttemptAt createdAt

/-- The item of one line of a file. -/
def OfLine (batch : SettlementBatch) (line : ParsedSettlementLine) (item : ReconciliationItem) :
    Prop :=
  ∃ stamp createdAt, item = importedItem batch line none item.id stamp createdAt

theorem OfLine.imported {batch : SettlementBatch} {line : ParsedSettlementLine}
    {item : ReconciliationItem} (ofLine : OfLine batch line item) : Imported batch item := by
  obtain ⟨stamp, createdAt, h⟩ := ofLine
  exact ⟨line, none, stamp, createdAt, h⟩

section BuildItems

variable {batch : SettlementBatch}
  {error : Exception → List (Session system) → Shared system → Prop}
  {ok : List ReconciliationItem → List (Session system) → Shared system → Prop}

/-- Every item gets a generated identifier of its own. -/
theorem SettlementImportService.wpr_buildItems {stamp createdAt : Instant}
    {lines : List ParsedSettlementLine} (free : FreeMarks D)
    (start : Progress D worker [] top shared top shared)
    (hok : ∀ shared' top' items, Onward D worker [] top shared top' shared' →
      top'.writes = top.writes →
      top'.marks = top.marks ++ items.map (fun item => Mark.minted item.id) →
      List.Forall₂ (OfLine batch) lines items → ok items [top'] shared') :
    wpr D worker (buildItems batch stamp createdAt lines) ok error [top] shared := by
  induction lines generalizing top shared ok with
  | nil => exact hok shared top [] start.onward rfl (List.append_nil _).symm .nil
  | cons line lines ih =>
      unfold buildItems
      rw [wpr_bind]
      refine Async.wpr_mintId free fun shared₁ id onward₁ => ?_
      rw [wpr_bind]
      refine ih onward₁.here fun shared₂ top₂ items onward₂ hwrites hmarks built => ?_
      refine hok shared₂ top₂ _ (onward₁.trans onward₂) hwrites ?_ (.cons ⟨_, _, rfl⟩ built)
      rw [hmarks]
      simp [Session.mark, importedItem]

theorem SettlementService.wpr_recordItems {existing : List String} {createdAt : Instant}
    {records : List LegacySettlementRecord} (free : FreeMarks D)
    (start : Progress D worker [] top shared top shared)
    (hok : ∀ shared' top' items, Onward D worker [] top shared top' shared' →
      top'.writes = top.writes →
      top'.marks = top.marks ++ items.map (fun item => Mark.minted item.id) →
      (∀ item ∈ items, Imported batch item) → ok items [top'] shared') :
    wpr D worker (recordItems batch existing createdAt records) ok error [top] shared := by
  induction records generalizing top shared ok with
  | nil => exact hok shared top [] start.onward rfl (List.append_nil _).symm (by simp)
  | cons record records ih =>
      unfold recordItems
      split
      · exact ih start hok
      · rw [wpr_bind]
        refine Async.wpr_mintId free fun shared₁ id onward₁ => ?_
        rw [wpr_bind]
        refine Async.wpr_now fun shared₂ progress₂ => ?_
        rw [wpr_bind]
        refine ih progress₂.here fun shared₃ top₃ items onward₃ hwrites hmarks imported => ?_
        refine hok shared₃ top₃ _ ((onward₁.trans progress₂.onward).trans onward₃) hwrites ?_
          fun item hitem => ?_
        · rw [hmarks]
          simp [Session.mark, importedItem]
        · rcases List.mem_cons.mp hitem with rfl | hrest
          · exact ⟨_, _, _, _, rfl⟩
          · exact imported item hrest

end BuildItems

/-! ## Matching the items -/

/-- What the matcher made of an item. -/
structure Attached (D : Discipline system) (worker : Nat) (top : Session system)
    (shared : Shared system) (item result : ReconciliationItem) : Prop where
  line : result.line = item.line
  charge : (result.chargeId = item.chargeId ∧ result.merchantId = item.merchantId) ∨
    ∃ charge, Mark.matching item charge ∈ top.marks ∧
      Saw D worker (fun db : Database => charge ∈ db.charges) shared ∧
      result.chargeId = some charge.chargeId ∧
      result.merchantId = some (item.merchantId.getD charge.merchantId)

theorem Attached.onward {rest : List (Session system)} {item result : ReconciliationItem}
    (attached : Attached D worker top shared item result)
    (onward : Onward D worker rest top shared top' shared') :
    Attached D worker top' shared' item result where
  line := attached.line
  charge := by
    rcases attached.charge with hkept | ⟨charge, hmark, saw, hset⟩
    · exact .inl hkept
    · exact .inr ⟨charge, onward.marks _ hmark, saw.rely onward.rely, hset⟩

section MatchItems

variable {opened : List SettlementBatch} {own : List ReconciliationItem}
  {error : Exception → List (Session system) → Shared system → Prop}

/-- A strategy only finds charges that are on file. -/
theorem MatchStrategy.wpr_matchLine {strategy : MatchStrategy} {item : ReconciliationItem}
    {ok : MatchOutcome → List (Session system) → Shared system → Prop}
    (appending : Appending D opened own top shared)
    (hok : ∀ shared' outcome, Progress D worker [] top shared top shared' →
      (∀ charge, outcome.charge = some charge →
        Saw D worker (fun db : Database => charge ∈ db.charges) shared') →
      ok outcome [top] shared') :
    wpr D worker (strategy.matchLine item) ok error [top] shared := by
  have hcharges (db : Database) :
      (applyAll top.writes db : Database).charges = db.charges :=
    appending.rows_eq .settlementCharge (by simp) (by simp) db
  have hfirst (query : List SettlementCharge → List SettlementCharge) (method : MatchMethod)
      (hsub : ∀ charges, ∀ charge ∈ query charges, charge ∈ charges) :
      wpr D worker (do
        let charge ← Async.first fun db => query db.charges
        pure (matched charge method true)) ok error [top] shared := by
    rw [wpr_bind]
    refine Async.wpr_first (fun shared₁ progress₁ _ => ?_) fun shared₁ row progress₁ hrow => ?_
    · exact hok shared₁ _ progress₁ (by simp [matched, noMatch])
    · refine hok shared₁ _ progress₁ fun charge hcharge => ?_
      obtain rfl : row = charge := by simpa [matched] using hcharge
      have hmem := hsub _ row hrow
      change row ∈ (applyAll top.writes shared₁.committed : Database).charges at hmem
      rw [hcharges] at hmem
      exact .now progress₁.good hmem
  have hnothing : ok noMatch [top] shared := hok shared _ appending.here (by simp [noMatch])
  cases strategy with
  | exactReference =>
      exact hfirst (SettlementChargeRepository.byProcessorReference _ _) _
        fun _ _ h => List.mem_of_mem_filter h
  | networkTransaction =>
      unfold matchLine matchNetworkTransaction SettlementChargeRepository.findByNetworkTransaction
      dsimp only
      split
      · exact hnothing
      · cases item.networkReference with
        | none =>
            exact hnothing
        | some reference =>
            exact hfirst (SettlementChargeRepository.byNetworkTransaction _ _) _
              fun _ _ h => List.mem_of_mem_filter h
  | heuristicAmountWindow =>
      unfold matchLine matchHeuristicAmountWindow SettlementChargeRepository.findInAmountWindow
      dsimp only
      cases item.merchantId with
      | none => exact hnothing
      | some merchantId =>
          dsimp only
          rw [wpr_bind]
          refine Async.wpr_now fun shared₁ progress₁ => ?_
          rw [wpr_bind]
          refine wpr_select (Y := system) fun shared₂ progress₂ => ?_
          split
          · next charge hsingle =>
              refine hok shared₂ _ (progress₁.trans progress₂) fun charge' hcharge => ?_
              obtain rfl : charge = charge' := by simpa [matched] using hcharge
              have hmem := List.mem_of_mem_take (hsingle ▸ List.mem_singleton.mpr rfl :
                charge ∈ SettlementChargeRepository.inAmountWindow _ _ _ _ _ _ _)
              rw [List.mem_insertionSort] at hmem
              have hmem := List.mem_of_mem_filter hmem
              change charge ∈ (applyAll top.writes shared₂.committed : Database).charges at hmem
              rw [hcharges] at hmem
              exact .now progress₂.good hmem
          · exact hok shared₂ _ (progress₁.trans progress₂) (by simp [noMatch])

theorem wpr_firstHit {item : ReconciliationItem} {strategies : List MatchStrategy}
    {ok : MatchOutcome → List (Session system) → Shared system → Prop}
    (appending : Appending D opened own top shared)
    (hok : ∀ shared' outcome, Progress D worker [] top shared top shared' →
      (∀ charge, outcome.charge = some charge →
        Saw D worker (fun db : Database => charge ∈ db.charges) shared') →
      ok outcome [top] shared') :
    wpr D worker (firstHit item strategies) ok error [top] shared := by
  induction strategies generalizing shared with
  | nil => exact hok shared _ appending.here (by simp [noMatch])
  | cons strategy strategies ih =>
      unfold firstHit
      rw [wpr_bind]
      refine MatchStrategy.wpr_matchLine appending fun shared₁ outcome progress₁ hfound => ?_
      split
      · exact hok shared₁ outcome progress₁ hfound
      · exact ih (appending.same progress₁) fun shared₂ outcome₂ progress₂ =>
          hok shared₂ outcome₂ (progress₁.trans progress₂)

theorem wpr_matchItem {item : ReconciliationItem} {strategies : List MatchStrategy}
    {before after : List ReconciliationItem}
    {ok : ReconciliationItem → List (Session system) → Shared system → Prop}
    (free : FreeMarks D) (appending : Appending D opened (before ++ item :: after) top shared)
    (hok : ∀ shared' top' result, Onward D worker [] top shared top' shared' →
      Appending D opened (before ++ result :: after) top' shared' →
      Attached D worker top' shared' item result → ok result [top'] shared') :
    wpr D worker (matchItem strategies item) ok error [top] shared := by
  have hseen {top₁ : Session system} {shared₁ : Shared system}
      (appending₁ : Appending D opened (before ++ item :: after) top₁ shared₁) :
      HasItem item.id item.batchId (top₁.view shared₁.committed) :=
    ⟨item, by simp [appending₁.view_items], rfl, rfl⟩
  unfold matchItem
  rw [wpr_bind]
  refine wpr_firstHit appending fun shared₁ outcome progress₁ hfound => ?_
  have appending₁ := appending.same progress₁
  cases hcharge : outcome.charge with
  | none =>
      dsimp only
      rw [wpr_bind]
      refine ReconciliationItem.wpr_flush progress₁.here (hseen appending₁)
        fun shared₂ top₂ writes progress₂ hwrites flush => ?_
      exact hok shared₂ top₂ _ (progress₁.trans progress₂).onward
        (appending₁.flush rfl progress₂ hwrites flush) ⟨rfl, .inl ⟨rfl, rfl⟩⟩
  | some charge =>
      dsimp only
      rw [wpr_bind]
      refine Async.wpr_mark free rfl progress₁.here fun shared₂ onward₂ => ?_
      rw [wpr_bind]
      refine Async.wpr_now fun shared₃ progress₃ => ?_
      have appending₃ := (appending₁.onward onward₂ rfl).same progress₃
      rw [wpr_bind]
      refine ReconciliationItem.wpr_flush progress₃.here (hseen appending₃)
        fun shared₄ top₄ writes progress₄ hwrites flush => ?_
      have onward₃ := onward₂.trans (progress₃.trans progress₄).onward
      refine hok shared₄ top₄ _ (progress₁.onward.trans onward₃)
        (appending₃.flush (applyMatch_line item charge outcome.method) progress₄ hwrites flush)
        ⟨applyMatch_line item charge outcome.method, .inr ⟨charge, ?_, ?_, ?_, ?_⟩⟩
      · rw [(progress₃.trans progress₄).marks]
        exact List.mem_append_right _ (List.mem_singleton.mpr rfl)
      · exact (hfound charge hcharge).rely onward₃.rely
      · exact applyMatch_chargeId item charge outcome.method
      · exact applyMatch_merchantId item charge outcome.method

/-- The walk attaches charges to the appended items, one after the other. -/
theorem wpr_matchItems {items : List ReconciliationItem} {strategies : List MatchStrategy}
    {before : List ReconciliationItem}
    {ok : List ReconciliationItem → List (Session system) → Shared system → Prop}
    (free : FreeMarks D) (appending : Appending D opened (before ++ items) top shared)
    (hok : ∀ shared' top' results, Onward D worker [] top shared top' shared' →
      Appending D opened (before ++ results) top' shared' →
      List.Forall₂ (Attached D worker top' shared') items results → ok results [top'] shared') :
    wpr D worker (matchItems strategies items) ok error [top] shared := by
  induction items generalizing before top shared ok with
  | nil => exact hok shared top [] appending.here.onward appending .nil
  | cons item items ih =>
      unfold matchItems
      rw [wpr_bind]
      refine wpr_matchItem free appending fun shared₁ top₁ result onward₁ appending₁ attached₁ => ?_
      rw [wpr_bind]
      have appending₁' : Appending D opened ((before ++ [result]) ++ items) top₁ shared₁ := by
        simpa using appending₁
      refine ih appending₁'
        fun shared₂ top₂ results onward₂ appending₂ attached₂ => ?_
      exact hok shared₂ top₂ _ (onward₁.trans onward₂) (by simpa using appending₂)
        (.cons (attached₁.onward onward₂) attached₂)

end MatchItems

end PayzenoLedger
