import PayzenoLedger.Settlement.ImportRuns

/-!
# The control totals of a closed batch

A close sums the items that it reads and freezes the sum; an append reads the
status of the batch and adds items.  Neither locks what it read, so the totals
are right as long as no append and no close commits between the other's read
and its commit.
-/

set_option autoImplicit false

namespace PayzenoLedger

open Library Write
open ReconciliationItemRepository (ofBatch totalsForBatch)

/-- Every batch that is closed or later has the count and the sum of its items. -/
def TotalsRight (db : Database) : Prop :=
  ∀ batch ∈ db.batches, batch.status ≠ .opened →
    batch.itemCount = (ofBatch batch.id db.items).length ∧
      batch.expectedTotalMinor = ((ofBatch batch.id db.items).map (·.netMinor)).sum

instance (db : Database) : Decidable (TotalsRight db) :=
  inferInstanceAs (Decidable (∀ batch ∈ db.batches, _))

/-! ## The condition -/

/-- The items that these totals were summed from are all items of the batch. -/
def Mark.countsAll (items : List ReconciliationItem) : Mark → Prop
  | .closing batchId counted => ∀ item ∈ ofBatch batchId items, item.id ∈ counted
  | _ => True

instance (items : List ReconciliationItem) (mark : Mark) : Decidable (mark.countsAll items) :=
  match mark with
  | .closing batchId _ => inferInstanceAs (Decidable (∀ item ∈ ofBatch batchId items, _))
  | .posting .. | .unlocked .. | .matching .. | .minted _ | .reconciling _ | .overran .. =>
      inferInstanceAs (Decidable True)

/-- The batches that the writes append to are still open. -/
def AppendsToOpen (writes : List (Write schema)) (db : Database) : Prop :=
  ∀ line ∈ added (S := schema) Table.reconciliationItem writes, ∀ batch ∈ db.batches,
    batch.id = ReconciliationItem.batchId line → batch.status = .opened

instance (writes : List (Write schema)) (db : Database) : Decidable (AppendsToOpen writes db) :=
  inferInstanceAs (Decidable (∀ line ∈ added (S := schema) Table.reconciliationItem writes, _))

/-- The condition on the commits of a run: what the transaction read of the batch
is still so. -/
def totalsUndisturbed : Condition system
  | _, top :: _, shared, .commit =>
      AppendsToOpen top.writes shared.committed ∧
        ∀ mark ∈ top.marks, mark.countsAll shared.committed.items
  | _, _, _, _ => True

instance (worker : Nat) (stack : List (Session system)) (shared : Shared system)
    (move : Move system) : Decidable (totalsUndisturbed worker stack shared move) :=
  match stack, move with
  | top :: _, .commit => inferInstanceAs (Decidable (AppendsToOpen top.writes shared.committed ∧ _))
  | [], _ | _ :: _, .enter _ | _ :: _, .rollback | _ :: _, .call .. | _ :: _, .crash =>
      inferInstanceAs (Decidable True)

theorem ofBatch_append (batchId : String) (first second : List ReconciliationItem) :
    ofBatch batchId (first ++ second) = ofBatch batchId first ++ ofBatch batchId second :=
  List.filter_append _ _

/-- The totals are those of the lines. -/
theorem totalsForBatch_line (batchId : String) (items : List ReconciliationItem) :
    totalsForBatch batchId (items.map ReconciliationItem.line) = totalsForBatch batchId items := by
  have hfilter : ofBatch batchId (items.map ReconciliationItem.line) =
      (ofBatch batchId items).map ReconciliationItem.line := by
    unfold ofBatch
    rw [List.filter_map]
    rfl
  unfold totalsForBatch
  rw [hfilter, List.length_map, List.map_map]
  rfl

theorem totalsForBatch_append {batchId : String} {own : List ReconciliationItem}
    (items : List ReconciliationItem)
    (hother : ∀ item ∈ own, item.batchId ≠ batchId) :
    totalsForBatch batchId (items ++ own) = totalsForBatch batchId items := by
  have hnone : ofBatch batchId own = [] := by
    refine List.filter_eq_nil_iff.mpr fun item hitem => ?_
    simpa using hother item hitem
  simp only [totalsForBatch, ofBatch_append, hnone, List.append_nil]

/-- Totals that were summed from all items of the batch are right. -/
theorem totals_of_counted {batchId : String} {items : List ReconciliationItem}
    {db before : Database} (unique : Schema.Unique (S := schema) db)
    (hitems : before.items = items) (grows : Schema.Extends (S := schema) before db)
    (counted : ∀ item ∈ ofBatch batchId db.items, item.id ∈ (ofBatch batchId items).map (·.id)) :
    totalsForBatch batchId items = totalsForBatch batchId db.items := by
  obtain ⟨lines, hlines⟩ := grows Table.reconciliationItem
  change before.items.map ReconciliationItem.line ++ lines =
    db.items.map ReconciliationItem.line at hlines
  rw [hitems] at hlines
  obtain ⟨old, new, hsplit, hold, hnew⟩ := List.map_eq_append_iff.mp hlines.symm
  have hnone : ∀ item ∈ new, item.batchId ≠ batchId := by
    intro item hitem hbatch
    have hof : item ∈ ofBatch batchId db.items := by
      refine List.mem_filter.mpr ⟨?_, by simpa using hbatch⟩
      rw [hsplit]
      exact List.mem_append_right _ hitem
    obtain ⟨counted, hcounted, hid⟩ := List.mem_map.mp (counted item hof)
    -- The counted one is an older row, which has the same identifier.
    have hmem : counted.line ∈ old.map ReconciliationItem.line := by
      rw [hold]
      exact List.mem_map_of_mem (List.mem_of_mem_filter hcounted)
    obtain ⟨other, hother, hline⟩ := List.mem_map.mp hmem
    have hsame : other.id = item.id := (congrArg (·.id) hline).trans hid
    refine unique.not_mem_of_append Table.reconciliationItem hsplit hother hitem (.item item.id)
      (by simp [Table.keys]) ?_
    simp [Table.keys, hsame]
  rw [hsplit, totalsForBatch_append _ hnone, ← totalsForBatch_line batchId items, ← hold,
    totalsForBatch_line]

/-! ## What a batch is while it is open -/

/-- A batch that is open now was so before, or is new. -/
def OpenKept (before after : Database) : Prop :=
  ∀ batch ∈ after.batches, batch.status = .opened →
    batch ∈ before.batches ∨ ∀ other ∈ before.batches, other.id ≠ batch.id

theorem OpenKept.refl (db : Database) : OpenKept db db :=
  fun _ hbatch _ => .inl hbatch

/-- The batch is on file, and as it was read as long as it is open. -/
def AsLoaded (loaded : SettlementBatch) (db : Database) : Prop :=
  (∃ batch ∈ db.batches, batch.id = loaded.id) ∧
    ∀ batch ∈ db.batches, batch.id = loaded.id → batch.status = .opened → batch = loaded

theorem AsLoaded.step {loaded : SettlementBatch} {db db' : Database}
    (asLoaded : AsLoaded loaded db) (kept : OpenKept db db')
    (grows : Schema.Extends (S := schema) db db') : AsLoaded loaded db' := by
  obtain ⟨⟨batch, hbatch, hid⟩, hsame⟩ := asLoaded
  constructor
  · obtain ⟨batch', hbatch', hident⟩ := grows.survives Table.settlementBatch hbatch
    have hfile : batch'.file = batch.file := hident
    exact ⟨batch', hbatch', (congrArg (·.id) hfile).trans hid⟩
  · intro batch' hbatch' hid' hopen
    rcases kept batch' hbatch' hopen with hold | hnew
    · exact hsame batch' hold hid' hopen
    · exact absurd (hid.trans hid'.symm) (hnew batch hbatch)

/-! ## One commit -/

section Commit

variable {D : Discipline system} {worker : Nat} {top : Session system} {shared : Shared system}

theorem Appending.added_eq {opened : List SettlementBatch} {own : List ReconciliationItem}
    (appending : Appending D opened own top shared) :
    added (S := schema) Table.reconciliationItem top.writes =
      own.map ReconciliationItem.line := by
  have hrows := identities_applyAll (S := schema) Table.reconciliationItem top.writes
    shared.committed
  have hitems : (applyAll top.writes shared.committed : Database).items =
      shared.committed.items ++ own := appending.view_items
  change (applyAll top.writes shared.committed : Database).items.map ReconciliationItem.line =
    shared.committed.items.map ReconciliationItem.line ++ _ at hrows
  rw [hitems, List.map_append] at hrows
  exact (List.append_cancel_left hrows).symm

theorem HasBatch.opened_isOpen {acquirer currency fileReference : String} {processingDate : Date}
    {opened : List SettlementBatch} {batch : SettlementBatch}
    (has : HasBatch D worker acquirer currency processingDate fileReference opened batch shared) :
    ∀ row ∈ opened, row.status = .opened := by
  cases has with
  | found none saw file => simp [none]
  | opened one new saw =>
      intro row hrow
      rw [one, List.mem_singleton] at hrow
      rw [hrow, new]
      rfl

/-- What a close writes to the row that it loaded. -/
theorem SettlementService.merge_closedWith {loaded : SettlementBatch} (totals : BatchTotals)
    (stamp : Instant) (hopen : loaded.status = .opened) (row : SettlementBatch) :
    let merged := SettlementBatch.merge loaded (closedWith loaded totals stamp) row
    merged.id = row.id ∧ merged.status = .closed ∧
      merged.itemCount = dirty loaded.itemCount totals.itemCount row.itemCount ∧
      merged.expectedTotalMinor =
        dirty loaded.expectedTotalMinor totals.netMinor row.expectedTotalMinor := by
  refine ⟨rfl, ?_, rfl, rfl⟩
  simp [SettlementBatch.merge, closedWith, dirty, hopen]

/-- Each commit of an import or a close, where the condition allows it. -/
theorem ImportCommit.totals (commit : ImportCommit D worker top shared)
    (good : D.Good shared) (right : TotalsRight shared.committed)
    (asLoaded : ∀ loaded : SettlementBatch, loaded.status = .opened →
      Saw D worker (fun db : Database => loaded ∈ db.batches) shared →
      AsLoaded loaded shared.committed)
    (hopen : AppendsToOpen top.writes shared.committed)
    (hcounts : ∀ mark ∈ top.marks, mark.countsAll shared.committed.items) :
    OpenKept shared.committed (shared.commit worker top).committed ∧
      TotalsRight (shared.commit worker top).committed := by
  cases commit with
  | reads writes stale =>
      have hsame : (shared.commit worker top).committed = shared.committed := by
        change applyAll top.writes shared.committed = _
        rw [writes, applyAll_nil]
      rw [hsame]
      exact ⟨.refl _, right⟩
  | appends acquirer currency date reference opened batch items own built appending attached =>
      have hbatches : (shared.commit worker top).committed.batches =
          shared.committed.batches ++ opened := appending.batches _
      have hitems : (shared.commit worker top).committed.items =
          shared.committed.items ++ own := appending.view_items
      constructor
      · intro row hrow _
        rw [hbatches] at hrow
        exact (List.mem_append.mp hrow).imp_right fun hnew other hother =>
          appending.opened_new hnew hother
      · intro row hrow hclosed
        rw [hbatches] at hrow
        rcases List.mem_append.mp hrow with hold | hnew
        · have hnone : ∀ item ∈ own, item.batchId ≠ row.id := by
            intro item hitem hbatch
            refine hclosed (hopen item.line ?_ row hold hbatch.symm)
            rw [appending.added_eq]
            exact List.mem_map_of_mem hitem
          have htotals := totalsForBatch_append shared.committed.items hnone
          rw [← hitems] at htotals
          obtain ⟨hcount, hsum⟩ := right row hold hclosed
          exact ⟨hcount.trans (congrArg (·.itemCount) htotals).symm,
            hsum.trans (congrArg (·.netMinor) htotals).symm⟩
        · exact absurd (built.has.opened_isOpen row hnew) hclosed
  | closes loaded items stamp name isOpen saw counted marked rewrites tables =>
      have hbatches := rewrites shared.committed
      have hitems : (shared.commit worker top).committed.items = shared.committed.items := by
        refine rows_applyAll_of_ne (S := schema) top.writes Table.reconciliationItem
          (fun write hwrite h => ?_) shared.committed
        rcases tables write hwrite with htable | htable <;> rw [htable] at h <;> cases h
      have htotals : totalsForBatch loaded.id items =
          totalsForBatch loaded.id shared.committed.items := by
        obtain ⟨before, -, grows, hbefore⟩ := counted.grown
        exact totals_of_counted good.1 hbefore grows (hcounts _ marked)
      have hmerge := SettlementService.merge_closedWith (totalsForBatch loaded.id items) stamp
        isOpen
      constructor
      · intro row hrow hstatus
        rw [show (shared.commit worker top).committed.batches = _ from hbatches] at hrow
        obtain ⟨old, hold, rfl⟩ := List.mem_map.mp hrow
        by_cases hid : old.id = loaded.id
        · rw [if_pos hid, (hmerge old).2.1] at hstatus
          cases hstatus
        · rw [if_neg hid]
          exact .inl hold
      · intro row hrow hclosed
        rw [show (shared.commit worker top).committed.batches = _ from hbatches] at hrow
        obtain ⟨old, hold, rfl⟩ := List.mem_map.mp hrow
        rw [hitems]
        by_cases hid : old.id = loaded.id
        · rw [if_pos hid]
          obtain ⟨hidMerged, -, hcount, hsum⟩ := hmerge old
          rw [hidMerged, hcount, hsum, htotals, hid]
          by_cases hopenNow : old.status = .opened
          · rw [(asLoaded loaded isOpen saw).2 old hold hid hopenNow, dirty_loaded, dirty_loaded]
            exact ⟨rfl, rfl⟩
          · -- Another close came first; its totals are right by the invariant.
            have hright := right old hold hopenNow
            rw [hid] at hright
            constructor
            · unfold dirty
              split
              · exact hright.1
              · rfl
            · unfold dirty
              split
              · exact hright.2
              · rfl
        · rw [if_neg hid] at hclosed ⊢
          exact right old hold hclosed

end Commit

/-! ## All steps -/

def totalsDiscipline : Discipline system where
  permits := totalsUndisturbed
  guarantee _ _ before after := OpenKept before.committed after.committed
  invariant shared := TotalsRight shared.committed
  required _ := none
  meaning _ _ := True
  meaning_extends _ _ _ _ _ := trivial
  drift_sound _ _ _ right _ := right
  enter_sound _ _ _ _ right _ := ⟨.refl _, right⟩
  rollback_sound _ _ _ _ right _ := ⟨.refl _, right⟩
  crash_sound _ _ _ right _ := ⟨.refl _, right⟩

theorem totals_asLoaded {worker : Nat} {shared : Shared system} {loaded : SettlementBatch}
    (saw : Saw totalsDiscipline worker (fun db : Database => loaded ∈ db.batches) shared) :
    AsLoaded loaded shared.committed := by
  obtain ⟨earlier, good, past, hloaded⟩ := saw
  refine past.preserves good (fun shared => AsLoaded loaded shared.committed)
    (fun before after _ step asLoaded => ?_) ⟨⟨loaded, hloaded, rfl⟩, fun batch hbatch hid _ => ?_⟩
  · refine asLoaded.step ?_ step.later.grows
    rcases step.cause with ⟨_, _, _, rfl⟩ | ⟨_, _, _, _, kept, _⟩
    · exact .refl _
    · exact kept
  · exact good.1.eq_of_key Table.settlementBatch (.batch loaded.id) hbatch hloaded
      (by simp [Table.keys, hid]) (by simp [Table.keys])

def totalsRules : ImportRules where
  discipline := totalsDiscipline
  free _ _ := ⟨rfl, fun _ => trivial⟩
  Open _ _ _ := True
  Raised _ _ _ := True
  opens _ _ _ _ _ _ _ _ _ _ _ _ _ _ _ := trivial
  open_rely _ _ _ _ _ _ := trivial
  open_began _ _ _ _ _ := trivial
  commit _ _ _ good permits commit :=
    commit.totals good good.2 (fun _ _ saw => totals_asLoaded saw) permits.1 permits.2
  rollback _ _ _ _ _ _ _ := trivial
  fetch _ _ _ _ _ _ good _ := ⟨.refl _, good.2, fun _ _ => trivial⟩

/-- A record of five euros of which the acquirer kept thirty cents. -/
def sampleRecord (acquirerReference : String) : LegacySettlementRecord where
  acquirerReference := acquirerReference
  networkReference := none
  lineType := .sale
  grossMinor := 500
  feeMinor := 30
  interchangeMinor := 0
  schemeFeeMinor := 0
  netMinor := 470
  currency := "EUR"
  merchantId := none

/-- Two pushes of one file and the close of its batch, about to begin on an empty
database. -/
def pushStart : Config system (Except Exception Unit) :=
  Config.start (Y := system) {} { clock := 10 } (importWorkers
    [.importLegacyRecords "northgate" 20000 "file_1" [sampleRecord "ref_1"],
     .importLegacyRecords "northgate" 20000 "file_1" [sampleRecord "ref_2"],
     .closeBatch "sb_1"])

/-- The push that opens the batch. -/
def openingChoices : List Choice :=
  [.plain, .plain, .id "1", .plain, .plain, .plain, .instant 3, .id "2", .plain, .plain, .plain,
   .plain, .plain]

/-- A push up to the items that it is going to add. -/
def readingChoices : List Choice :=
  [.plain, .plain, .plain, .instant 3]

/-- The rest of that push. -/
def addingChoices : List Choice :=
  [.id "4", .plain, .plain, .plain, .plain, .plain]

def closingChoices : List Choice :=
  [.plain, .plain, .plain, .plain, .plain, .plain, .id "3", .plain, .plain, .plain]

/-- In a run whose commits find the batch as they read it, the totals of the closed
batches are right in every state. -/
theorem closed_totals {db : Database} {world : World}
    (unique : Schema.Unique (S := schema) db) (right : TotalsRight db) (jobs : List ImportJob)
    {config : Config system (Except Exception Unit)}
    (hrun : Config.Run totalsUndisturbed (Config.start db world (importWorkers jobs)) config) :
    TotalsRight config.shared.committed :=
  have stable : StablePost totalsRules.discipline
      (fun _ (_ : Except Exception Unit) _ _ => True) := fun _ _ _ _ _ _ _ _ => trivial
  (import_run totalsRules stable (fun _ _ => trivial) (fun _ _ _ _ => trivial) unique right jobs
    hrun).good.2

/-- The close comes between the read of the second push and its commit. -/
theorem closed_totals_overtaken :
    ∃ config, Config.Run anyMove pushStart config ∧ ¬ TotalsRight config.shared.committed := by
  have hschedule : (pushStart.schedule anyMove
      (advances 0 openingChoices ++ (advances 1 readingChoices ++
        (advances 2 closingChoices ++ advances 1 addingChoices)))).map
        (fun config => decide (TotalsRight config.shared.committed)) = some false := by
    decide +kernel
  obtain ⟨config, hconfig, hright⟩ := Option.map_eq_some_iff.mp hschedule
  exact ⟨config, Config.run_of_schedule hconfig, of_decide_eq_false hright⟩

/-- The same jobs, with the second push done before the close. -/
theorem closed_totals_in_turn :
    ∃ config, Config.Run totalsUndisturbed pushStart config ∧
      config.shared.committed.batches.map (fun batch => (batch.status, batch.itemCount)) =
        [(.closed, 2)] ∧
      TotalsRight config.shared.committed := by
  have hschedule : (pushStart.schedule totalsUndisturbed
      (advances 0 openingChoices ++ (advances 1 (readingChoices ++ addingChoices) ++
        advances 2 closingChoices))).map
        (fun config => config.shared.committed.batches.map fun batch =>
          (batch.status, batch.itemCount)) = some [(.closed, 2)] := by
    decide +kernel
  obtain ⟨config, hconfig, hbatches⟩ := Option.map_eq_some_iff.mp hschedule
  have hrun := Config.run_of_schedule hconfig
  refine ⟨config, hrun, hbatches, ?_⟩
  exact closed_totals unique_empty (by decide) _ hrun

end PayzenoLedger
