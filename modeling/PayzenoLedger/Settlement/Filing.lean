import PayzenoLedger.Settlement.ImportRuns

/-!
# One item for each line of a file

Calls of the file import, one after the other, each of which may stop anywhere.
The importer knows a line by its reference alone: it skips the references that
the batch has, and for a per-currency file those that other files around the
date have.  Where that tells the lines on file from those that are not, every
line of every imported file has exactly one item, and importing a file again
adds nothing and raises nothing.
-/

set_option autoImplicit false

namespace PayzenoLedger

open Library Write
open ReconciliationItemRepository (ofBatch acquirerReferencesForBatch)
open SettlementImportService (unfiled)

/-! ## Lines on file -/

/-- What makes a line of an acquirer the line that it is. -/
structure Filing where
  acquirer : String
  acquirerReference : String
  lineType : LineType
  grossMinor : Int
  feeMinor : Int
  interchangeMinor : Int
  schemeFeeMinor : Int
  netMinor : Int
  currency : String
deriving DecidableEq, Repr

def ReconciliationItem.filing (item : ReconciliationItem) : Filing where
  acquirer := item.acquirer
  acquirerReference := item.acquirerReference
  lineType := item.lineType
  grossMinor := item.grossMinor
  feeMinor := item.feeMinor
  interchangeMinor := item.interchangeMinor
  schemeFeeMinor := item.schemeFeeMinor
  netMinor := item.netMinor
  currency := item.currency

def ParsedSettlementLine.filing (line : ParsedSettlementLine) (acquirer : String) : Filing where
  acquirer := acquirer
  acquirerReference := line.acquirerReference
  lineType := line.lineType
  grossMinor := line.grossMinor
  feeMinor := line.feeMinor
  interchangeMinor := line.interchangeMinor
  schemeFeeMinor := line.schemeFeeMinor
  netMinor := line.netMinor
  currency := line.currency

/-- An item stands for the line. -/
def OnFile (acquirer : String) (items : List ReconciliationItem) (line : ParsedSettlementLine) :
    Prop :=
  line.filing acquirer ∈ items.map ReconciliationItem.filing

instance (acquirer : String) (items : List ReconciliationItem) (line : ParsedSettlementLine) :
    Decidable (OnFile acquirer items line) :=
  inferInstanceAs (Decidable (_ ∈ _))

/-- Exactly one item stands for the line. -/
def FiledOnce (acquirer : String) (items : List ReconciliationItem) (line : ParsedSettlementLine) :
    Prop :=
  (items.map ReconciliationItem.filing).count (line.filing acquirer) = 1

instance (acquirer : String) (items : List ReconciliationItem) (line : ParsedSettlementLine) :
    Decidable (FiledOnce acquirer items line) :=
  inferInstanceAs (Decidable (_ = _))

/-- Every line of these files has exactly one item. -/
def AllFiledOnce (files : List (String × List ParsedSettlementLine))
    (items : List ReconciliationItem) : Prop :=
  ∀ file ∈ files, ∀ line ∈ file.2, FiledOnce file.1 items line

instance (files : List (String × List ParsedSettlementLine)) (items : List ReconciliationItem) :
    Decidable (AllFiledOnce files items) :=
  inferInstanceAs (Decidable (∀ file ∈ files, ∀ line ∈ file.2, _))

theorem FiledOnce.onFile {acquirer : String} {items : List ReconciliationItem}
    {line : ParsedSettlementLine} (once : FiledOnce acquirer items line) :
    OnFile acquirer items line := by
  unfold FiledOnce at once
  refine List.count_pos_iff.mp ?_
  omega

theorem OnFile.mono {acquirer : String} {items more : List ReconciliationItem}
    {line : ParsedSettlementLine} (onFile : OnFile acquirer items line) :
    OnFile acquirer (items ++ more) line := by
  unfold OnFile
  rw [List.map_append]
  exact List.mem_append_left _ onFile

/-- The items of a database in order: no line has two, and each has its batch. -/
structure Filed (db : Database) : Prop where
  distinct : (db.items.map ReconciliationItem.filing).Nodup
  batches : ∀ item ∈ db.items, ∃ batch ∈ db.batches, batch.id = item.batchId

theorem Filed.once {db : Database} (filed : Filed db) {acquirer : String}
    {line : ParsedSettlementLine} (onFile : OnFile acquirer db.items line) :
    FiledOnce acquirer db.items line :=
  List.count_eq_one_of_mem filed.distinct onFile

/-! ## The condition -/

instance (acquirer fileReference : String) (batch : SettlementBatch) :
    Decidable (IsFile acquirer fileReference batch) :=
  inferInstanceAs (Decidable (_ ∧ _))

/-- The references that the batch of a file already holds, none before it is opened. -/
def referencesOfFile (acquirer fileReference : String) (db : Database) : List String :=
  (db.items.filter fun item => db.batches.any fun batch =>
    batch.id = item.batchId ∧ IsFile acquirer fileReference batch).map (·.acquirerReference)

/-- The references that an import of these lines skips. -/
def skippedReferences (acquirer : String) (processingDate : Date) (currency : Option String)
    (lines : List ParsedSettlementLine) (db : Database) : List String :=
  let existing := referencesOfFile acquirer (fileReferenceFor acquirer processingDate currency) db
  existing ++ filedElsewhere acquirer processingDate currency (unfiled existing lines) db

/-- The importer tells the lines on file from the others: behind a batch that is no
longer open there is nothing left to import; else the skipped references are those
of the lines on file, and the other lines have references of their own. -/
def Recognised (acquirer : String) (processingDate : Date) (currency : Option String)
    (lines : List ParsedSettlementLine) (db : Database) : Prop :=
  if ∃ batch ∈ db.batches,
      IsFile acquirer (fileReferenceFor acquirer processingDate currency) batch ∧
        batch.status ≠ .opened then
    ∀ line ∈ lines, OnFile acquirer db.items line
  else
    let skipped := skippedReferences acquirer processingDate currency lines db
    (∀ line ∈ lines, line.acquirerReference ∈ skipped ↔ OnFile acquirer db.items line) ∧
      ((unfiled skipped lines).map (·.acquirerReference)).Nodup

instance (acquirer : String) (processingDate : Date) (currency : Option String)
    (lines : List ParsedSettlementLine) (db : Database) :
    Decidable (Recognised acquirer processingDate currency lines db) := by
  unfold Recognised
  infer_instance

def Mark.mintedId : Mark → Option String
  | .minted id => some id
  | _ => none

/-- The identifiers that the transaction generated are new. -/
def FreshIds (marks : List Mark) (db : Database) : Prop :=
  (marks.filterMap Mark.mintedId).Nodup ∧ ∀ id ∈ marks.filterMap Mark.mintedId,
    (∀ batch ∈ db.batches, batch.id ≠ id) ∧ (∀ item ∈ db.items, item.id ≠ id) ∧
      ∀ event ∈ db.outbox, event.id ≠ id

instance (marks : List Mark) (db : Database) : Decidable (FreshIds marks db) :=
  inferInstanceAs (Decidable (_ ∧ _))

/-- The transactions of a file import, each with what is asked of its lines. -/
def SessionName.recognises : SessionName → Database → Prop
  | .importFind .., _ => True
  | .importItems acquirer processingDate currency lines, db =>
      Recognised acquirer processingDate currency lines db
  | .importClose _, _ => True
  | _, _ => False

instance (name : SessionName) (db : Database) : Decidable (name.recognises db) := by
  cases name <;> unfold SessionName.recognises <;> infer_instance

/-- The condition on the calls: the importer tells the lines apart, and no generated
identifier is taken. -/
def recognised : Condition system
  | _, top :: _, shared, .commit => top.name.recognises shared.committed
  | _, top :: _, shared, .rollback =>
      top.name.recognises shared.committed ∧ FreshIds top.marks shared.committed
  | _, _, _, _ => True

instance (worker : Nat) (stack : List (Session system)) (shared : Shared system)
    (move : Move system) : Decidable (recognised worker stack shared move) := by
  unfold recognised
  split <;> infer_instance

/-- The acquirer and the lines of every file that a transaction imported. -/
def filesImported (trace : List (Nat × Event system)) :
    List (String × List ParsedSettlementLine) :=
  trace.filterMap fun entry =>
    match entry.2 with
    | .committed (.importItems acquirer _ _ lines) _ => some (acquirer, lines)
    | _ => none

/-- One call of `import_file` about to begin. -/
def importCall (db : Database) (world : World) (acquirer : String) (processingDate : Date)
    (currency : Option String) : Config system (Except Exception Unit) :=
  Config.start db world (importWorkers [.importFile acquirer processingDate currency])

/-- The files that calls of `import_file`, one after the other, imported, and the
database that they left.  A call ends wherever it stops. -/
inductive ImportCalls (permits : Condition system) (db₀ : Database) :
    List (String × List ParsedSettlementLine) → Database → Prop
  | start : ImportCalls permits db₀ [] db₀
  | call {files : List (String × List ParsedSettlementLine)} {db : Database}
      (calls : ImportCalls permits db₀ files db) {world : World} {acquirer : String}
      {processingDate : Date} {currency : Option String}
      {config : Config system (Except Exception Unit)}
      (run : Config.Run permits (importCall db world acquirer processingDate currency) config) :
      ImportCalls permits db₀ (files ++ filesImported config.shared.trace)
        config.shared.committed

/-- All lines of the files are on file. -/
def AllOnFile (files : List (String × List ParsedSettlementLine))
    (items : List ReconciliationItem) : Prop :=
  ∀ file ∈ files, ∀ line ∈ file.2, OnFile file.1 items line

theorem AllOnFile.append {files more : List (String × List ParsedSettlementLine)}
    {items : List ReconciliationItem} :
    AllOnFile (files ++ more) items ↔ AllOnFile files items ∧ AllOnFile more items := by
  constructor
  · intro all
    exact ⟨fun file hfile => all file (List.mem_append_left _ hfile),
      fun file hfile => all file (List.mem_append_right _ hfile)⟩
  · rintro ⟨first, second⟩ file hfile
    exact (List.mem_append.mp hfile).elim (first file) (second file)

theorem AllOnFile.mono {files : List (String × List ParsedSettlementLine)}
    {items more : List ReconciliationItem} (all : AllOnFile files items) :
    AllOnFile files (items ++ more) :=
  fun file hfile line hline => (all file hfile line hline).mono

/-! ## The lines that an import appends -/

theorem mem_unfiled {references : List String} {lines : List ParsedSettlementLine}
    {line : ParsedSettlementLine} :
    line ∈ unfiled references lines ↔
      line ∈ lines ∧ line.acquirerReference ∉ references := by
  simp [unfiled]

theorem unfiled_append (first second : List String) (lines : List ParsedSettlementLine) :
    unfiled second (unfiled first lines) = unfiled (first ++ second) lines := by
  unfold unfiled
  rw [List.filter_filter]
  refine List.filter_congr fun line _ => ?_
  simp [Bool.and_comm]

section Planned

variable {acquirer currency : String} {processingDate : Date} {code : Option String}
  {batch : SettlementBatch} {db : Database}

/-- A batch that is not on file has no items. -/
theorem Filed.references_of_new (filed : Filed db)
    (hnew : ∀ other ∈ db.batches, other.id ≠ batch.id) :
    acquirerReferencesForBatch batch.id db = [] := by
  have hnone : ofBatch batch.id db.items = [] := by
    refine List.filter_eq_nil_iff.mpr fun item hitem => ?_
    obtain ⟨other, hother, hid⟩ := filed.batches item hitem
    have hne := hnew other hother
    rw [hid] at hne
    simpa using hne
  simp [acquirerReferencesForBatch, hnone]

theorem references_of_found {fileReference : String} (unique : Schema.Unique (S := schema) db)
    (hbatch : batch ∈ db.batches) (file : IsFile acquirer fileReference batch) :
    referencesOfFile acquirer fileReference db = acquirerReferencesForBatch batch.id db := by
  unfold referencesOfFile acquirerReferencesForBatch ofBatch
  congr 1
  refine List.filter_congr fun item _ => ?_
  rw [Bool.eq_iff_iff, List.any_eq_true, decide_eq_true_iff]
  constructor
  · rintro ⟨other, hother, hsame⟩
    obtain ⟨hid, hfile⟩ := of_decide_eq_true hsame
    have heq : other = batch := unique.eq_of_key Table.settlementBatch
      (.batchFile acquirer fileReference) hother hbatch (isFile_iff.mp hfile) (isFile_iff.mp file)
    rw [← hid, heq]
  · intro hid
    exact ⟨batch, hbatch, decide_eq_true ⟨hid.symm, file⟩⟩

theorem references_of_none {fileReference : String}
    (hnone : ∀ other ∈ db.batches, ¬ IsFile acquirer fileReference other) :
    referencesOfFile acquirer fileReference db = [] := by
  have hempty : (db.items.filter fun item => db.batches.any fun batch =>
      batch.id = item.batchId ∧ IsFile acquirer fileReference batch) = [] := by
    refine List.filter_eq_nil_iff.mpr fun item _ => ?_
    simp only [List.any_eq_true, decide_eq_true_eq, not_exists, not_and]
    exact fun other hother _ => hnone other hother
  rw [referencesOfFile, hempty, List.map_nil]

/-- A batch that has no items carries no references. -/
theorem Filed.filedElsewhere_opened (filed : Filed db) {opened : List SettlementBatch}
    (hnew : ∀ batch ∈ opened, ∀ other ∈ db.batches, other.id ≠ batch.id)
    (lines : List ParsedSettlementLine) :
    filedElsewhere acquirer processingDate code lines { db with batches := db.batches ++ opened } =
      filedElsewhere acquirer processingDate code lines db := by
  cases code with
  | none => rfl
  | some code =>
      unfold filedElsewhere ReconciliationItemRepository.acquirerReferencesAlreadyFiled
        ReconciliationItemRepository.acquirerReferencesFiled
      dsimp only
      split
      · rfl
      · congr 2
        refine List.filter_congr fun item hitem => ?_
        rw [List.any_append, Bool.or_eq_left_iff_imp]
        intro hany
        obtain ⟨batch, hbatch, hsame⟩ := List.any_eq_true.mp hany
        obtain ⟨other, hother, hid⟩ := filed.batches item hitem
        exact absurd (hid.trans (of_decide_eq_true hsame).1.symm) (hnew batch hbatch other hother)

end Planned

/-! ## One call -/

/-- What a call that began on this database has done so far. -/
structure CallKept (db : Database) (shared : Shared system) : Prop where
  filed : Filed shared.committed
  appended : ∃ own, shared.committed.items = db.items ++ own
  imported : AllOnFile (filesImported shared.trace) shared.committed.items
  again : AllOnFile (filesImported shared.trace) db.items → shared.committed.items = db.items

theorem filesImported_append (first second : List (Nat × Event system)) :
    filesImported (first ++ second) = filesImported first ++ filesImported second :=
  List.filterMap_append

/-- A step that leaves the items and the batches, and imports no file. -/
theorem CallKept.quiet {db : Database} {shared shared' : Shared system} (kept : CallKept db shared)
    (hitems : shared'.committed.items = shared.committed.items)
    (hbatches : shared'.committed.batches = shared.committed.batches)
    (hfiles : filesImported shared'.trace = filesImported shared.trace) : CallKept db shared' where
  filed := by
    obtain ⟨distinct, batches⟩ := kept.filed
    constructor
    · rwa [hitems]
    · rwa [hitems, hbatches]
  appended := by
    rw [hitems]
    exact kept.appended
  imported := by
    rw [hfiles, hitems]
    exact kept.imported
  again := by
    rw [hfiles, hitems]
    exact kept.again

/-- One call of the file import, run alone. -/
def callDiscipline (db : Database) : Discipline system where
  permits worker stack shared move := worker < 1 ∧ recognised worker stack shared move
  guarantee worker _ _ _ := worker = 0
  invariant := CallKept db
  required _ := none
  meaning _ _ := True
  meaning_extends _ _ _ _ _ := trivial
  drift_sound _ _ _ kept _ := kept.quiet rfl rfl rfl
  enter_sound worker _ _ _ kept permits := by
    refine ⟨by omega, kept.quiet rfl rfl ?_⟩
    exact (filesImported_append _ _).trans (List.append_nil _)
  rollback_sound worker _ _ _ kept permits := by
    refine ⟨by omega, kept.quiet rfl rfl ?_⟩
    exact (filesImported_append _ _).trans (List.append_nil _)
  crash_sound worker _ _ kept permits := by
    refine ⟨by omega, kept.quiet rfl rfl ?_⟩
    exact (filesImported_append _ _).trans (List.append_nil _)

section Alone

variable {db : Database} {top : Session system} {shared shared' : Shared system}

/-- Nobody else commits. -/
theorem committed_of_rely {held : Lock system → Prop}
    (rely : (callDiscipline db).Rely 0 held shared shared') :
    shared'.committed = shared.committed := by
  induction rely with
  | refl => rfl
  | tail _ step ih =>
      rcases step.cause with ⟨_, _, _, rfl⟩ | ⟨other, hne, _, _, hother, _⟩
      · exact ih
      · exact absurd hother hne

theorem saw_alone {fact : Database → Prop} (saw : Saw (callDiscipline db) 0 fact shared) :
    fact shared.committed := by
  obtain ⟨earlier, -, past, h⟩ := saw
  rwa [committed_of_rely past]

/-- The items that go in are those of the lines that are not skipped. -/
theorem Built.skips {acquirer code : String} {processingDate date : Date}
    {fileReference requested : String} {currency : Option String} {opened : List SettlementBatch}
    {batch : SettlementBatch} {items : List ReconciliationItem}
    {parsed : List ParsedSettlementLine} (good : (callDiscipline db).Good shared)
    (built : Built (callDiscipline db) 0 acquirer code processingDate fileReference opened batch
      items top.name shared)
    (hnew : ∀ batch ∈ opened, ∀ other ∈ shared.committed.batches, other.id ≠ batch.id)
    (hname : top.name = .importItems requested date currency parsed) :
    List.Forall₂ (OfLine batch)
      (unfiled (skippedReferences requested date currency parsed shared.committed) parsed) items ∧
      acquirerReferencesForBatch batch.id shared.committed =
        referencesOfFile requested (fileReferenceFor requested date currency) shared.committed ∧
      batch.acquirer = requested := by
  obtain ⟨rfl, rfl, lines, ⟨existing, filed, rfl, hexisting, hfiled⟩, ofLines⟩ :=
    built.planned requested date currency parsed hname
  have hexisting := saw_alone hexisting
  have hfiled := saw_alone hfiled
  have hreferences : acquirerReferencesForBatch batch.id shared.committed =
      referencesOfFile acquirer (fileReferenceFor acquirer date currency) shared.committed := by
    cases built.has with
    | found none saw file =>
        exact (references_of_found good.1 (saw_alone saw) file).symm
    | opened one new saw =>
        rw [references_of_none (saw_alone saw)]
        refine good.2.filed.references_of_new (hnew batch ?_)
        rw [one]
        exact List.mem_singleton.mpr rfl
  refine ⟨?_, hreferences, built.has.isFile.1⟩
  rw [good.2.filed.filedElsewhere_opened hnew] at hfiled
  rw [unfiled_append] at ofLines
  unfold skippedReferences
  dsimp only
  rw [← hreferences, ← hexisting, ← hfiled]
  exact ofLines

/-- An appended item is filed as its line. -/
theorem filing_of_lines {acquirer : String} {batch : SettlementBatch}
    {lines : List ParsedSettlementLine} {items own : List ReconciliationItem}
    (hacquirer : batch.acquirer = acquirer) (ofLines : List.Forall₂ (OfLine batch) lines items)
    (attached : List.Forall₂ (Attached (callDiscipline db) 0 top shared) items own) :
    own.map ReconciliationItem.filing = lines.map (·.filing acquirer) := by
  induction ofLines generalizing own with
  | nil =>
      cases attached
      rfl
  | @cons line item lines items ofLine _ ih =>
      cases attached with
      | @cons _ result _ own attached rest =>
          have hresult : result.filing = line.filing acquirer := by
            obtain ⟨stamp, createdAt, hitem⟩ := ofLine
            calc result.filing
                = result.line.filing := rfl
              _ = item.line.filing := by rw [attached.line]
              _ = (importedItem batch line none item.id stamp createdAt).filing := by
                rw [← hitem]; rfl
              _ = line.filing batch.acquirer := rfl
              _ = line.filing acquirer := by rw [hacquirer]
          rw [List.map_cons, List.map_cons, ih rest, hresult]

/-- Lines that the importer tells apart go in once each. -/
theorem Filed.append {acquirer : String} {skipped : List String}
    {items own : List ReconciliationItem}
    {parsed : List ParsedSettlementLine}
    (distinct : (items.map ReconciliationItem.filing).Nodup)
    (hown : own.map ReconciliationItem.filing = (unfiled skipped parsed).map (·.filing acquirer))
    (known : ∀ line ∈ parsed, line.acquirerReference ∈ skipped ↔ OnFile acquirer items line)
    (apart : ((unfiled skipped parsed).map (·.acquirerReference)).Nodup) :
    ((items ++ own).map ReconciliationItem.filing).Nodup ∧
      (∀ line ∈ parsed, OnFile acquirer (items ++ own) line) ∧
      ((∀ line ∈ parsed, OnFile acquirer items line) → own = []) := by
  refine ⟨?_, fun line hline => ?_, fun hall => ?_⟩
  · rw [List.map_append, hown]
    refine List.Nodup.append distinct ?_ ?_
    · refine List.Nodup.of_map (·.acquirerReference) ?_
      rw [List.map_map]
      exact apart
    · rw [List.disjoint_right]
      intro filing hfiling honFile
      obtain ⟨line, hline, rfl⟩ := List.mem_map.mp hfiling
      obtain ⟨hparsed, hnew⟩ := mem_unfiled.mp hline
      exact hnew ((known line hparsed).mpr honFile)
  · by_cases hskipped : line.acquirerReference ∈ skipped
    · exact ((known line hline).mp hskipped).mono
    · unfold OnFile
      rw [List.map_append, hown]
      refine List.mem_append_right _ (List.mem_map_of_mem ?_)
      exact mem_unfiled.mpr ⟨hline, hskipped⟩
  · have hnone : unfiled skipped parsed = [] := by
      refine List.eq_nil_iff_forall_not_mem.mpr fun line hline => ?_
      obtain ⟨hparsed, hnew⟩ := mem_unfiled.mp hline
      exact hnew ((known line hparsed).mpr (hall line hparsed))
    rw [hnone, List.map_nil] at hown
    exact List.map_eq_nil_iff.mp hown

/-- A commit that appends no item and renames no batch. -/
theorem CallKept.same (kept : CallKept db shared) (acquirer : String)
    (parsed : List ParsedSettlementLine)
    (hitems : shared'.committed.items = shared.committed.items)
    (hbatches : ∀ batch ∈ shared.committed.batches,
      ∃ batch' ∈ shared'.committed.batches, batch'.id = batch.id)
    (hfiles : filesImported shared'.trace = filesImported shared.trace ∨
      filesImported shared'.trace = filesImported shared.trace ++ [(acquirer, parsed)] ∧
        ∀ line ∈ parsed, OnFile acquirer shared.committed.items line) : CallKept db shared' where
  filed := by
    obtain ⟨distinct, batches⟩ := kept.filed
    constructor
    · rwa [hitems]
    · intro item hitem
      rw [hitems] at hitem
      obtain ⟨batch, hbatch, hid⟩ := batches item hitem
      obtain ⟨batch', hbatch', hid'⟩ := hbatches batch hbatch
      exact ⟨batch', hbatch', hid'.trans hid⟩
  appended := by
    rw [hitems]
    exact kept.appended
  imported := by
    rw [hitems]
    rcases hfiles with hsame | ⟨hmore, hlines⟩
    · rw [hsame]
      exact kept.imported
    · rw [hmore, AllOnFile.append]
      exact ⟨kept.imported, fun file hfile => by rwa [List.mem_singleton.mp hfile]⟩
  again := by
    rw [hitems]
    rcases hfiles with hsame | ⟨hmore, -⟩
    · rw [hsame]
      exact kept.again
    · rw [hmore, AllOnFile.append]
      exact fun all => kept.again all.1

/-- The batch of the import is on file once it commits. -/
theorem Built.batch_committed {acquirer code fileReference : String} {processingDate : Date}
    {opened : List SettlementBatch} {batch : SettlementBatch} {items own : List ReconciliationItem}
    {name : SessionName}
    (built : Built (callDiscipline db) 0 acquirer code processingDate fileReference opened batch
      items name shared)
    (appending : Appending (callDiscipline db) opened own top shared) :
    batch ∈ (shared.commit 0 top).committed.batches := by
  change batch ∈ (applyAll top.writes shared.committed : Database).batches
  rw [appending.batches]
  cases built.has with
  | found none saw file =>
      exact List.mem_append_left _ (saw_alone saw)
  | opened one new saw =>
      rw [one]
      exact List.mem_append_right _ (List.mem_singleton.mpr rfl)

/-- The file of a batch in hand has no batch that is closed. -/
theorem Built.none_closed {acquirer code fileReference : String} {processingDate : Date}
    {opened : List SettlementBatch} {batch : SettlementBatch} {items : List ReconciliationItem}
    {name : SessionName} (good : (callDiscipline db).Good shared)
    (built : Built (callDiscipline db) 0 acquirer code processingDate fileReference opened batch
      items name shared) :
    ¬ ∃ other ∈ shared.committed.batches,
      IsFile acquirer fileReference other ∧ other.status ≠ .opened := by
  rintro ⟨other, hother, file, hclosed⟩
  cases built.has with
  | found none saw hfile =>
      have heq : other = batch := good.1.eq_of_key Table.settlementBatch
        (.batchFile acquirer fileReference) hother (saw_alone saw) (isFile_iff.mp file)
        (isFile_iff.mp hfile)
      rw [heq] at hclosed
      exact hclosed built.isOpen
  | opened one new saw => exact saw_alone saw other hother file

theorem filesImported_commit (shared : Shared system) (worker : Nat) (top : Session system)
    (hname : ∀ acquirer date currency parsed,
      top.name ≠ .importItems acquirer date currency parsed) :
    filesImported (shared.commit worker top).trace = filesImported shared.trace := by
  refine (filesImported_append _ _).trans ?_
  have hnone : filesImported [(worker, .committed top.name top.writes)] = [] := by
    cases h : top.name with
    | importItems acquirer date currency parsed => exact absurd h (hname _ _ _ _)
    | _ => rfl
  rw [hnone, List.append_nil]

theorem filesImported_importItems (shared : Shared system) (worker : Nat) (top : Session system)
    {acquirer : String} {date : Date} {currency : Option String}
    {parsed : List ParsedSettlementLine}
    (hname : top.name = .importItems acquirer date currency parsed) :
    filesImported (shared.commit worker top).trace =
      filesImported shared.trace ++ [(acquirer, parsed)] := by
  refine (filesImported_append _ _).trans ?_
  rw [hname]
  rfl

theorem ImportCommit.kept (commit : ImportCommit (callDiscipline db) 0 top shared)
    (good : (callDiscipline db).Good shared) (recognises : top.name.recognises shared.committed) :
    CallKept db (shared.commit 0 top) := by
  cases commit with
  | reads writes stale =>
      have hsame : (shared.commit 0 top).committed = shared.committed := by
        change applyAll top.writes shared.committed = _
        rw [writes, applyAll_nil]
      by_cases hname : ∃ acquirer date currency parsed,
          top.name = .importItems acquirer date currency parsed
      · obtain ⟨acquirer, date, currency, parsed, hname⟩ := hname
        have hlines : ∀ line ∈ parsed, OnFile acquirer shared.committed.items line := by
          rw [hname] at recognises
          exact (if_pos (saw_alone (stale _ _ _ _ hname))).mp recognises
        exact good.2.same acquirer parsed (congrArg (·.items) hsame)
          (fun batch hbatch => ⟨batch, by rwa [hsame], rfl⟩)
          (.inr ⟨filesImported_importItems _ _ _ hname, hlines⟩)
      · simp only [not_exists] at hname
        exact good.2.same "" [] (congrArg (·.items) hsame)
          (fun batch hbatch => ⟨batch, by rwa [hsame], rfl⟩)
          (.inl (filesImported_commit _ _ _ hname))
  | appends acquirer code processingDate reference opened batch items own built appending
      attached =>
      rcases built.ofName with ⟨date, currency, parsed, hname⟩ | hname
      · obtain ⟨ofLines, -, hacquirer⟩ := built.skips good
          (fun _ hbatch _ hother => appending.opened_new hbatch hother) hname
        obtain ⟨-, hreference, -⟩ := built.planned acquirer date currency parsed hname
        rw [hname] at recognises
        subst hreference
        obtain ⟨known, apart⟩ := (if_neg (built.none_closed good)).mp recognises
        obtain ⟨distinct, hon, hnone⟩ := Filed.append good.2.filed.distinct
          (filing_of_lines hacquirer ofLines attached) known apart
        have hitems : (shared.commit 0 top).committed.items = shared.committed.items ++ own :=
          appending.view_items
        have hfiles := filesImported_importItems shared 0 top hname
        refine ⟨⟨?_, fun item hitem => ?_⟩, ?_, ?_, fun all => ?_⟩
        · rw [hitems]
          exact distinct
        · rw [hitems] at hitem
          rcases List.mem_append.mp hitem with hold | hnew
          · obtain ⟨other, hother, hid⟩ := good.2.filed.batches item hold
            refine ⟨other, ?_, hid⟩
            change other ∈ (applyAll top.writes shared.committed : Database).batches
            rw [appending.batches]
            exact List.mem_append_left _ hother
          · obtain ⟨built', hbuilt, attached⟩ := exists_left_of_forall₂ attached hnew
            obtain ⟨line, merchantId, nextAttemptAt, createdAt, heq⟩ := built.imported built' hbuilt
            refine ⟨batch, built.batch_committed appending, ?_⟩
            have hbatch : item.batchId = built'.batchId := congrArg (·.batchId) attached.line
            rw [hbatch, heq]
            rfl
        · obtain ⟨before, hbefore⟩ := good.2.appended
          exact ⟨before ++ own, by rw [hitems, hbefore, List.append_assoc]⟩
        · rw [hfiles, hitems, AllOnFile.append]
          exact ⟨good.2.imported.mono, fun file hfile => by rwa [List.mem_singleton.mp hfile]⟩
        · rw [hfiles, AllOnFile.append] at all
          have hbefore := good.2.again all.1
          rw [hitems, hbefore, hnone ?_, List.append_nil]
          intro line hline
          rw [hbefore]
          exact all.2 _ (List.mem_singleton.mpr rfl) line hline
      · rw [hname] at recognises
        cases recognises
  | closes loaded items stamp name isOpen saw counted marked rewrites tables =>
      have hbatches := rewrites shared.committed
      have hitems : (shared.commit 0 top).committed.items = shared.committed.items := by
        refine rows_applyAll_of_ne (S := schema) top.writes Table.reconciliationItem
          (fun write hwrite h => ?_) shared.committed
        rcases tables write hwrite with htable | htable <;> rw [htable] at h <;> cases h
      refine good.2.same "" [] hitems (fun batch hbatch => ?_)
        (.inl (filesImported_commit _ _ _ name))
      rw [show (shared.commit 0 top).committed.batches = _ from hbatches]
      refine ⟨_, List.mem_map_of_mem hbatch, ?_⟩
      split
      · rfl
      · rfl

theorem references_of_lines {batch : SettlementBatch} {lines : List ParsedSettlementLine}
    {items : List ReconciliationItem} (ofLines : List.Forall₂ (OfLine batch) lines items) :
    items.map (·.acquirerReference) = lines.map (·.acquirerReference) := by
  induction ofLines with
  | nil => rfl
  | @cons line item lines items ofLine _ ih =>
      obtain ⟨stamp, createdAt, hitem⟩ := ofLine
      have hreference : item.acquirerReference = line.acquirerReference := by
        rw [hitem]
        rfl
      rw [List.map_cons, List.map_cons, ih, hreference]

theorem mem_mintedIds {marks : List Mark} {id : String} :
    id ∈ marks.filterMap Mark.mintedId ↔ .minted id ∈ marks := by
  rw [List.mem_filterMap]
  constructor
  · rintro ⟨mark, hmark, hid⟩
    cases mark <;> cases hid
    exact hmark
  · intro hmark
    exact ⟨_, hmark, rfl⟩

/-- The batch of this id is still open. -/
def StillOpen (worker : Nat) (batchId : String) (shared : Shared system) : Prop :=
  worker = 0 → ∃ batch ∈ shared.committed.batches, batch.id = batchId ∧ batch.status = .opened

/-- No item that the importer appends is refused. -/
theorem Built.not_refused {acquirer code fileReference : String} {processingDate : Date}
    {opened : List SettlementBatch} {batch : SettlementBatch}
    {before after : List ReconciliationItem} {item other : ReconciliationItem}
    (good : (callDiscipline db).Good shared)
    (recognises : top.name.recognises shared.committed)
    (fresh : FreshIds top.marks shared.committed)
    (built : Built (callDiscipline db) 0 acquirer code processingDate fileReference opened batch
      (before ++ item :: after) top.name shared)
    (marks : top.marks = opened.map (fun batch => .minted batch.id) ++
      (before ++ item :: after).map (fun item => .minted item.id))
    (hother : other ∈ shared.committed.items ++ before) :
    other.id ≠ item.id ∧ ¬ (other.batchId = item.batchId ∧
      other.acquirerReference = item.acquirerReference) := by
  rcases built.ofName with ⟨date, currency, parsed, hname⟩ | hname
  swap
  · rw [hname] at recognises
    cases recognises
  have hnew : ∀ batch ∈ opened, ∀ other ∈ shared.committed.batches, other.id ≠ batch.id := by
    intro batch hbatch other hother
    refine (fresh.2 batch.id (mem_mintedIds.mpr ?_)).1 other hother
    rw [marks]
    exact List.mem_append_left _ (List.mem_map_of_mem hbatch)
  obtain ⟨ofLines, hreferences, -⟩ := built.skips good hnew hname
  obtain ⟨-, hreference, -⟩ := built.planned acquirer date currency parsed hname
  rw [hname] at recognises
  subst hreference
  obtain ⟨-, apart⟩ := (if_neg (built.none_closed good)).mp recognises
  rw [← references_of_lines ofLines, List.map_append, List.map_cons,
    List.nodup_append] at apart
  rcases List.mem_append.mp hother with hold | hbefore
  · constructor
    · refine (fresh.2 item.id (mem_mintedIds.mpr ?_)).2.1 other hold
      rw [marks]
      exact List.mem_append_right _ (List.mem_map_of_mem (by simp))
    · rintro ⟨hbatch, hsame⟩
      obtain ⟨line, hline, stamp, createdAt, hitem⟩ := exists_left_of_forall₂ ofLines
        (List.mem_append_right before List.mem_cons_self)
      refine (mem_unfiled.mp hline).2 (List.mem_append_left _ ?_)
      rw [← hreferences]
      refine List.mem_map.mpr ⟨other, List.mem_filter.mpr ⟨hold, ?_⟩, ?_⟩
      · rw [hbatch, hitem]
        exact decide_eq_true rfl
      · rw [hsame, hitem]
        rfl
  · constructor
    · have hnodup := fresh.1
      rw [marks, List.filterMap_append, List.nodup_append] at hnodup
      have hids := hnodup.2.1
      rw [List.map_append, List.map_cons, List.filterMap_append, List.nodup_append] at hids
      refine hids.2.2 other.id (mem_mintedIds.mpr ?_) item.id (mem_mintedIds.mpr ?_)
      · exact List.mem_map_of_mem (f := fun item : ReconciliationItem => Mark.minted item.id)
          hbefore
      · exact List.mem_cons_self
    · rintro ⟨-, hsame⟩
      exact apart.2.2 _ (List.mem_map_of_mem hbefore) _ List.mem_cons_self hsame

/-- No transaction of the call is rolled back. -/
theorem ImportFault.absurd (fault : ImportFault (callDiscipline db) StillOpen 0 top shared)
    (good : (callDiscipline db).Good shared) (recognises : top.name.recognises shared.committed)
    (fresh : FreshIds top.marks shared.committed) : False := by
  cases fault with
  | batchRefused acquirer fileReference refused =>
      obtain ⟨id, marks, saw, taken⟩ := refused
      obtain ⟨other, hother, hid | hfile⟩ := saw_alone taken
      · refine (fresh.2 id (mem_mintedIds.mpr ?_)).1 other hother hid
        rw [marks]
        exact List.mem_singleton.mpr rfl
      · exact saw_alone saw other hother hfile
  | itemRefused acquirer code processingDate fileReference opened batch before item after built
      marks taken =>
      obtain ⟨other, hother, htaken⟩ := saw_alone taken
      obtain ⟨hid, hreference⟩ := built.not_refused good recognises fresh marks hother
      exact htaken.elim hid hreference
  | noRecords acquirer fileReference name =>
      rw [name] at recognises
      cases recognises
  | closed batchId name ofName saw =>
      rcases ofName with hname | hname
      · obtain ⟨batch, hbatch, hid, hopen⟩ := name hname rfl
        exact saw_alone saw batch hbatch hid hopen
      · rw [hname] at recognises
        cases recognises
  | unannounced id marks taken =>
      obtain ⟨event, hevent, hid⟩ := saw_alone taken
      exact (fresh.2 id (mem_mintedIds.mpr marks)).2.2 event hevent hid

end Alone

/-- A file could not be fetched. -/
def FetchFailed (worker : Nat) (raised : Exception) (shared : Shared system) : Prop :=
  ∃ acquirer processingDate currency,
    (worker, Event.called (Y := system) (.fetchSettlementFile acquirer processingDate currency)
      (.error raised)) ∈ shared.trace

def callRules (db : Database) : ImportRules where
  discipline := callDiscipline db
  free _ _ := ⟨rfl, fun _ => trivial⟩
  Open := StillOpen
  Raised := FetchFailed
  opens worker top shared _ _ _ _ _ batch _ _ _ permits built appending := by
    obtain rfl : worker = 0 := Nat.lt_one_iff.mp permits.1
    exact fun _ => ⟨batch, built.batch_committed appending, rfl, built.isOpen⟩
  open_rely worker batchId shared shared' still rely hworker := by
    subst hworker
    rw [committed_of_rely rely]
    exact still rfl
  open_began _ _ _ _ still := still
  commit worker top shared good permits commit := by
    obtain rfl : worker = 0 := Nat.lt_one_iff.mp permits.1
    exact ⟨rfl, commit.kept good permits.2⟩
  rollback worker top shared raised good permits fault := by
    obtain rfl : worker = 0 := Nat.lt_one_iff.mp permits.1
    exact (fault.absurd good permits.2.1 permits.2.2).elim
  fetch worker shared acquirer processingDate currency reply good permits := by
    refine ⟨Nat.lt_one_iff.mp permits.1, good.2.quiet rfl rfl ?_, fun error hreply => ?_⟩
    · exact (filesImported_append _ _).trans (List.append_nil _)
    · subst hreply
      exact ⟨acquirer, processingDate, currency,
        List.mem_append_right _ (List.mem_singleton.mpr rfl)⟩

theorem importCall_run {db : Database} {world : World} {acquirer : String} {processingDate : Date}
    {currency : Option String} {config : Config system (Except Exception Unit)}
    (unique : Schema.Unique (S := schema) db) (filed : Filed db)
    (hrun : Config.Run recognised (importCall db world acquirer processingDate currency) config) :
    Sound (callDiscipline db)
      (fun worker result _ shared => ∀ raised, result = .error raised →
        FetchFailed worker raised shared) config := by
  have stable : StablePost (callDiscipline db)
      (fun worker (result : Except Exception Unit) _ shared => ∀ raised,
        result = .error raised → FetchFailed worker raised shared) := by
    intro worker result stack shared shared' _ rely h raised hraised
    obtain ⟨acquirer, date, currency, hcalled⟩ := h raised hraised
    exact ⟨acquirer, date, currency, rely.trace.subset hcalled⟩
  refine import_run (callRules db) stable (fun _ _ _ h => by cases h)
    (fun worker raised shared failed raised' h => by cases h; exact failed) unique
    ⟨filed, ⟨[], (List.append_nil _).symm⟩, fun file hfile => ?_, fun _ => rfl⟩ _ hrun.bounded.1
  cases hfile

/-- A worker ended with this error. -/
def Raised (config : Config system (Except Exception Unit)) (raised : Exception) : Prop :=
  ∃ stack, config.workers[0]? = some ⟨stack, .ret (.error raised)⟩

/-- A line of five euros of which the acquirer kept thirty cents. -/
def euroLine (acquirerReference : String) (lineType : LineType) : ParsedSettlementLine where
  acquirerReference := acquirerReference
  networkReference := none
  lineType := lineType
  grossMinor := 500
  feeMinor := 30
  interchangeMinor := 0
  schemeFeeMinor := 0
  netMinor := 470
  currency := "EUR"

/-- The import of a day's euros. -/
def euroCall (db : Database) (processingDate : Date) : Config system (Except Exception Unit) :=
  importCall db { clock := 10 } "northgate" processingDate (some "EUR")

/-- The choices of a call up to its items, in a batch of its own. -/
def openChoices (file : List ParsedSettlementLine) (batchId : String) : List Choice :=
  [.plain, .plain, .plain, .plain, .file file, .plain, .plain, .id batchId, .plain, .plain,
   .plain, .plain, .plain, .instant 3]

/-- The commit of what was added, and the close. -/
def closeChoices (eventId : String) : List Choice :=
  [.plain, .plain, .plain, .plain, .plain, .plain, .plain, .id eventId, .plain, .plain, .plain]

/-- The calls that two schedules make, one after the other. -/
theorem ImportCalls.twice {permits : Condition system}
    [∀ worker stack shared move, Decidable (permits worker stack shared move)] {db₀ : Database}
    {first second : Date} {choices choices' : List Choice} {β : Type}
    {result : Config system (Except Exception Unit) → Config system (Except Exception Unit) → β}
    {value : β}
    (h : ((euroCall db₀ first).schedule permits (advances 0 choices)).bind (fun config =>
      ((euroCall config.shared.committed second).schedule permits (advances 0 choices')).map
        (result config)) = some value) :
    ∃ config config', Config.Run permits (euroCall db₀ first) config ∧
      Config.Run permits (euroCall config.shared.committed second) config' ∧
      ImportCalls permits db₀
        (filesImported config.shared.trace ++ filesImported config'.shared.trace)
        config'.shared.committed ∧ result config config' = value := by
  obtain ⟨config, hconfig, hrest⟩ := Option.bind_eq_some_iff.mp h
  obtain ⟨config', hconfig', hvalue⟩ := Option.map_eq_some_iff.mp hrest
  have hrun := Config.run_of_schedule hconfig
  have hrun' := Config.run_of_schedule hconfig'
  exact ⟨config, config', hrun, hrun', .call (.call .start hrun) hrun', hvalue⟩

/-- Where the importer tells the lines apart by their references, calls of the import
leave one item for each line of each file, importing a file again adds nothing, and
a call only raises what the fetch of its file raised. -/
theorem lines_filed_once {db₀ db : Database} {files : List (String × List ParsedSettlementLine)}
    (unique : Schema.Unique (S := schema) db₀) (filed : Filed db₀)
    (calls : ImportCalls recognised db₀ files db) :
    AllFiledOnce files db.items ∧
      ∀ world acquirer processingDate currency config,
        Config.Run recognised (importCall db world acquirer processingDate currency) config →
        (AllFiledOnce (filesImported config.shared.trace) db.items →
            config.shared.committed.items = db.items) ∧
          ∀ raised, Raised config raised → FetchFailed 0 raised config.shared := by
  have hinvariant : Schema.Unique (S := schema) db ∧ Filed db ∧ AllOnFile files db.items := by
    induction calls with
    | start =>
        refine ⟨unique, filed, fun file hfile => ?_⟩
        cases hfile
    | call calls run ih =>
        obtain ⟨unique, filed, all⟩ := ih
        obtain ⟨hunique, kept⟩ := (importCall_run unique filed run).good
        obtain ⟨own, hown⟩ := kept.appended
        refine ⟨hunique, kept.filed, AllOnFile.append.mpr ⟨?_, kept.imported⟩⟩
        rw [hown]
        exact all.mono
  obtain ⟨unique, filed, all⟩ := hinvariant
  refine ⟨fun file hfile line hline => filed.once (all file hfile line hline),
    fun world acquirer date currency config hrun => ?_⟩
  have sound := importCall_run unique filed hrun
  constructor
  · intro once
    exact sound.good.2.again fun file hfile line hline => (once file hfile line hline).onFile
  · rintro raised ⟨stack, hworker⟩
    exact (sound.ready 0 _ hworker).program raised rfl

/-- A refund under the reference of its sale, in the file of the next day. -/
theorem lines_filed_once_refund :
    ∃ files db, ImportCalls anyMove {} files db ∧ ¬ AllFiledOnce files db.items := by
  have hschedule : ((euroCall {} 20000).schedule anyMove (advances 0
      (openChoices [euroLine "ref_1" .sale] "1" ++
        ([.id "2", .plain, .plain, .plain] : List Choice) ++ closeChoices "3"))).bind (fun config =>
      ((euroCall config.shared.committed 20001).schedule anyMove (advances 0
        (openChoices [euroLine "ref_1" .refund] "4" ++ closeChoices "5"))).map
        fun config' => decide (AllFiledOnce
          (filesImported config.shared.trace ++ filesImported config'.shared.trace)
          config'.shared.committed.items)) = some false := by
    decide +kernel
  obtain ⟨config, config', -, -, calls, hfiled⟩ := ImportCalls.twice hschedule
  exact ⟨_, _, calls, of_decide_eq_false hfiled⟩

/-- A call that stops between its two transactions, and the call that finishes it. -/
theorem lines_filed_once_resumed :
    ∃ files db, ImportCalls recognised {} files db ∧ files.map (·.2.length) = [2, 2] ∧
      AllFiledOnce files db.items := by
  have hschedule : ((euroCall {} 20000).schedule recognised (advances 0
      (openChoices [euroLine "ref_1" .sale, euroLine "ref_2" .refund] "1" ++
        ([.id "2", .plain, .id "3", .plain, .plain, .plain, .plain, .plain,
          .plain] : List Choice)))).bind (fun config =>
      ((euroCall config.shared.committed 20000).schedule recognised (advances 0
        (([.plain, .plain, .plain,
          .file [euroLine "ref_1" .sale, euroLine "ref_2" .refund], .plain, .plain, .plain,
          .plain, .instant 3] : List Choice) ++ closeChoices "4"))).map
        fun config' => (filesImported config.shared.trace ++
          filesImported config'.shared.trace).map (·.2.length)) = some [2, 2] := by
    decide +kernel
  obtain ⟨config, config', -, -, calls, hlengths⟩ := ImportCalls.twice hschedule
  refine ⟨_, _, calls, hlengths, ?_⟩
  have filed : Filed {} := ⟨.nil, by simp⟩
  exact (lines_filed_once
    (Schema.unique_of_pairwise fun table => by cases table <;> exact .nil) filed calls).1

end PayzenoLedger
