import PayzenoLedger.Settlement.Jobs

/-!
# Captures of cardholders

What the acquirer did to cardholders against what the ledger knows.  The key of
a capture names batch and charge, so the acquirer recognises a repeat from the
same batch only; the answer to a capture is not looked at; and no attempt is on
file before the request leaves.
-/

set_option autoImplicit false

namespace PayzenoLedger

open Library Write

/-! ## At most one capture of a charge -/

/-- The captures performed of a charge. -/
def capturesOf (chargeId : String) (world : World) : List PerformedCapture :=
  world.captures.filter fun capture => capture.chargeId = chargeId

/-- The item may come to be matched to the charge: it is, or an operator matches them. -/
def MayMatch (db : Database) (jobs : List SettlementJob) (itemId chargeId : String) : Prop :=
  (∃ item ∈ db.items, item.id = itemId ∧ item.chargeId = some chargeId) ∨
    .manualMatch itemId chargeId ∈ jobs

/-- A charge that waits for its capture, with lines in one batch only: whatever was captured of
it before, was under the key of that batch. -/
structure LinesOfOneBatch (db : Database) (world : World) (jobs : List SettlementJob)
    (charge : SettlementCharge) : Prop where
  waits : charge.needsDeferredCapture = true
  oneBatch : ∃ batchId,
    (∀ item ∈ db.items, MayMatch db jobs item.id charge.chargeId → item.batchId = batchId) ∧
    ∀ capture ∈ capturesOf charge.chargeId world,
      ledgerKey "capture" batchId charge.chargeId = .ok capture.idempotencyKey

/-- Every deferred charge that has a line has its lines in one batch. -/
def CapturesOfOneBatch (db : Database) (world : World) (jobs : List SettlementJob) : Prop :=
  ∀ charge ∈ db.charges, charge.captureAtSettlement = true →
    (∃ item ∈ db.items, MayMatch db jobs item.id charge.chargeId) →
    LinesOfOneBatch db world jobs charge

/-- A capture request adds at most one capture, under a key that is new. -/
theorem World.capture_captures (world : World) (chargeId key : String)
    (outcome : CaptureOutcome) :
    (world.capture chargeId key outcome).2.captures = world.captures ∨
      (∀ capture ∈ world.captures, capture.idempotencyKey ≠ key) ∧
        (world.capture chargeId key outcome).2.captures = world.captures ++ [⟨key, chargeId⟩] := by
  have hperform : (world.perform key chargeId).captures = world.captures ∨
      (∀ capture ∈ world.captures, capture.idempotencyKey ≠ key) ∧
        (world.perform key chargeId).captures = world.captures ++ [⟨key, chargeId⟩] := by
    unfold World.perform
    split
    · exact .inl rfl
    · next hnew => exact .inr ⟨by simpa using hnew, rfl⟩
  cases outcome with
  | captured reference => exact hperform
  | declined reference => exact .inl rfl
  | unavailable code => exact .inl rfl
  | refused code => exact .inl rfl
  | indeterminate code performed =>
      cases performed with
      | true => exact hperform
      | false => exact .inl rfl
  | raises error performed =>
      cases performed with
      | true => exact hperform
      | false => exact .inl rfl

/-- What a commit does to an item: it keeps its line, and its charge too unless an operator
matches it. -/
theorem ItemChange.row {settings : Settings} {know : Knowledge} {worker : Nat}
    {top : Session system} {rest : List (Session system)} {shared : Shared system}
    (change : ItemChange settings know top rest shared) {item : ReconciliationItem}
    (hitem : item ∈ (shared.commit worker top).committed.items) :
    ∃ row ∈ shared.committed.items, row.id = item.id ∧ row.batchId = item.batchId ∧
      (item.chargeId = row.chargeId ∨
        ∃ chargeId, item.chargeId = some chargeId ∧ know.Matches item.id chargeId) := by
  have hrewritten (id : String) (edit : ReconciliationItem → ReconciliationItem)
      (rewrites : Rewrites id edit top.writes) : ∃ row ∈ shared.committed.items,
      (if row.id = id then edit row else row) = item := by
    have hrows : (shared.commit worker top).committed.items =
      shared.committed.items.map fun row => if row.id = id then edit row else row :=
        rewrites shared.committed
    rw [hrows] at hitem
    exact List.mem_map.mp hitem
  cases change with
  | unchanged id same =>
      obtain ⟨row, hrow, rfl⟩ := hrewritten _ _ same
      exact ⟨row, hrow, by simp, by simp, .inl (by simp)⟩
  | guarded id batchId edit rewrites keeps matching =>
      obtain ⟨row, hrow, rfl⟩ := hrewritten _ _ rewrites
      refine ⟨row, hrow, ?_⟩
      split
      · exact ⟨(keeps row).1.symm, (keeps row).2.symm, .inl (matching row).1⟩
      · exact ⟨rfl, rfl, .inl rfl⟩
  | unlocked loaded status chargeId edit rewrites keeps _ _ _ _ sets matching =>
      obtain ⟨row, hrow, rfl⟩ := hrewritten _ _ rewrites
      refine ⟨row, hrow, ?_⟩
      split
      · next hid =>
          refine ⟨(keeps row).1.symm, (keeps row).2.symm, ?_⟩
          rcases matching with hkeeps | ⟨-, charge, -, -, hmatches, rfl, -⟩
          · exact .inl (hkeeps row).1
          · obtain ⟨-, hcharge, -⟩ := sets row
            rw [hcharge]
            unfold dirty
            split
            · exact .inl rfl
            · refine .inr ⟨charge.chargeId, rfl, ?_⟩
              rwa [(keeps row).1, hid]
      · exact ⟨rfl, rfl, .inl rfl⟩

/-- A capture that the settlement requests: of a waiting charge, for one of its lines. -/
structure RequestedFor (db : Database) (jobs : List SettlementJob) (capture : PerformedCapture) :
    Prop where
  charge : ∃ charge ∈ db.charges, charge.chargeId = capture.chargeId ∧
    charge.captureAtSettlement = true
  line : ∃ item ∈ db.items, MayMatch db jobs item.id capture.chargeId ∧
    ledgerKey "capture" item.batchId capture.chargeId = .ok capture.idempotencyKey

/-- From this database and world, each charge was captured once at most, for one of its lines. -/
structure CapturedOnce (db : Database) (world : World) (jobs : List SettlementJob)
    (shared : Shared system) : Prop where
  charges : shared.committed.charges = db.charges
  items : ∀ item ∈ shared.committed.items, ∃ row ∈ db.items, row.id = item.id ∧
    row.batchId = item.batchId
  matched : ∀ item ∈ shared.committed.items, ∀ chargeId, item.chargeId = some chargeId →
    MayMatch db jobs item.id chargeId
  performed : ∃ more, shared.world.captures = world.captures ++ more ∧
    ∀ capture ∈ more, RequestedFor db jobs capture
  once : ∀ chargeId, (capturesOf chargeId shared.world).length ≤ 1

section CapturedOnce

variable {db : Database} {world : World} {jobs : List SettlementJob}
  {shared shared' : Shared system}

theorem CapturedOnce.same (captured : CapturedOnce db world jobs shared)
    (hcommitted : shared'.committed = shared.committed)
    (hworld : shared'.world.captures = shared.world.captures) :
    CapturedOnce db world jobs shared' where
  charges := by rw [hcommitted, captured.charges]
  items := by rw [hcommitted]; exact captured.items
  matched := by rw [hcommitted]; exact captured.matched
  performed := by rw [hworld]; exact captured.performed
  once chargeId := by
    unfold capturesOf
    rw [hworld]
    exact captured.once chargeId

theorem CapturedOnce.commit {settings : Settings} {know : Knowledge} {worker : Nat}
    {top : Session system} {rest : List (Session system)}
    (captured : CapturedOnce db world jobs shared)
    (hmatches : ∀ itemId chargeId, know.Matches itemId chargeId → MayMatch db jobs itemId chargeId)
    (commit : SettlementCommit settings know worker top rest shared) :
    CapturedOnce db world jobs (shared.commit worker top) where
  charges := by
    have hcharges : (shared.commit worker top).committed.charges = shared.committed.charges :=
      commit.rows_eq Table.settlementCharge rfl
    rw [hcharges, captured.charges]
  items item hitem := by
    obtain ⟨row, hrow, hid, hbatch, -⟩ := commit.items.row hitem
    obtain ⟨first, hfirst, hid', hbatch'⟩ := captured.items row hrow
    exact ⟨first, hfirst, hid'.trans hid, hbatch'.trans hbatch⟩
  matched item hitem chargeId hcharge := by
    obtain ⟨row, hrow, hid, -, hsame | ⟨other, hother, hmatch⟩⟩ := commit.items.row hitem
    · rw [← hid]
      exact captured.matched row hrow chargeId (hsame.symm.trans hcharge)
    · rw [hother] at hcharge
      rw [← Option.some.inj hcharge]
      exact hmatches _ _ hmatch
  performed := captured.performed
  once := captured.once

/-- A capture for a line of the charge's one batch: a first one, or one that the acquirer
recognises. -/
theorem CapturedOnce.capture {charge : SettlementCharge} {item : ReconciliationItem}
    {key : String} {outcome : CaptureOutcome} (oneBatch : CapturesOfOneBatch db world jobs)
    (captured : CapturedOnce db world jobs shared)
    (has : HasItem item.id item.batchId shared.committed)
    (hmay : MayMatch db jobs item.id charge.chargeId) (hcharge : charge ∈ db.charges)
    (hdeferred : charge.captureAtSettlement = true)
    (hkey : ledgerKey "capture" item.batchId charge.chargeId = .ok key)
    (hcommitted : shared'.committed = shared.committed)
    (hworld : shared'.world = (shared.world.capture charge.chargeId key outcome).2) :
    CapturedOnce db world jobs shared' := by
  rcases shared.world.capture_captures charge.chargeId key outcome with h | ⟨hnew, hadded⟩
  · exact captured.same hcommitted (by rw [hworld, h])
  obtain ⟨row, hrow, hid, hbatch⟩ := has
  obtain ⟨first, hfirst, hid', hbatch'⟩ := captured.items row hrow
  rw [← hid, ← hid'] at hmay
  rw [← hbatch, ← hbatch'] at hkey
  obtain ⟨-, batchId, hlines, hearlier⟩ := oneBatch charge hcharge hdeferred ⟨first, hfirst, hmay⟩
  obtain ⟨more, hmore, hperformed⟩ := captured.performed
  -- Whatever was captured of the charge has the key of this capture, which is new.
  have hnone : capturesOf charge.chargeId shared.world = [] := by
    refine List.filter_eq_nil_iff.mpr fun capture hcapture hsame => ?_
    rw [decide_eq_true_eq] at hsame
    refine hnew capture hcapture ?_
    have hcaptured : ledgerKey "capture" batchId charge.chargeId = .ok capture.idempotencyKey := by
      rw [hmore] at hcapture
      rcases List.mem_append.mp hcapture with hold | hthis
      · exact hearlier capture (List.mem_filter.mpr ⟨hold, by simpa using hsame⟩)
      · obtain ⟨other, hother, hmatch, hother'⟩ := (hperformed capture hthis).line
        rw [hsame] at hmatch hother'
        rwa [hlines other hother hmatch] at hother'
    rw [hlines first hfirst hmay, hcaptured] at hkey
    exact Except.ok.inj hkey
  have hcaptures : shared'.world.captures = shared.world.captures ++ [⟨key, charge.chargeId⟩] := by
    rw [hworld, hadded]
  refine ⟨by rw [hcommitted, captured.charges], by rw [hcommitted]; exact captured.items,
    by rw [hcommitted]; exact captured.matched, ⟨more ++ [⟨key, charge.chargeId⟩], ?_, ?_⟩,
    fun other => ?_⟩
  · rw [hcaptures, hmore, List.append_assoc]
  · intro capture hcapture
    rcases List.mem_append.mp hcapture with hold | hlast
    · exact hperformed capture hold
    · rw [List.mem_singleton.mp hlast]
      exact ⟨⟨charge, hcharge, rfl, hdeferred⟩, first, hfirst, hmay, hkey⟩
  · unfold capturesOf
    rw [hcaptures, List.filter_append]
    by_cases hother : charge.chargeId = other
    · subst hother
      change (capturesOf charge.chargeId shared.world ++ _).length ≤ 1
      rw [hnone]
      simp
    · have hone := captured.once other
      unfold capturesOf at hone
      simpa [hother] using hone

end CapturedOnce

/-- The acquirer may have performed what it answered so, or what it answered in a way
that nobody can read. -/
def mayHaveCaptured : Except Exception CaptureResponse → Bool
  | .ok response => response.captured
  | .error (.ledger error) => error.cls.isInstance .processorIndeterminateError
  | .error _ => true

/-- The acquirer answered, and that it did not capture. -/
def declined : Except Exception CaptureResponse → Bool
  | .ok response => !response.captured
  | .error _ => false

/-- An attempt to capture for the item is on file and open. -/
def AttemptOnFile (itemId : String) (db : Database) : Prop :=
  ∃ attempt ∈ db.attempts, attempt.itemId = some itemId ∧ attempt.status.isOpen = true

instance (itemId : String) (db : Database) : Decidable (AttemptOnFile itemId db) := by
  unfold AttemptOnFile
  infer_instance

/-- The ledger knows of the capture for an item: it has the `settle` transaction,
or an open attempt. -/
def Covered (itemId : String) (db : Database) : Prop :=
  settlementsOf itemId db ≠ [] ∨ AttemptOnFile itemId db

instance (itemId : String) (db : Database) : Decidable (Covered itemId db) := by
  unfold Covered
  infer_instance

/-- What the worker's open transaction may have captured has been attempted on file. -/
def PendingOnFile (worker : Nat) (shared : Shared system) : Prop :=
  ∀ asked ∈ pendingCaptures worker shared, mayHaveCaptured asked.2 = true →
    AttemptOnFile asked.1 shared.committed

instance (worker : Nat) (shared : Shared system) : Decidable (PendingOnFile worker shared) := by
  unfold PendingOnFile
  infer_instance

/-- The condition that brings captures and ledger together: no capture is declined, and a
transaction that may have captured is not undone, unless its attempt is on file. -/
def capturesKept : Condition system
  | _, _, _, .call (.captureDeferred _ _ _ _ _ (some _)) reply _ => declined reply = false
  | worker, _, shared, .rollback => PendingOnFile worker shared
  | worker, _, shared, .crash => PendingOnFile worker shared
  | _, _, _, _ => True

instance (worker : Nat) (stack : List (Session system)) (shared : Shared system)
    (move : Move system) : Decidable (capturesKept worker stack shared move) :=
  match move with
  | .call (.captureDeferred _ _ _ _ _ (some _)) reply _ =>
      inferInstanceAs (Decidable (declined reply = false))
  | .rollback | .crash => inferInstanceAs (Decidable (PendingOnFile worker shared))
  | .call (.captureDeferred _ _ _ _ _ none) _ _ | .call (.confirmSettlement ..) _ _
  | .call (.captureStatus ..) _ _ | .call (.fxRates _) _ _ | .call (.fetchSettlementFile ..) _ _
  | .call (.increment ..) _ _ | .call (.countDuplicate ..) _ _
  | .enter _ | .commit => inferInstanceAs (Decidable True)

/-- Every transaction that committed had all its captures performed. -/
def CommittedAsCaptured (shared : Shared system) : Prop :=
  ∀ worker, ∀ entry ∈ (captureLog (shared.eventsOf worker)).committed,
    ∀ asked ∈ entry.2, ∃ reference, asked.2 = .ok ⟨true, reference⟩

/-- Whatever may have been captured in a transaction that has ended is covered. -/
def CapturesCovered (shared : Shared system) : Prop :=
  ∀ worker, ∀ asked ∈ (captureLog (shared.eventsOf worker)).ended,
    mayHaveCaptured asked.2 = true → Covered asked.1 shared.committed

/-- What is covered stays so. -/
theorem Covered.commit {settings : Settings}
    {know : Knowledge} {worker : Nat} {top : Session system}
    {rest : List (Session system)} {shared : Shared system} {itemId : String}
    (covered : Covered itemId shared.committed)
    (commit : SettlementCommit settings know worker top rest shared) :
    Covered itemId (shared.commit worker top).committed := by
  rcases covered with hsettled | hopen
  · obtain ⟨headers, hposts, -⟩ := commit.posts
    have hrows : (shared.commit worker top).committed.transactions =
        shared.committed.transactions ++ headers := hposts shared.committed
    refine .inl fun hnone => hsettled ?_
    rw [settlementsOf, hrows, List.filter_append, List.append_eq_nil_iff] at hnone
    exact hnone.1
  · have hattempts : (shared.commit worker top).committed.attempts =
        shared.committed.attempts := commit.rows_eq Table.captureAttempt rfl
    refine .inr ?_
    rw [AttemptOnFile, hattempts]
    exact hopen

/-- A transaction that settles the item leaves its settlement on file. -/
theorem SettleWritten.settlementsOf_ne {itemId : String} {writes : List (Write schema)}
    (written : SettleWritten itemId writes) (db : Database) :
    settlementsOf itemId (applyAll writes db) ≠ [] := by
  obtain ⟨header, hheader, hpurpose, htype, hid⟩ := written
  obtain ⟨row, hrow, hident⟩ := applyAll_inserted hheader db
  have hsame : { row with reversesTransactionId := none } =
      { header with reversesTransactionId := none } := hident
  have hrowPurpose : row.purpose = header.purpose := congrArg (·.purpose) hsame
  have hrowType : row.referenceType = header.referenceType := congrArg (·.referenceType) hsame
  have hrowId : row.referenceId = header.referenceId := congrArg (·.referenceId) hsame
  refine List.ne_nil_of_mem (List.mem_filter.mpr ⟨hrow, ?_⟩)
  simp [hrowPurpose, hrowType, hrowId, hpurpose, htype, hid]

/-- What holds at all times under the condition: no capture was declined, the committed
transactions had theirs performed, and what may have been captured is covered. -/
structure CapturesKept (shared : Shared system) : Prop where
  accepted : ∀ worker, ∀ asked ∈ pendingCaptures worker shared, declined asked.2 = false
  committed : CommittedAsCaptured shared
  covered : CapturesCovered shared

section CapturesKept

variable {author : Nat} {shared shared' : Shared system} {event : Event system}

/-- An event that neither asks for a capture nor ends a transaction. -/
theorem CapturesKept.idle (kept : CapturesKept shared)
    (htrace : shared'.trace = shared.trace ++ [(author, event)])
    (hcommitted : shared'.committed = shared.committed)
    (hevent : ∀ log : CaptureLog, log.step event = log) : CapturesKept shared' := by
  have hlog (worker : Nat) : captureLog (shared'.eventsOf worker) =
      captureLog (shared.eventsOf worker) := by
    rw [Shared.eventsOf_append htrace]
    split
    · rw [captureLog_append, hevent]
    · rw [List.append_nil]
  refine ⟨fun worker => ?_, fun worker => ?_, fun worker => ?_⟩
  · rw [pendingCaptures, hlog]
    exact kept.accepted worker
  · rw [hlog]
    exact kept.committed worker
  · rw [hlog, hcommitted]
    exact kept.covered worker

/-- A transaction is undone: its captures have been attempted on file. -/
theorem CapturesKept.undone (kept : CapturesKept shared)
    (htrace : shared'.trace = shared.trace ++ [(author, event)])
    (hcommitted : shared'.committed = shared.committed)
    (hevent : ∀ log : CaptureLog, log.step event = log.settle)
    (attempted : PendingOnFile author shared) : CapturesKept shared' := by
  refine ⟨fun worker => ?_, fun worker => ?_, fun worker => ?_⟩
  · rw [pendingCaptures, Shared.eventsOf_append htrace]
    split
    · rw [captureLog_append, hevent]
      simp [CaptureLog.settle]
    · rw [List.append_nil]
      exact kept.accepted worker
  · rw [Shared.eventsOf_append htrace]
    split
    · rw [captureLog_append, hevent]
      exact kept.committed worker
    · rw [List.append_nil]
      exact kept.committed worker
  · rw [Shared.eventsOf_append htrace, hcommitted]
    split
    · next hsame =>
        subst hsame
        rw [captureLog_append, hevent]
        intro asked hasked hmay
        rcases List.mem_append.mp hasked with hold | hpending
        · exact kept.covered author asked hold hmay
        · exact .inr (attempted asked hpending hmay)
    · rw [List.append_nil]
      exact kept.covered worker

/-- A capture that is not declined waits for its transaction to end. -/
theorem CapturesKept.capture {asked : String × Except Exception CaptureResponse}
    (kept : CapturesKept shared)
    (htrace : shared'.trace = shared.trace ++ [(author, event)])
    (hcommitted : shared'.committed = shared.committed)
    (hevent : ∀ log : CaptureLog, log.step event = { log with pending := log.pending ++ [asked] })
    (accepted : declined asked.2 = false) : CapturesKept shared' := by
  refine ⟨fun worker => ?_, fun worker => ?_, fun worker => ?_⟩
  · rw [pendingCaptures, Shared.eventsOf_append htrace]
    split
    · next hsame =>
        subst hsame
        rw [captureLog_append, hevent]
        intro other hother
        rcases List.mem_append.mp hother with hold | hlast
        · exact kept.accepted author other hold
        · rw [List.mem_singleton.mp hlast]
          exact accepted
    · rw [List.append_nil]
      exact kept.accepted worker
  · rw [Shared.eventsOf_append htrace]
    split
    · rw [captureLog_append, hevent]
      exact kept.committed worker
    · rw [List.append_nil]
      exact kept.committed worker
  · rw [Shared.eventsOf_append htrace, hcommitted]
    split
    · rw [captureLog_append, hevent]
      exact kept.covered worker
    · rw [List.append_nil]
      exact kept.covered worker

/-- A transaction commits: its captures were performed, and their items are settled. -/
theorem CapturesKept.commit {settings : Settings} {know : Knowledge} {top : Session system}
    {rest : List (Session system)} (kept : CapturesKept shared)
    (commit : SettlementCommit settings know author top rest shared) :
    CapturesKept (shared.commit author top) := by
  have htrace : (shared.commit author top).trace =
      shared.trace ++ [(author, .committed top.name top.writes)] := rfl
  refine ⟨fun worker => ?_, fun worker => ?_, fun worker => ?_⟩
  · rw [pendingCaptures, Shared.eventsOf_append htrace]
    split
    · rw [captureLog_append]
      simp [CaptureLog.step, CaptureLog.settle]
    · rw [List.append_nil]
      exact kept.accepted worker
  · rw [Shared.eventsOf_append htrace]
    split
    · next hsame =>
        subst hsame
        rw [captureLog_append]
        intro entry hentry asked hasked
        rcases List.mem_append.mp hentry with hold | hnew
        · exact kept.committed author entry hold asked hasked
        · rw [List.mem_singleton.mp hnew] at hasked
          obtain ⟨⟨performed, reference⟩, hanswer⟩ := (commit.answered asked hasked).1
          have hperformed := kept.accepted author asked hasked
          rw [hanswer] at hperformed
          simp only [declined, Bool.not_eq_false'] at hperformed
          exact ⟨reference, by rw [hanswer, hperformed]⟩
    · rw [List.append_nil]
      exact kept.committed worker
  · intro asked hasked hmay
    have hearlier (hold : asked ∈ (captureLog (shared.eventsOf worker)).ended) :
        Covered asked.1 (shared.commit author top).committed :=
      (kept.covered worker asked hold hmay).commit commit
    rw [Shared.eventsOf_append htrace] at hasked
    split at hasked
    · next hsame =>
        subst hsame
        rw [captureLog_append] at hasked
        rcases List.mem_append.mp hasked with hold | hpending
        · exact hearlier hold
        · exact .inl ((commit.answered asked hpending).2.settlementsOf_ne _)
    · rw [List.append_nil] at hasked
      exact hearlier hasked

end CapturesKept

def coverRules (settings : Settings) : SettlementRules settings where
  permits := capturesKept
  guarantee _ _ _ _ := True
  invariant := CapturesKept
  Claimed _ _ _ := True
  drift _ _ _ kept _ := ⟨kept.accepted, kept.committed, kept.covered⟩
  quiet worker stack shared event world quiet permitted _ kept := by
    refine ⟨trivial, ?_⟩
    cases event with
    | began name => exact kept.idle rfl rfl fun _ => rfl
    | committed name writes => cases quiet
    | rolledBack name => exact kept.undone rfl rfl (fun _ => rfl) permitted
    | crashed => exact kept.undone rfl rfl (fun _ => rfl) permitted
    | called request reply =>
        cases request with
        | captureDeferred => cases quiet
        | _ => exact kept.idle rfl rfl fun _ => rfl
  commit _ _ _ _ _ kept _ commit := ⟨trivial, kept.commit commit⟩
  capture _ _ _ _ _ _ _ _ _ _ kept _ _ _ _ _ _ := fun permits =>
    ⟨trivial, kept.capture rfl rfl (fun _ => rfl) permits⟩
  claimed _ _ _ _ := trivial
  claimed_stable _ _ _ _ _ _ _ _ h := h

/-- In a run that keeps the condition, every transaction that committed had its
captures performed, and whatever may have been captured is covered once its transaction ends. -/
theorem captures_agree (settings : Settings) {db : Database} {world : World}
    (unique : Schema.Unique (S := schema) db) (jobs : List SettlementJob)
    {config : Config system (Except Exception Unit)}
    (hrun : Config.Run capturesKept
      (Config.start db world (settlementWorkers settings jobs)) config) :
    CommittedAsCaptured config.shared ∧ CapturesCovered config.shared := by
  have hstart : CapturesKept ⟨db, world, []⟩ :=
    ⟨by simp [pendingCaptures, Shared.eventsOf, captureLog],
      by simp [CommittedAsCaptured, Shared.eventsOf, captureLog],
      by simp [CapturesCovered, Shared.eventsOf, captureLog]⟩
  have sound := settlement_run (coverRules settings) unique hstart
    (fun _ _ _ => trivial) hrun
  exact ⟨sound.good.2.committed, sound.good.2.covered⟩

/-- A declined capture settles its item all the same; and a capture without an
answer leaves, once its transaction rolled back, neither a settlement nor an
attempt. -/
theorem captures_disagree :
    (∃ config, Config.Run anyMove
        (sampleStart [sampleItem "ri_1" "sb_1"] true [.retry "ri_1"]) config ∧
      config.shared.committed.items.map (·.status) = [.settled] ∧
      ¬ CommittedAsCaptured config.shared) ∧
    ∃ config, Config.Run anyMove
        (sampleStart [sampleItem "ri_1" "sb_1"] true [.retry "ri_1"]) config ∧
      config.shared.committed.items.map (·.status) = [.failed] ∧
      (capturesOf "ch_1" config.shared.world).length = 1 ∧ ¬ CapturesCovered config.shared := by
  constructor
  · have hschedule : ((sampleStart [sampleItem "ri_1" "sb_1"] true
        [.retry "ri_1"]).schedule anyMove
          (advances 0 (settleChoices [.capture (.declined "no")]))).map
        (fun config => (config.shared.committed.items.map (·.status),
          (captureLog (config.shared.eventsOf 0)).committed.any fun entry =>
            entry.2.any fun asked => declined asked.2)) = some ([.settled], true) := by
      decide +kernel
    obtain ⟨config, hconfig, hend⟩ := Option.map_eq_some_iff.mp hschedule
    obtain ⟨hstatus, hdeclined⟩ := Prod.mk.inj hend
    obtain ⟨entry, hentry, hany⟩ := List.any_eq_true.mp hdeclined
    obtain ⟨asked, hasked, hno⟩ := List.any_eq_true.mp hany
    refine ⟨config, Config.run_of_schedule hconfig, hstatus, fun captured => ?_⟩
    obtain ⟨reference, hanswer⟩ := captured 0 entry hentry asked hasked
    rw [hanswer] at hno
    cases hno
  · have hschedule : ((sampleStart [sampleItem "ri_1" "sb_1"] true
        [.retry "ri_1"]).schedule anyMove
          (advances 0 (claimChoices ++ ([.plain] : List Choice) ++ postChoices ++
            (.capture (.indeterminate "timeout" true) :: plains 8)))).map
        (fun config => (config.shared.committed.items.map (·.status),
          (capturesOf "ch_1" config.shared.world).length,
          (captureLog (config.shared.eventsOf 0)).ended.any fun asked =>
            mayHaveCaptured asked.2 && !decide (Covered asked.1 config.shared.committed))) =
        some ([.failed], 1, true) := by
      decide +kernel
    obtain ⟨config, hconfig, hend⟩ := Option.map_eq_some_iff.mp hschedule
    obtain ⟨hstatus, hend⟩ := Prod.mk.inj hend
    obtain ⟨hlength, hcovered⟩ := Prod.mk.inj hend
    refine ⟨config, Config.run_of_schedule hconfig, hstatus, hlength, fun covered => ?_⟩
    obtain ⟨asked, hasked, hlost⟩ := List.any_eq_true.mp hcovered
    simp only [Bool.and_eq_true, Bool.not_eq_true', decide_eq_false_iff_not] at hlost
    exact hlost.2 (covered 0 asked hasked hlost.1)

/-- The attempt that the design wants on file before the capture leaves. -/
def sampleAttempt : CaptureAttempt where
  id := "cap_1"
  chargeId := "ch_1"
  itemId := some "ri_1"
  acquirer := "northgate"
  acquirerIdempotencyKey := "capture:sb_1:ch_1"
  amountMinor := 500
  currency := "EUR"
  status := .pending
  responseReference := none
  lastErrorCode := none
  requestedAt := 5
  completedAt := none

/-- A capture that was performed is settled; and one without an answer, whose transaction rolled
back, has its attempt on file. -/
theorem captures_agree_attempted :
    (∃ config, Config.Run capturesKept
        (sampleStart [sampleItem "ri_1" "sb_1"] true [.retry "ri_1"]) config ∧
      config.shared.committed.items.map (·.status) = [.settled] ∧
      (capturesOf "ch_1" config.shared.world).length = 1 ∧
      CommittedAsCaptured config.shared ∧ CapturesCovered config.shared) ∧
    ∃ config, Config.Run capturesKept
        (Config.start
          { sampleSettlement [sampleItem "ri_1" "sb_1"] true with attempts := [sampleAttempt] }
          { clock := 10 } (settlementWorkers sampleSettings [.retry "ri_1"])) config ∧
      config.shared.committed.items.map (·.status) = [.failed] ∧
      (capturesOf "ch_1" config.shared.world).length = 1 ∧
      CommittedAsCaptured config.shared ∧ CapturesCovered config.shared := by
  constructor
  · have hschedule : ((sampleStart [sampleItem "ri_1" "sb_1"] true [.retry "ri_1"]).schedule
        capturesKept (advances 0 (settleChoices [.capture (.captured "yes")]))).map
        (fun config => (config.shared.committed.items.map (·.status),
          (capturesOf "ch_1" config.shared.world).length)) = some ([.settled], 1) := by
      decide +kernel
    obtain ⟨config, hconfig, hend⟩ := Option.map_eq_some_iff.mp hschedule
    obtain ⟨hstatus, hlength⟩ := Prod.mk.inj hend
    have hrun := Config.run_of_schedule hconfig
    exact ⟨config, hrun, hstatus, hlength,
      captures_agree sampleSettings (unique_sampleSettlement (by simp)) _ hrun⟩
  · have hschedule : ((Config.start (Y := system)
        { sampleSettlement [sampleItem "ri_1" "sb_1"] true with attempts := [sampleAttempt] }
        ({ clock := 10 } : World) (settlementWorkers sampleSettings [.retry "ri_1"])).schedule
          capturesKept (advances 0 (claimChoices ++ ([.plain] : List Choice) ++ postChoices ++
            (.capture (.indeterminate "timeout" true) :: plains 8)))).map
        (fun config => (config.shared.committed.items.map (·.status),
          (capturesOf "ch_1" config.shared.world).length)) = some ([.failed], 1) := by
      decide +kernel
    obtain ⟨config, hconfig, hend⟩ := Option.map_eq_some_iff.mp hschedule
    obtain ⟨hstatus, hlength⟩ := Prod.mk.inj hend
    have hrun := Config.run_of_schedule hconfig
    refine ⟨config, hrun, hstatus, hlength, captures_agree sampleSettings ?_ _ hrun⟩
    refine Schema.unique_of_pairwise fun table => ?_
    cases table <;> simp [Table.rows, sampleSettlement]

end PayzenoLedger
