import PayzenoLedger.Ledger.History
import PayzenoLedger.Services.Adjustments

/-!
# Four eyes on adjustments

Which requests get a record of their own, and which approvals post.  The
identifier of a request is cut from a key and contains the separator, so that no
posting key can be built of it.
-/

set_option autoImplicit false

namespace PayzenoLedger

open Library Write

/-! ## The law -/

/-- The worker's transaction recorded this request. -/
def Recorded (shared : Shared system) (worker : Nat) (record : LedgerAdjustmentRequest) : Prop :=
  ∃ name, Event.committed name (inserts .ledgerAdjustmentRequest [record]) ∈
    shared.eventsOf worker

/-- The worker began when this request was on record. -/
def BeganAfter (db : Database) (shared : Shared system) (worker : Nat)
    (record : LedgerAdjustmentRequest) : Prop :=
  ∃ before name after, shared.trace = before ++ (worker, .began name) :: after ∧
    record ∈ (replay (Y := system) db before).adjustments

/-- The worker's call came back, with a result or an error. -/
def Returned (config : Config system (Except Exception Unit)) (worker : Nat) : Prop :=
  ∃ stack result, config.workers[worker]? = some ⟨stack, .ret result⟩

/-- The adjustments posted for a request. -/
def adjustmentsOf (requestId : String) (db : Database) : List LedgerTransaction :=
  db.transactions.filter fun transaction =>
    transaction.referenceType = .ledgerAdjustmentRequest ∧ transaction.referenceId = requestId

/-- One posting carries out the request, with exactly its lines. -/
def PostedOnce (record : LedgerAdjustmentRequest) (db : Database) : Prop :=
  ∃ transaction, adjustmentsOf record.id db = [transaction] ∧
    linesOf transaction.id db = record.lines

/-- Four-eyes adjustments post exactly once: every balanced request gets a record
under an identifier of its own, an approval by another operator posts the lines of
the record, and nothing else posts them. -/
structure FourEyes (db : Database) (jobs : List AdjustmentJob)
    (config : Config system (Except Exception Unit)) : Prop where
  recorded : ∀ (worker : Nat) form, jobs[worker]? = some (.request form) →
    Balanced form.lines → Returned config worker →
    ∃ record, Recorded config.shared worker record ∧
      record = form.record record.id record.requestedAt ∧
      record ∈ config.shared.committed.adjustments.map LedgerAdjustmentRequest.requested ∧
      ∀ other record', Recorded config.shared other record' → record'.id = record.id →
        other = worker
  posted : ∀ (worker : Nat) requestId approvedBy,
    jobs[worker]? = some (.approve requestId approvedBy) → Returned config worker →
    ∀ record, BeganAfter db config.shared worker record → record.id = requestId →
      approvedBy ≠ record.requestedBy → PostedOnce record config.shared.committed
  unposted : ∀ record ∈ config.shared.committed.adjustments,
    (adjustmentsOf record.id config.shared.committed).length ≤ 1 ∧
      (adjustmentsOf record.id config.shared.committed ≠ [] →
        ∃ (worker : Nat) (approvedBy : String),
          jobs[worker]? = some (.approve record.id approvedBy) ∧
            approvedBy ≠ record.requestedBy)

/-- The requests and approvals that the service carries out as promised: the
identifier of a balanced request can be built and is taken by no other request, and
nobody but its requester approves a request on record. -/
structure Unobstructed (db : Database) (jobs : List AdjustmentJob)
    (config : Config system (Except Exception Unit)) : Prop where
  identified : ∀ (worker : Nat) form, jobs[worker]? = some (.request form) →
    Balanced form.lines → Returned config worker →
    ∃ key, form.key = .ok key ∧ ∀ other record, Recorded config.shared other record →
      record.id = cutKey key → other = worker
  unapproved : ∀ (worker : Nat) requestId approvedBy,
    jobs[worker]? = some (.approve requestId approvedBy) → Returned config worker →
    ∀ record, BeganAfter db config.shared worker record → record.id = requestId →
      approvedBy = record.requestedBy

/-! ## What the calls do -/

/-- Requests are recorded under their own identifiers and nothing is posted. -/
structure Recordings (db : Database) (jobs : List AdjustmentJob) (shared : Shared system) :
    Prop where
  transactions : shared.committed.transactions = db.transactions
  rows : ∀ record ∈ shared.committed.adjustments, ∃ worker, Recorded shared worker record
  kept : ∀ worker record, Recorded shared worker record →
    record ∈ shared.committed.adjustments
  formed : ∀ worker record, Recorded shared worker record → ∃ form key requestedAt,
    jobs[worker]? = some (.request form) ∧ form.key = .ok key ∧
      record = form.record (cutKey key) requestedAt
  distinct : ∀ worker record other record', Recorded shared worker record →
    Recorded shared other record' → record.id = record'.id → worker = other

theorem Recorded.mono {shared shared' : Shared system} {worker : Nat}
    {record : LedgerAdjustmentRequest} (recorded : Recorded shared worker record)
    (htrace : shared.trace <+: shared'.trace) : Recorded shared' worker record := by
  obtain ⟨name, hevent⟩ := recorded
  obtain ⟨events, htrace⟩ := htrace
  refine ⟨name, ?_⟩
  unfold Shared.eventsOf at hevent ⊢
  rw [← htrace, List.filter_append, List.map_append]
  exact List.mem_append_left _ hevent

/-- Opening, rolling back and crashing record nothing. -/
theorem Recordings.log {db : Database} {jobs : List AdjustmentJob} {shared : Shared system}
    (recordings : Recordings db jobs shared) (worker : Nat) {event : Event system}
    (hevent : ∀ name writes, event ≠ .committed name writes) :
    Recordings db jobs (shared.log worker event) := by
  have hrecorded (other : Nat) (record : LedgerAdjustmentRequest) :
      Recorded (shared.log worker event) other record ↔ Recorded shared other record := by
    unfold Recorded
    refine exists_congr fun name => ?_
    have htrace : (shared.log worker event).trace = shared.trace ++ [(worker, event)] := rfl
    rw [Shared.eventsOf_append htrace, List.mem_append]
    constructor
    · intro h
      rcases h with h | h
      · exact h
      · split at h
        · exact absurd (List.mem_singleton.mp h).symm (hevent _ _)
        · cases h
    · exact .inl
  constructor
  · exact recordings.transactions
  · intro record hrow
    obtain ⟨other, h⟩ := recordings.rows record hrow
    exact ⟨other, (hrecorded other record).mpr h⟩
  · intro other record h
    exact recordings.kept other record ((hrecorded other record).mp h)
  · intro other record h
    exact recordings.formed other record ((hrecorded other record).mp h)
  · intro first record second record' h h' hid
    exact recordings.distinct first record second record' ((hrecorded first record).mp h)
      ((hrecorded second record').mp h') hid

/-- The discipline of the adjustments: requests are recorded, nothing else. -/
def adjustmentDiscipline (db : Database) (jobs : List AdjustmentJob) : Discipline system where
  permits := anyMove
  guarantee _ _ _ _ := True
  invariant shared := Recordings db jobs shared
  required _ := none
  meaning _ _ := True
  meaning_extends _ _ _ _ h := h
  drift_sound _ _ _ recordings _ :=
    { transactions := recordings.transactions, rows := recordings.rows,
      kept := recordings.kept, formed := recordings.formed, distinct := recordings.distinct }
  enter_sound worker _ _ _ recordings _ :=
    ⟨trivial, recordings.log worker fun _ _ h => by cases h⟩
  rollback_sound worker _ _ _ recordings _ :=
    ⟨trivial, recordings.log worker fun _ _ h => by cases h⟩
  crash_sound worker _ _ recordings _ :=
    ⟨trivial, recordings.log worker fun _ _ h => by cases h⟩

/-- Why a request is not recorded. -/
def Turned (shared : Shared system) (worker : Nat) (form : AdjustmentForm) : Prop :=
  ¬ Balanced form.lines ∨ (∀ key, form.key ≠ .ok key) ∨
    ∃ key other record, form.key = .ok key ∧ Recorded shared other record ∧
      record.id = cutKey key ∧ other ≠ worker

/-- How a call ends. -/
def AdjustmentEnded (jobs : List AdjustmentJob) (worker : Nat) (result : Except Exception Unit)
    (_ : List (Session system)) (shared : Shared system) : Prop :=
  ∀ form, jobs[worker]? = some (.request form) →
    match result with
    | .ok _ => ∃ record, Recorded shared worker record
    | .error _ => Turned shared worker form

theorem Turned.mono {shared shared' : Shared system} {worker : Nat} {form : AdjustmentForm}
    (turned : Turned shared worker form) (htrace : shared.trace <+: shared'.trace) :
    Turned shared' worker form := by
  rcases turned with h | h | ⟨key, other, record, hkey, recorded, hid, hne⟩
  · exact .inl h
  · exact .inr (.inl h)
  · exact .inr (.inr ⟨key, other, record, hkey, recorded.mono htrace, hid, hne⟩)

theorem stable_adjustmentEnded (db : Database) (jobs : List AdjustmentJob) :
    StablePost (adjustmentDiscipline db jobs) (AdjustmentEnded jobs) := by
  intro worker result stack shared shared' _ rely h form hform
  have htrace := rely.trace
  specialize h form hform
  cases result with
  | ok value =>
      obtain ⟨record, recorded⟩ := h
      exact ⟨record, recorded.mono htrace⟩
  | error raised => exact h.mono htrace

section Calls

variable {db : Database} {jobs : List AdjustmentJob} {worker : Nat} {shared : Shared system}

/-- A transaction that records one request under an identifier that nobody holds. -/
theorem Recordings.commit {top : Session system} {form : AdjustmentForm} {key : String}
    {requestedAt : Instant} (recordings : Recordings db jobs shared)
    (hform : jobs[worker]? = some (.request form)) (hkey : form.key = .ok key)
    (hwrites : top.writes =
      inserts .ledgerAdjustmentRequest [form.record (cutKey key) requestedAt])
    (unique : Schema.Unique (S := schema) (top.view shared.committed))
    (hfresh : ∀ record, ¬ Recorded shared worker record) :
    Recordings db jobs (shared.commit worker top) := by
  have hcommitted : (shared.commit worker top).committed =
      { shared.committed with
        adjustments := shared.committed.adjustments ++
          [form.record (cutKey key) requestedAt] } := by
    change applyAll top.writes shared.committed = _
    rw [hwrites, applyAll_inserts]
    rfl
  have hrecorded (other : Nat) (record : LedgerAdjustmentRequest) :
      Recorded (shared.commit worker top) other record ↔ Recorded shared other record ∨
        (other = worker ∧ record = form.record (cutKey key) requestedAt) := by
    unfold Recorded
    have htrace : (shared.commit worker top).trace =
        shared.trace ++ [(worker, .committed top.name top.writes)] := rfl
    rw [Shared.eventsOf_append htrace]
    constructor
    · rintro ⟨name, hevent⟩
      rcases List.mem_append.mp hevent with hold | hnew
      · exact .inl ⟨name, hold⟩
      · split at hnew
        · next hsame =>
            right
            have hevents := List.mem_singleton.mp hnew
            simp only [Event.committed.injEq, hwrites, inserts, List.map_cons, List.map_nil,
              List.cons.injEq, Write.insert.injEq, heq_eq_eq, true_and, and_true] at hevents
            exact ⟨hsame.symm, hevents.2⟩
        · cases hnew
    · rintro (⟨name, hold⟩ | ⟨rfl, rfl⟩)
      · exact ⟨name, List.mem_append_left _ hold⟩
      · refine ⟨top.name, List.mem_append_right _ ?_⟩
        rw [if_pos rfl, hwrites]
        exact List.mem_singleton_self _
  have hnew (record : LedgerAdjustmentRequest)
      (hrow : record ∈ shared.committed.adjustments) : record.id ≠ cutKey key := by
    intro hid
    have hview : Schema.Unique (S := schema) (shared.commit worker top).committed := unique
    rw [hcommitted] at hview
    refine hview.not_mem_of_append Table.ledgerAdjustmentRequest rfl hrow
      List.mem_cons_self (.adjustment (cutKey key)) (List.mem_singleton_self _) ?_
    rw [← hid]
    exact List.mem_singleton_self _
  constructor
  · rw [hcommitted]
    exact recordings.transactions
  · intro record hrow
    rw [hcommitted] at hrow
    rcases List.mem_append.mp hrow with hold | hlast
    · obtain ⟨other, h⟩ := recordings.rows record hold
      exact ⟨other, (hrecorded other record).mpr (.inl h)⟩
    · exact ⟨worker, (hrecorded worker record).mpr (.inr ⟨rfl, List.mem_singleton.mp hlast⟩)⟩
  · intro other record h
    rw [hcommitted]
    rcases (hrecorded other record).mp h with hold | ⟨-, rfl⟩
    · exact List.mem_append_left _ (recordings.kept other record hold)
    · exact List.mem_append_right _ (List.mem_singleton_self _)
  · intro other record h
    rcases (hrecorded other record).mp h with hold | ⟨rfl, rfl⟩
    · exact recordings.formed other record hold
    · exact ⟨form, key, requestedAt, hform, hkey, rfl⟩
  · intro first record second record' h h' hid
    rcases (hrecorded first record).mp h with hold | ⟨rfl, rfl⟩ <;>
      rcases (hrecorded second record').mp h' with hold' | ⟨rfl, rfl⟩
    · exact recordings.distinct first record second record' hold hold' hid
    · exact absurd hid (hnew record (recordings.kept first record hold))
    · exact absurd hid.symm (hnew record' (recordings.kept second record' hold'))
    · rfl

/-- A request is recorded, or something about it is refused. -/
theorem AdjustmentService.wpr_request {name : SessionName} {form : AdjustmentForm}
    (good : (adjustmentDiscipline db jobs).Good shared)
    (hfresh : ∀ record, ¬ Recorded shared worker record) :
    wpr (adjustmentDiscipline db jobs) worker (request form)
      (fun _ stack later => ∃ top key requestedAt, stack = [top] ∧
        form.key = .ok key ∧ top.writes =
          inserts .ledgerAdjustmentRequest [form.record (cutKey key) requestedAt] ∧
        Progress (adjustmentDiscipline db jobs) worker [] (Session.fresh name) shared top later)
      (fun _ stack later => ∃ top, stack = [top] ∧ Turned later worker form ∧
        Progress (adjustmentDiscipline db jobs) worker [] (Session.fresh name) shared top later)
      [Session.fresh name] shared := by
  have start : Progress (adjustmentDiscipline db jobs) worker [] (Session.fresh name) shared
      (Session.fresh name) shared := Progress.start good
  unfold request
  split
  · next hempty =>
      refine ⟨_, rfl, .inl fun balanced => ?_, start⟩
      have htwo := balanced.two
      simp [hempty] at htwo
  · split
    · next hreason =>
        refine ⟨_, rfl, .inr (.inl fun key hkey => ?_), start⟩
        obtain ⟨message, herror⟩ : ∃ message, form.key = .error (.valueError message) := by
          unfold AdjustmentForm.key ledgerKey
          rw [hreason]
          cases hby : requireComponent "lar" "scope" form.requestedBy with
          | error raised =>
              obtain ⟨message, rfl⟩ := requireComponent_error hby
              exact ⟨message, rfl⟩
          | ok _ => exact ⟨_, rfl⟩
        rw [herror] at hkey
        cases hkey
    · rw [wpr_bind]
      refine Async.wpr_check (fun key hkey => ?_) fun raised hraised => ?_
      · rw [wpr_bind]
        refine Async.wpr_now fun shared₁ progress₁ => ?_
        rw [wpr_bind]
        refine Async.wpr_add (fun shared₂ _ _ progress₂ => ?_)
          fun shared₂ progress₂ htaken => ?_
        · exact ⟨_, key, _, rfl, hkey, rfl, progress₁.trans progress₂⟩
        · have progress := progress₁.trans progress₂
          refine ⟨_, rfl, .inr (.inr ?_), progress⟩
          obtain ⟨taken, htaken, hheld⟩ := htaken
          obtain ⟨record, hrecord⟩ := List.exists_mem_of_ne_nil _ hheld
          obtain ⟨hrow, hid⟩ := Schema.mem_holders.mp hrecord
          obtain ⟨other, recorded⟩ := progress.good.2.rows record hrow
          refine ⟨key, other, record, hkey, recorded, ?_, ?_⟩
          · simp only [Table.keys, List.mem_singleton] at htaken hid
            rw [htaken] at hid
            exact (Key.adjustment.inj hid).symm
          · rintro rfl
            obtain ⟨event, hevent⟩ := recorded
            rw [progress.rely.events] at hevent
            exact hfresh record ⟨event, hevent⟩
      · refine ⟨_, rfl, .inr (.inl fun key hkey => ?_), start⟩
        rw [hraised] at hkey
        cases hkey

/-- No approval of a request on record gets as far as the poster. -/
theorem AdjustmentService.wpr_approve {settings : Settings} {name : SessionName}
    {requestId approvedBy : String} :
    wpr (adjustmentDiscipline db jobs) worker (approve settings requestId approvedBy)
      (fun _ _ _ => False) (fun _ stack _ => ∃ top, stack = [top]) [Session.fresh name]
      shared := by
  unfold approve
  rw [wpr_bind]
  refine Async.wpr_get (fun shared₁ record progress₁ hrecord => ?_) fun _ _ _ => ⟨_, rfl⟩
  obtain ⟨hrow, -⟩ := Schema.mem_holders.mp hrecord
  obtain ⟨other, recorded⟩ := progress₁.good.2.rows record hrow
  obtain ⟨form, key, requestedAt, -, hkey, rfl⟩ := progress₁.good.2.formed other record recorded
  have hseparator : hasSeparator (form.record (cutKey key) requestedAt).id = true :=
    hasSeparator_cutKey hkey (by decide)
  dsimp only
  split
  · exact ⟨_, rfl⟩
  · split
    · exact ⟨_, rfl⟩
    · rw [wpr_bind]
      refine Async.wpr_check (fun posted hposted => ?_) fun _ _ => ⟨_, rfl⟩
      obtain ⟨message, herror⟩ := ledgerKey_separator "adjustment" _
        (form.record (cutKey key) requestedAt).reasonCode (.inl hseparator)
      rw [herror] at hposted
      cases hposted

theorem AdjustmentJob.wp_run {settings : Settings} {job : AdjustmentJob}
    (hjob : jobs[worker]? = some job) (hfresh : shared.eventsOf worker = []) :
    wp (adjustmentDiscipline db jobs) worker (job.run settings).run
      (AdjustmentEnded jobs worker) [] shared := by
  have hnone {shared' : Shared system} {name : SessionName}
      (hevents : shared'.eventsOf worker = []) (record : LedgerAdjustmentRequest) :
      ¬ Recorded (shared'.log worker (.began name)) worker record := by
    rintro ⟨other, hevent⟩
    rw [Shared.eventsOf_log, hevents] at hevent
    simp at hevent
  have hending : wpr (adjustmentDiscipline db jobs) worker (job.run settings)
      (fun value => AdjustmentEnded jobs worker (.ok value))
      (fun raised => AdjustmentEnded jobs worker (.error raised)) [] shared := by
    cases job with
    | request form =>
        have hsame {form' : AdjustmentForm} (h : jobs[worker]? = some (.request form')) :
            form = form' := AdjustmentJob.request.inj (Option.some.inj (hjob.symm.trans h))
        simp only [AdjustmentJob.run]
        split
        · next hempty =>
            intro form' hform'
            obtain rfl := hsame hform'
            refine .inl fun balanced => ?_
            have htwo := balanced.two
            simp [hempty] at htwo
        · rw [wpr_bind]
          refine wpr_withSession fun shared₁ rely₁ _ _ good₁ => ?_
          have hevents : shared₁.eventsOf worker = [] := rely₁.events.trans hfresh
          refine wpr_mono (AdjustmentService.wpr_request good₁ (hnone hevents)) ?_ ?_
          · rintro _ _ shared₂ ⟨top, key, requestedAt, rfl, hkey, hwrites, progress⟩
            refine ⟨top, rfl, fun shared₃ rely₃ good₃ foot₃ _ => ⟨trivial, ?_, ?_⟩⟩
            · refine good₃.2.commit hjob hkey hwrites
                (foot₃.unique _ (Schema.Agree.refl _ _) good₃.1) fun record => ?_
              rintro ⟨other, hevent⟩
              rw [rely₃.events, progress.rely.events] at hevent
              exact hnone hevents record ⟨other, hevent⟩
            · change AdjustmentEnded jobs worker (.ok ()) [] _
              intro form' hform'
              refine ⟨form.record (cutKey key) requestedAt, top.name, ?_⟩
              rw [Shared.eventsOf_commit, hwrites]
              exact List.mem_append_right _ (List.mem_singleton_self _)
          · rintro raised _ shared₂ ⟨top, rfl, turned, progress⟩
            refine ⟨top, rfl, fun shared₃ rely₃ _ _ form' hform' => ?_⟩
            obtain rfl := hsame hform'
            exact turned.mono (rely₃.trace.trans (List.prefix_append _ _))
    | approve requestId approvedBy =>
        simp only [AdjustmentJob.run]
        rw [wpr_bind]
        refine wpr_withSession fun shared₁ _ _ _ _ => ?_
        refine wpr_mono AdjustmentService.wpr_approve (fun _ _ _ h => h.elim) ?_
        rintro raised _ shared₂ ⟨top, rfl⟩
        refine ⟨top, rfl, fun shared₃ _ _ _ form hform => ?_⟩
        rw [hjob] at hform
        cases hform
  refine wp_mono hending fun result stack shared' h => ?_
  cases result <;> exact h

end Calls

/-! ## When the law holds -/

/-- In every reachable configuration requests are recorded under their own
identifiers, nothing is posted, and a request that came back without a record was
turned away. -/
theorem adjustment_run {settings : Settings} {db : Database} {world : World}
    (unique : Schema.Unique (S := schema) db) (hrecords : db.adjustments = [])
    (jobs : List AdjustmentJob) {config : Config system (Except Exception Unit)}
    (hrun : Config.Run anyMove
      (Config.start db world (adjustmentWorkers settings jobs)) config) :
    Sound (adjustmentDiscipline db jobs) (AdjustmentEnded jobs) config := by
  have hnone (worker : Nat) (record : LedgerAdjustmentRequest) :
      ¬ Recorded (⟨db, world, []⟩ : Shared system) worker record := by
    rintro ⟨name, hevent⟩
    cases hevent
  have hstart : (adjustmentDiscipline db jobs).Good ⟨db, world, []⟩ := by
    refine ⟨unique, rfl, fun record hrow => ?_, fun worker record h => ?_,
      fun worker record h => ?_, fun worker record _ _ h => ?_⟩
    · change record ∈ db.adjustments at hrow
      rw [hrecords] at hrow
      cases hrow
    · exact absurd h (hnone worker record)
    · exact absurd h (hnone worker record)
    · exact absurd h (hnone worker record)
  refine Sound.run (stable_adjustmentEnded db jobs)
    (Sound.start hstart fun worker program hprogram => ?_) hrun
  simp only [adjustmentWorkers, List.getElem?_map, Option.map_eq_some_iff] at hprogram
  obtain ⟨job, hjob, rfl⟩ := hprogram
  exact AdjustmentJob.wp_run hjob rfl

/-- In every reachable state of every interleaving of requests and approvals, the law
of the four eyes holds exactly when nothing is in its way. -/
theorem fourEyes_iff {settings : Settings} {db : Database} {world : World}
    (unique : Schema.Unique (S := schema) db) (hrecords : db.adjustments = [])
    (hposted : ∀ transaction ∈ db.transactions,
      transaction.referenceType ≠ .ledgerAdjustmentRequest)
    (jobs : List AdjustmentJob) {config : Config system (Except Exception Unit)}
    (hrun : Config.Run anyMove
      (Config.start db world (adjustmentWorkers settings jobs)) config) :
    FourEyes db jobs config ↔ Unobstructed db jobs config := by
  have sound := adjustment_run unique hrecords jobs hrun
  have recordings : Recordings db jobs config.shared := sound.good.2
  have hnothing (requestId : String) :
      adjustmentsOf requestId config.shared.committed = [] := by
    unfold adjustmentsOf
    rw [recordings.transactions]
    refine List.filter_eq_nil_iff.mpr fun transaction htransaction h => ?_
    exact hposted transaction htransaction (of_decide_eq_true h).1
  constructor
  · intro law
    constructor
    · intro worker form hform balanced returned
      obtain ⟨record, recorded, -, -, hown⟩ := law.recorded worker form hform balanced returned
      obtain ⟨form', key, requestedAt, hform', hkey, rfl⟩ :=
        recordings.formed worker record recorded
      obtain rfl : form = form' :=
        AdjustmentJob.request.inj (Option.some.inj (hform.symm.trans hform'))
      exact ⟨key, hkey, hown⟩
    · intro worker requestId approvedBy hjob returned record hbegan hid
      by_contra hother
      obtain ⟨transaction, hone, -⟩ :=
        law.posted worker requestId approvedBy hjob returned record hbegan hid hother
      rw [hnothing] at hone
      cases hone
  · intro free
    constructor
    · intro worker form hform balanced returned
      obtain ⟨key, hkey, hown⟩ := free.identified worker form hform balanced returned
      obtain ⟨stack, result, hreturned⟩ := returned
      have hended : AdjustmentEnded jobs worker result stack config.shared :=
        (sound.ready worker _ hreturned).program
      specialize hended form hform
      cases result with
      | error raised =>
          rcases hended with hunbalanced | hunbuilt | ⟨key', other, record, hkey', recorded, hid,
            hne⟩
          · exact absurd balanced hunbalanced
          · exact absurd hkey (hunbuilt key)
          · obtain rfl : key = key' := Except.ok.inj (hkey.symm.trans hkey')
            exact absurd (hown other record recorded hid) hne
      | ok value =>
          obtain ⟨record, recorded⟩ := hended
          obtain ⟨form', key', requestedAt, hform', hkey', rfl⟩ :=
            recordings.formed worker record recorded
          obtain rfl : form = form' :=
            AdjustmentJob.request.inj (Option.some.inj (hform.symm.trans hform'))
          refine ⟨_, recorded, rfl, ?_, fun other record' recorded' hid => ?_⟩
          · exact List.mem_map.mpr ⟨_, recordings.kept worker _ recorded, rfl⟩
          · exact recordings.distinct other record' worker _ recorded' recorded hid
    · intro worker requestId approvedBy hjob returned record hbegan hid hother
      exact absurd (free.unapproved worker requestId approvedBy hjob returned record hbegan hid)
        hother
    · intro record _
      rw [hnothing]
      exact ⟨Nat.zero_le 1, fun h => absurd rfl h⟩

/-! ## One request -/

/-- A goodwill credit that one operator asks for. -/
def sampleForm : AdjustmentForm where
  merchantId := some "mer_1"
  currency := "EUR"
  lines := [debit .cash 500, credit .merchantPayable 500]
  reasonCode := "goodwill_credit"
  requestedBy := "alice"

/-- The operator asks, and then an operator approves. -/
def sampleRequest (approvedBy : String) : List AdjustmentJob :=
  [.request sampleForm, .approve "lar:alice:goodwill_credit" approvedBy]

def sampleAdjustment : LedgerAdjustmentRequest :=
  sampleForm.record "lar:alice:goodwill_credit" 10

/-- The steps of the request, then those of the approval. -/
def sampleApproval : List (Action system) :=
  advances 0 [.plain, .plain, .plain, .plain] ++ advances 1 [.plain, .plain, .plain]

/-- Both calls came back, the approval with an error, and the record is all there is. -/
def requestedThenRefused (config : Config system (Except Exception Unit)) : Bool :=
  match config.workers, config.shared.trace with
  | [⟨_, .ret _⟩, ⟨_, .ret (.error _)⟩],
    [(0, .began _), (0, .committed _ writes), (1, .began _), (1, .rolledBack _)] =>
      decide ((applyAll writes ({} : Database)).adjustments = [sampleAdjustment] ∧
        (applyAll writes ({} : Database)).transactions = [])
  | _, _ => false

/-- The requester approves in person: nothing is posted, as the law has it. -/
theorem fourEyes_iff_refused :
    ∃ config, Config.Run anyMove (Config.start ({} : Database) ({ clock := 10 } : World)
        (adjustmentWorkers sampleSettings (sampleRequest "alice"))) config ∧
      Returned config 1 ∧ FourEyes {} (sampleRequest "alice") config := by
  have hschedule : ((Config.start (Y := system) ({} : Database) ({ clock := 10 } : World)
      (adjustmentWorkers sampleSettings (sampleRequest "alice"))).schedule anyMove
        sampleApproval).map requestedThenRefused = some true := by
    decide +kernel
  obtain ⟨config, hconfig, hends⟩ := Option.map_eq_some_iff.mp hschedule
  have hrun := Config.run_of_schedule hconfig
  unfold requestedThenRefused at hends
  split at hends
  · next began₀ committed₀ writes began₁ ended₁ hworkers htrace =>
      obtain ⟨hrows, -⟩ := of_decide_eq_true hends
      refine ⟨config, hrun, ⟨_, _, by rw [hworkers]; rfl⟩, ?_⟩
      refine (fourEyes_iff unique_empty rfl (by simp) _ hrun).mpr ⟨?_, ?_⟩
      · intro worker form hform _ _
        obtain ⟨rfl, rfl⟩ : worker = 0 ∧ sampleForm = form := by
          rcases worker with _ | _ | worker <;> simp [sampleRequest] at hform
          exact ⟨rfl, hform⟩
        refine ⟨"lar:alice:goodwill_credit", by rfl, ?_⟩
        rintro other record ⟨name, hevent⟩ _
        obtain ⟨entry, hentry, hname⟩ := List.mem_map.mp hevent
        obtain ⟨hmem, hother⟩ := List.mem_filter.mp hentry
        rw [htrace] at hmem
        simp only [List.mem_cons, List.not_mem_nil, or_false] at hmem
        rcases hmem with rfl | rfl | rfl | rfl
        · cases hname
        · simpa using (of_decide_eq_true hother).symm
        · cases hname
        · cases hname
      · intro worker requestId approvedBy hjob _ record hbegan _
        obtain ⟨rfl, -, rfl⟩ : worker = 1 ∧ "lar:alice:goodwill_credit" = requestId ∧
            "alice" = approvedBy := by
          rcases worker with _ | _ | worker <;> simp [sampleRequest] at hjob
          exact ⟨rfl, hjob⟩
        obtain ⟨before, name, after, hsplit, hrow⟩ := hbegan
        rw [htrace] at hsplit
        rcases before with _ | ⟨_, _ | ⟨_, _ | ⟨_, _ | ⟨_, before⟩⟩⟩⟩ <;>
          simp at hsplit
        obtain ⟨rfl, rfl, -⟩ := hsplit
        change record ∈ (applyAll writes ({} : Database)).adjustments at hrow
        rw [hrows] at hrow
        rw [List.mem_singleton.mp hrow]
        rfl
  · cases hends

/-- Another operator approves, and the call fails with nothing posted. -/
theorem adjustment_never_posted :
    ∃ config, Config.Run anyMove (Config.start ({} : Database) ({ clock := 10 } : World)
        (adjustmentWorkers sampleSettings (sampleRequest "bob"))) config ∧
      ¬ FourEyes {} (sampleRequest "bob") config := by
  have hschedule : ((Config.start (Y := system) ({} : Database) ({ clock := 10 } : World)
      (adjustmentWorkers sampleSettings (sampleRequest "bob"))).schedule anyMove
        sampleApproval).map requestedThenRefused = some true := by
    decide +kernel
  obtain ⟨config, hconfig, hends⟩ := Option.map_eq_some_iff.mp hschedule
  have hrun := Config.run_of_schedule hconfig
  refine ⟨config, hrun, fun law => ?_⟩
  have hreplay := hrun.replay
  unfold requestedThenRefused at hends
  split at hends
  · next began₀ committed₀ writes began₁ ended₁ hworkers htrace =>
      obtain ⟨hrows, htransactions⟩ := of_decide_eq_true hends
      rw [htrace] at hreplay
      obtain ⟨transaction, hone, -⟩ := law.posted 1 "lar:alice:goodwill_credit" "bob" rfl
        ⟨_, _, by rw [hworkers]; rfl⟩ sampleAdjustment
        ⟨[_, _], began₁, [_], htrace, by
          change sampleAdjustment ∈ (applyAll writes ({} : Database)).adjustments
          rw [hrows]
          exact List.mem_singleton_self _⟩ rfl (by decide)
      rw [hreplay] at hone
      change (applyAll writes ({} : Database)).transactions.filter _ = _ at hone
      rw [htransactions] at hone
      cases hone
  · cases hends

end PayzenoLedger
