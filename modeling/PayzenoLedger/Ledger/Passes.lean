import PayzenoLedger.Ledger.Bodies
import PayzenoLedger.Ledger.Releases
import PayzenoLedger.Library.Followed
import PayzenoLedger.Services.Captures
import PayzenoLedger.Settlement.Fundings

/-!
# Passes over a list of records

The matching of credits, the capture attempts and the release of reserves share one shape: a
list is read in one transaction, and each of its records gets a turn of its own.  What a record
raises ends the pass, so that every record has its turn just when the ledger takes those before
the last, or the acquirer's answer to them is one that the pass knows.
-/

set_option autoImplicit false

namespace PayzenoLedger

open Library Library.Raising

theorem FundingMatchService.stays_matchOne (settings : Settings) (eventId : String) :
    Stays (matchOne settings eventId) := by
  refine .bind (Async.stays_getOrRaise _ _ _) fun event => ?_
  dsimp only
  split
  · trivial
  · refine .bind (.execute _) fun candidates => ?_
    cases closestByAmount event.amountMinor candidates with
    | none => trivial
    | some batch =>
        dsimp only
        split
        · exact .bind (Async.stays_update _ _ _ _) fun _ => .pure _
        · refine .bind (.bind (Async.stays_check _) fun keys => ?_) fun transactionId => ?_
          · exact .bind (LedgerPoster.stays_post _) fun _ => .pure _
          · refine .bind (Async.stays_update _ _ _ _) fun _ => ?_
            refine .bind Async.stays_now fun stamp => ?_
            refine .bind (Async.stays_update _ _ _ _) fun _ => ?_
            exact .bind (OutboxPublisher.stays_publish _ _ _ _ _) fun _ => .pure _

theorem ReserveService.stays_releaseOne (settings : Settings) (holdId : String) :
    Stays (releaseOne settings holdId) := by
  refine .bind (Async.stays_getOrRaise _ _ _) fun hold => ?_
  split
  · trivial
  · refine .bind (Async.stays_check _) fun key => .bind (Async.stays_check _) fun fingerprint => ?_
    refine .bind (LedgerPoster.stays_post _) fun posted => ?_
    exact .bind (Async.stays_update _ _ _ _) fun _ => .pure _

inductive Pass where
  | matchPending (limit : Nat)
  | processPending (limit : Nat)
  | releaseDue (on : Date) (limit : Nat)

namespace Pass

def run (settings : Settings) : Pass → Async Nat
  | .matchPending limit => FundingMatchService.matchPending settings limit
  | .processPending limit => DeferredCaptureService.processPending limit
  | .releaseDue on limit => ReserveService.releaseDue settings on limit

/-- The transaction that reads the list. -/
def listing : Pass → SessionName
  | .matchPending _ => .fundingList
  | .processPending _ => .attemptList
  | .releaseDue _ _ => .reserveList

/-- The records that the pass finds due. -/
def due : Pass → Database → List String
  | .matchPending limit, db => (FundingEventRepository.listUnmatched limit db).map (·.id)
  | .processPending limit, db => (CaptureAttemptRepository.listPending limit db).map (·.id)
  | .releaseDue on limit, db => (ReserveHoldRepository.listDue on limit db).map (·.id)

/-- The transaction that a record's turn begins with. -/
def opens : Pass → String → Event system
  | .matchPending _, eventId => .began (.fundingMatch eventId)
  | .processPending _, attemptId => .began (.attemptRead attemptId)
  | .releaseDue _ _, holdId => .began (.reserveRelease holdId)

end Pass

theorem Pass.opens_injective (pass : Pass) : Function.Injective pass.opens := by
  intro first second h
  cases pass <;> simpa [Pass.opens] using h

/-- No record is due twice. -/
theorem Pass.nodup_due (pass : Pass) {db : Database} (unique : Schema.Unique (S := schema) db) :
    (pass.due db).Nodup := by
  cases pass with
  | matchPending limit =>
      refine Schema.nodup_page ?_ _ _ _
      exact unique.nodup_column Table.fundingEvent (·.id) Key.funding fun _ => by simp [Table.keys]
  | processPending limit =>
      refine Schema.nodup_page ?_ _ _ _
      exact unique.nodup_column Table.captureAttempt (·.id) Key.attempt fun _ => by
        simp [Table.keys]
  | releaseDue on limit =>
      refine Schema.nodup_page ?_ _ _ _
      exact unique.nodup_column Table.reserveHold (·.id) Key.hold fun _ => by simp [Table.keys]

/-! ## The condition -/

/-- The acquirer's answer is an error that `process_pending` does not handle. -/
def unhandled : Event system → Bool
  | .called (.captureDeferred _ _ _ _ _ _) (.error raised) =>
      !raised.isInstance .processorIndeterminateError &&
        !raised.isInstance .processorUnavailableError
  | .called (.captureStatus _ _) (.error _) => true
  | _ => false

/-- The first answer from outside in this part of a run. -/
def firstAnswer (trace : List (Nat × Event system)) : Option (Event system) :=
  (trace.map (·.2)).find? fun
    | .called _ _ => true
    | _ => false

/-- The pass gets over the record, by the database that its turn finds and what comes after the
turn has begun: a credit that waits and that the closest batch takes can be posted, a hold that
waits can be released, and the acquirer's answer for an attempt is one that is handled. -/
def Pass.Takes (settings : Settings) (record : String) (db : Database)
    (after : List (Nat × Event system)) : Pass → Prop
  | .matchPending _ => ∀ event ∈ db.fundings, event.id = record →
      FundingMatchService.Passable settings event db
  | .processPending _ => ∀ answer ∈ firstAnswer after, unhandled answer = false
  | .releaseDue _ _ => ∀ hold ∈ db.holds, hold.id = record → hold.releasedTransactionId = none →
      ReserveService.Releasable hold db

/-! ## Turns -/

/-- The record is stored. -/
def Pass.Stored (record : String) (shared : Shared system) : Pass → Prop
  | .matchPending _ => Async.Kept .fundingEvent (.funding record) shared
  | .processPending _ => Async.Kept .captureAttempt (.attempt record) shared
  | .releaseDue _ _ => Async.Kept .reserveHold (.hold record) shared

theorem Pass.Stored.since {pass : Pass} {record : String} {past shared : Shared system}
    (stored : pass.Stored record past) (since : Since past shared) : pass.Stored record shared := by
  cases pass with
  | matchPending limit => exact Async.Kept.since stored since
  | processPending limit => exact Async.Kept.since stored since
  | releaseDue on limit => exact Async.Kept.since stored since

/-- What is due is stored. -/
theorem Pass.stored_due {pass : Pass} {record : String} {shared : Shared system}
    (hrecord : record ∈ pass.due shared.committed) : pass.Stored record shared := by
  cases pass with
  | matchPending limit =>
      obtain ⟨event, hevent, rfl⟩ := List.mem_map.mp hrecord
      refine ⟨event, Schema.mem_of_page hevent, fun row hsame => ?_⟩
      have hid : row.id = event.id := congrArg (·.id) hsame
      rw [← hid]
      exact List.mem_cons_self
  | processPending limit =>
      obtain ⟨attempt, hattempt, rfl⟩ := List.mem_map.mp hrecord
      refine ⟨attempt, Schema.mem_of_page hattempt, fun row hsame => ?_⟩
      have hid : row.id = attempt.id := congrArg Prod.fst hsame
      rw [← hid]
      exact List.mem_cons_self
  | releaseDue on limit =>
      obtain ⟨hold, hhold, rfl⟩ := List.mem_map.mp hrecord
      refine ⟨hold, Schema.mem_of_page hhold, fun row hsame => ?_⟩
      have hid : row.id = hold.id := congrArg (·.id) hsame
      rw [← hid]
      exact List.mem_cons_self

/-- The database of a run so far: its commits, its indexes and its foreign keys. -/
structure LoneState (db : Database) (shared : Shared system) : Prop where
  replayed : shared.committed = replay db shared.trace
  unique : Schema.Unique (S := schema) shared.committed
  headed : Headed shared.committed

/-- The turn that a record had, and whether the pass went on after it. -/
structure Pass.Turned (settings : Settings) (db : Database) (record : String) (goes : Prop)
    (before after : Shared system) (pass : Pass) : Prop where
  state : LoneState db after
  since : Since before after
  turn : ∃ turn, after.trace = before.trace ++ (0, pass.opens record) :: turn ∧
    (∀ other, (0, pass.opens other) ∉ turn) ∧
    ∀ rest, pass.Takes settings record before.committed (turn ++ rest) ↔ goes

/-- However the rest of a record's turn ends, the pass goes on after it or it ends the pass. -/
def Pass.TakesTurn {α : Type} (settings : Settings) (pass : Pass) (db : Database)
    (record : String) (before : Shared system) (turn : Async α) (past : List Choice)
    (shared : Shared system) : Prop :=
  tells (Y := system) freshIds turn
    (fun _ _ stack after => stack = [] ∧ pass.Turned settings db record True before after)
    (fun _ _ _ after => pass.Turned settings db record False before after) past [] shared

section Turns

variable {settings : Settings} {db : Database} {pass : Pass} {record : String}
  {past : List Choice} {shared shared' : Shared system}

theorem LoneState.commit (state : LoneState db shared) {name : SessionName}
    {writes : List (Write schema)} (commit : LoneCommit name writes shared shared')
    (headed : Headed shared'.committed) : LoneState db shared' ∧ Since shared shared' := by
  refine ⟨⟨?_, commit.unique, headed⟩, ?_, ?_⟩
  · rw [commit.trace, replay_append, ← state.replayed, commit.committed]
    rfl
  · rw [commit.trace]
    exact List.prefix_append _ _
  · rw [commit.committed]
    exact Write.applyAll_extends _ _

theorem LoneState.rollback (state : LoneState db shared) {name : SessionName}
    (rollback : LoneRollback (Y := system) name shared shared') :
    LoneState db shared' ∧ Since shared shared' := by
  refine ⟨⟨?_, ?_, ?_⟩, ?_, ?_⟩
  · rw [rollback.trace, replay_append, ← state.replayed, rollback.committed]
    rfl
  · rw [rollback.committed]
    exact state.unique
  · rw [rollback.committed]
    exact state.headed
  · rw [rollback.trace]
    exact List.prefix_append _ _
  · rw [rollback.committed]
    exact Schema.Extends.refl _

/-- A turn of one transaction goes on where its body is sure to commit, and ends the pass where
it is sure to raise. -/
theorem Pass.tells_turn {α : Type} {name : SessionName} {body : Async α} (takes : Prop)
    (hopens : pass.opens record = .began name)
    (hbegan : ∀ other, ∃ name, pass.opens other = .began name) (stays : Stays body)
    (state : LoneState db shared)
    (htakes : ∀ turn, pass.Takes settings record shared.committed turn ↔ takes)
    (hpasses : takes → ∀ past, attains (Y := system) freshIds body
      (fun _ _ view => Headed view) (fun _ _ _ => False) past shared.committed)
    (hraises : ¬ takes → ∀ past, attains (Y := system) freshIds body
      (fun _ _ _ => False) (fun _ _ _ => True) past shared.committed) :
    pass.TakesTurn settings db record shared (Async.withSession name body) past shared := by
  have hnever {event : Event system} (hevent : ∀ name, event ≠ .began name) (other : String) :
      ((0 : Nat), pass.opens other) ∉ [((0 : Nat), event)] := by
    obtain ⟨name', hname'⟩ := hbegan other
    rw [hname', List.mem_singleton, Prod.mk.injEq]
    exact fun h => hevent name' h.2.symm
  by_cases h : takes
  · refine tells_session stays state.unique (fun choice => hpasses h _)
      (fun value writes past' shared' commit headed => ⟨rfl, ?_⟩)
      fun _ _ _ _ hfalse => hfalse.elim
    obtain ⟨state', since⟩ := state.commit commit headed
    refine ⟨state', since, [(0, .committed name writes)], ?_, hnever fun _ => by simp,
      fun _ => (htakes _).trans (iff_true_intro h)⟩
    rw [commit.trace, hopens]
  · refine tells_session stays state.unique (fun choice => hraises h _)
      (fun _ _ _ _ _ hfalse => hfalse.elim) fun raised past' shared' rollback _ => ?_
    obtain ⟨state', since⟩ := state.rollback rollback
    refine ⟨state', since, [(0, .rolledBack name)], ?_, hnever fun _ => by simp,
      fun _ => (htakes _).trans (iff_false_intro h)⟩
    rw [rollback.trace, hopens]

theorem FundingMatchService.tells_turn {limit : Nat} (state : LoneState db shared)
    (stored : (Pass.matchPending limit).Stored record shared) :
    (Pass.matchPending limit).TakesTurn settings db record shared
      (Async.withSession (.fundingMatch record) (matchOne settings record)) past shared := by
  obtain ⟨event, hevent, hkey⟩ := stored
  obtain rfl : event.id = record := by simpa [eq_comm, Table.keys] using hkey event rfl
  have hone (other : FundingEvent) (hother : other ∈ shared.committed.fundings)
      (hid : other.id = event.id) : other = event := by
    refine state.unique.eq_of_key Table.fundingEvent (.funding event.id) hother hevent ?_
      List.mem_cons_self
    rw [← hid]
    exact List.mem_cons_self
  refine Pass.tells_turn (Passable settings event shared.committed) rfl (fun other => ⟨_, rfl⟩)
    (stays_matchOne settings event.id) state (fun turn => ?_)
    (fun passable past => attains_matchOne_passes state.unique state.headed hevent passable)
    fun hpassable past => attains_matchOne_raises state.unique hevent hpassable
  constructor
  · intro takes
    exact takes event hevent rfl
  · intro passable other hother hid
    rw [hone other hother hid]
    exact passable

theorem ReserveService.tells_turn {on : Date} {limit : Nat} (state : LoneState db shared)
    (stored : (Pass.releaseDue on limit).Stored record shared) :
    (Pass.releaseDue on limit).TakesTurn settings db record shared
      (Async.withSession (.reserveRelease record) (releaseOne settings record)) past shared := by
  obtain ⟨hold, hhold, hkey⟩ := stored
  obtain rfl : hold.id = record := by simpa [eq_comm, Table.keys] using hkey hold rfl
  have hone (other : ReserveHold) (hother : other ∈ shared.committed.holds)
      (hid : other.id = hold.id) : other = hold := by
    refine state.unique.eq_of_key Table.reserveHold (.hold hold.id) hother hhold ?_
      List.mem_cons_self
    rw [← hid]
    exact List.mem_cons_self
  refine Pass.tells_turn (hold.releasedTransactionId = none → Releasable hold shared.committed) rfl
    (fun other => ⟨_, rfl⟩) (stays_releaseOne settings hold.id) state (fun turn => ?_)
    (fun releasable past => attains_releaseOne_passes state.unique state.headed hhold releasable)
    fun hreleasable past => ?_
  · constructor
    · intro takes
      exact takes hold hhold rfl
    · intro releasable other hother hid
      rw [hone other hother hid]
      exact releasable
  · rw [Classical.not_imp] at hreleasable
    exact attains_releaseOne_raises state.unique hhold hreleasable.1 hreleasable.2

namespace DeferredCaptureService

theorem outcomeOf_error {chargeId currency reference idempotencyKey : String}
    {amountMinor : Int} {item : Option String} {reply : Except Exception CaptureResponse}
    {raised : Exception} (h : outcomeOf reply = .error raised) :
    unhandled (.called
      (.captureDeferred chargeId amountMinor currency reference idempotencyKey item) reply) =
        true := by
  cases reply with
  | ok response => cases h
  | error error =>
      cases error with
      | ledger error =>
          simp only [outcomeOf] at h
          split at h
          · cases h
          · next hindeterminate =>
              split at h
              · cases h
              · next hunavailable =>
                  simp [unhandled, Exception.isInstance, hindeterminate, hunavailable]
      | integrityError => rfl
      | valueError message => rfl
      | builtin error => rfl
      | httpx error => rfl

theorem outcomeOf_ok {chargeId currency reference idempotencyKey : String}
    {amountMinor : Int} {item : Option String} {reply : Except Exception CaptureResponse}
    {outcome : AttemptOutcome} (h : outcomeOf reply = .ok outcome) :
    unhandled (.called
      (.captureDeferred chargeId amountMinor currency reference idempotencyKey item) reply) =
        false := by
  cases reply with
  | ok response => rfl
  | error error =>
      cases error with
      | ledger error =>
          simp only [outcomeOf] at h
          split at h
          · next hindeterminate => simp [unhandled, Exception.isInstance, hindeterminate]
          · split at h
            · next hunavailable => simp [unhandled, Exception.isInstance, hunavailable]
            · cases h
      | integrityError => cases h
      | valueError message => cases h
      | builtin error => cases h
      | httpx error => cases h

theorem stays_applied (attemptId : String) (outcome : AttemptOutcome) :
    Stays (do
      let attempt ← CaptureAttemptRepository.getOrRaise attemptId
      let stamp ← Async.now
      let completedAt :=
        if outcome.status = .captured ∨ outcome.status = .failed then some stamp
        else attempt.completedAt
      Async.update .captureAttempt (.attempt attempt.id) (flushed attempt outcome completedAt)
        (fun _ => rfl)) :=
  .bind (Async.stays_getOrRaise _ _ _) fun _ => .bind Async.stays_now fun _ =>
    Async.stays_update _ _ _ _

/-- An outcome is written wherever the attempt is stored. -/
theorem attains_applied {attemptId : String} {outcome : AttemptOutcome} {view : Database}
    (unique : Schema.Unique (S := schema) view) (headed : Headed view)
    (hstored : ∃ attempt ∈ view.attempts, attempt.id = attemptId) :
    attains (Y := system) freshIds (do
        let attempt ← CaptureAttemptRepository.getOrRaise attemptId
        let stamp ← Async.now
        let completedAt :=
          if outcome.status = .captured ∨ outcome.status = .failed then some stamp
          else attempt.completedAt
        Async.update .captureAttempt (.attempt attempt.id) (flushed attempt outcome completedAt)
          (fun _ => rfl))
      (fun _ _ view' => Headed view') (fun _ _ _ => False) past view := by
  obtain ⟨attempt, hattempt, rfl⟩ := hstored
  refine attains_bind (Async.attains_getOrRaise orderly_freshIds
    ⟨attempt, hattempt, List.mem_cons_self⟩ fun choice row hrow _ => ?_)
  refine attains_bind (Async.attains_now orderly_freshIds fun choice' world _ => ?_)
  have hheld : (Schema.holders (S := schema) Table.captureAttempt (.attempt row.id)
      view).head? = some row := by
    rw [unique.holders_eq (Schema.mem_holders.mpr ⟨hrow, List.mem_cons_self⟩)]
    rfl
  exact Async.attains_update orderly_freshIds hheld rfl fun _ => headed.of_eq rfl rfl

/-- The attempt was read and the acquirer asked about it. -/
structure Answered (db : Database) (attemptId : String) (request : Request)
    (reply : request.Reply) (before after : Shared system) : Prop where
  state : LoneState db after
  since : Since before after
  trace : ∃ writes, after.trace = before.trace ++
    [(0, .began (.attemptRead attemptId)), (0, .committed (.attemptRead attemptId) writes),
      (0, .called request reply)]

section Answers

variable {attemptId : String} {limit : Nat} {request : Request} {reply : request.Reply}
  {before : Shared system}

/-- The turn with what came after the answer. -/
theorem Answered.turned (answered : Answered db attemptId request reply before shared)
    {goes : Prop} {more : List (Nat × Event system)} (state : LoneState db shared')
    (since : Since shared shared') (htrace : shared'.trace = shared.trace ++ more)
    (hmore : ∀ other, ((0 : Nat), Event.began (SessionName.attemptRead other)) ∉ more)
    (hgoes : unhandled (.called request reply) = false ↔ goes) :
    (Pass.processPending limit).Turned settings db attemptId goes before shared' := by
  obtain ⟨writes, hanswered⟩ := answered.trace
  refine ⟨state, answered.since.trans since, [(0, .committed (.attemptRead attemptId) writes),
    (0, .called request reply)] ++ more, ?_, fun other hother => ?_, fun rest => ?_⟩
  · rw [htrace, hanswered, List.append_assoc]
    rfl
  · rcases List.mem_append.mp hother with hread | hlater
    · simp [Pass.opens] at hread
    · exact hmore other hlater
  · rw [← hgoes]
    constructor
    · intro takes
      exact takes _ rfl
    · intro hhandled answer hanswer
      cases hanswer
      exact hhandled

/-- What a handled answer makes of the attempt is written. -/
theorem tells_applyOutcome {outcome : AttemptOutcome}
    (answered : Answered db attemptId request reply before shared)
    (stored : (Pass.processPending limit).Stored attemptId before)
    (hhandled : unhandled (.called request reply) = false) :
    (Pass.processPending limit).TakesTurn settings db attemptId before
      (applyOutcome attemptId outcome) past shared := by
  obtain ⟨attempt, hattempt, hkey⟩ := Pass.Stored.since stored answered.since
  have hid : attempt.id = attemptId := by simpa [eq_comm, Table.keys] using hkey attempt rfl
  refine tells_session (stays_applied attemptId outcome) answered.state.unique
    (fun _ => attains_applied answered.state.unique answered.state.headed
      ⟨attempt, hattempt, hid⟩) (fun _ writes past' shared' commit headed => ⟨rfl, ?_⟩)
    fun _ _ _ _ hfalse => hfalse.elim
  obtain ⟨state, since⟩ := answered.state.commit commit headed
  exact answered.turned state since commit.trace (fun other => by simp)
    (iff_of_true hhandled trivial)

end Answers

/-- The attempt is read, and the acquirer asked about it. -/
theorem tells_asked {limit : Nat} {request : CaptureAttempt → Request}
    {next : (attempt : CaptureAttempt) → (request attempt).Reply → Async Unit}
    (state : LoneState db shared) (stored : (Pass.processPending limit).Stored record shared)
    (h : ∀ attempt reply past shared',
      Answered db record (request attempt) reply shared shared' →
      (Pass.processPending limit).TakesTurn settings db record shared (next attempt reply) past
        shared') :
    (Pass.processPending limit).TakesTurn settings db record shared
      (Async.withSession (.attemptRead record) (CaptureAttemptRepository.getOrRaise record) >>=
        fun attempt => Async.call (request attempt) >>= next attempt) past shared := by
  obtain ⟨attempt, hattempt, hkey⟩ := stored
  have hread (past : List Choice) : attains (Y := system) freshIds
      (CaptureAttemptRepository.getOrRaise record) (fun _ _ view => Headed view)
      (fun _ _ _ => False) past shared.committed :=
    Async.attains_getOrRaise orderly_freshIds ⟨attempt, hattempt, hkey attempt rfl⟩
      fun _ _ _ _ => state.headed
  refine tells_bind (tells_session (Async.stays_getOrRaise _ _ _) state.unique
    (fun _ => hread _) (fun attempt writes past₁ shared₁ commit headed => ?_)
    fun _ _ _ _ hfalse => hfalse.elim)
  obtain ⟨state₁, since₁⟩ := state.commit commit headed
  refine tells_bind (tells_call fun world choice reply world' _ _ => ?_)
  refine h attempt reply _ _ ⟨⟨?_, state₁.unique, state₁.headed⟩, ?_, writes, ?_⟩
  · change shared₁.committed = replay db (shared₁.trace ++ [_])
    rw [replay_append, ← state₁.replayed]
    rfl
  · exact since₁.trans ⟨List.prefix_append _ _, Schema.Extends.refl _⟩
  · change shared₁.trace ++ [_] = _
    rw [commit.trace, List.append_assoc]
    rfl

theorem tells_turn {limit : Nat} {status : AttemptStatus} (state : LoneState db shared)
    (stored : (Pass.processPending limit).Stored record shared) :
    (Pass.processPending limit).TakesTurn settings db record shared (process record status) past
      shared := by
  unfold process
  split
  · refine tells_asked state stored fun attempt reply past₁ shared₁ answered => ?_
    have hturned {goes : Prop} (hgoes : unhandled (.called (.captureStatus attempt.acquirer
        attempt.acquirerIdempotencyKey) reply) = false ↔ goes) :
        (Pass.processPending limit).Turned settings db record goes shared shared₁ :=
      answered.turned answered.state (Since.refl _) (List.append_nil _).symm (by simp) hgoes
    cases reply with
    | error error => exact tells_throw (hturned (iff_of_false Bool.noConfusion id))
    | ok answer =>
        dsimp only
        cases answer.state with
        | captured => exact tells_applyOutcome answered stored rfl
        | notCaptured => exact tells_applyOutcome answered stored rfl
        | unknown => exact tells_pure ⟨rfl, hturned (iff_of_true rfl trivial)⟩
  · refine tells_asked state stored fun attempt reply past₁ shared₁ answered => ?_
    cases houtcome : outcomeOf reply with
    | ok outcome =>
        exact tells_bind (tells_pure (tells_applyOutcome answered stored (outcomeOf_ok houtcome)))
    | error raised =>
        refine tells_bind (tells_throw ?_)
        refine answered.turned answered.state (Since.refl _) (List.append_nil _).symm (by simp) ?_
        rw [outcomeOf_error houtcome]
        exact iff_of_false Bool.noConfusion id

end DeferredCaptureService

end Turns

/-! ## Loops -/

/-- The turns of a loop over the records after this part of a run: it goes on while the pass
gets over them, and ends with the first that it does not get over. -/
inductive Pass.Goes (settings : Settings) (pass : Pass) (db : Database) :
    List String → List (Nat × Event system) → List (Nat × Event system) → Prop where
  | done (before : List (Nat × Event system)) : Goes settings pass db [] before []
  | next {record : String} {records : List String}
      {before turn rest : List (Nat × Event system)}
      (hturn : ∀ other, (0, pass.opens other) ∉ turn)
      (takes : ∀ rest, pass.Takes settings record (replay db before) (turn ++ rest))
      (goes : Goes settings pass db records (before ++ (0, pass.opens record) :: turn) rest) :
      Goes settings pass db (record :: records) before ((0, pass.opens record) :: turn ++ rest)
  | broke {record : String} {records : List String} {before turn : List (Nat × Event system)}
      (hturn : ∀ other, (0, pass.opens other) ∉ turn)
      (takes : ¬ pass.Takes settings record (replay db before) turn) :
      Goes settings pass db (record :: records) before ((0, pass.opens record) :: turn)

/-- The turns of the records have been taken since. -/
structure Pass.Took (settings : Settings) (db : Database) (records : List String)
    (before after : Shared system) (pass : Pass) : Prop where
  replayed : after.committed = replay db after.trace
  turns : ∃ rest, after.trace = before.trace ++ rest ∧
    Goes settings pass db records before.trace rest

/-- However the program ends, it takes the turns of the records. -/
def Pass.TakesTurns (settings : Settings) (db : Database) (records : List String)
    (loop : Async Nat) (past : List Choice) (shared : Shared system) (pass : Pass) : Prop :=
  tells (Y := system) freshIds loop
    (fun _ _ _ after => pass.Took settings db records shared after)
    (fun _ _ _ after => pass.Took settings db records shared after) past [] shared

section Loop

variable {settings : Settings} {db : Database} {pass : Pass}

/-- A loop of turns. -/
theorem Pass.tells_loop {α β : Type} (id : α → String) (count : Nat → β → Nat)
    {loop : List α → Nat → Async Nat} {turn : α → Async β}
    (hnil : ∀ counted, loop [] counted = pure counted)
    (hcons : ∀ record records counted, loop (record :: records) counted =
      turn record >>= fun value => loop records (count counted value))
    (hturn : ∀ record past shared, LoneState db shared → pass.Stored (id record) shared →
      pass.TakesTurn settings db (id record) shared (turn record) past shared)
    {records : List α} {counted : Nat} {past : List Choice} {shared : Shared system}
    (state : LoneState db shared) (stored : ∀ record ∈ records, pass.Stored (id record) shared) :
    pass.TakesTurns settings db (records.map id) (loop records counted) past shared := by
  induction records generalizing counted past shared with
  | nil =>
      rw [hnil]
      exact tells_pure ⟨state.replayed, [], (List.append_nil _).symm, .done _⟩
  | cons record records ih =>
      obtain ⟨hrecord, hrecords⟩ := List.forall_mem_cons.mp stored
      rw [hcons]
      refine tells_bind (tells_mono (hturn record past shared state hrecord) ?_ ?_)
      · rintro value past₁ stack₁ shared₁ ⟨rfl, turned⟩
        obtain ⟨turn, htrace, hnever, htakes⟩ := turned.turn
        have stored₁ : ∀ other ∈ records, pass.Stored (id other) shared₁ :=
          fun other hother => (hrecords other hother).since turned.since
        refine tells_mono (@ih (count counted value) past₁ shared₁ turned.state stored₁) ?_ ?_
        all_goals
          rintro _ _ _ shared₂ ⟨hreplayed, rest, hrest, goes⟩
          refine ⟨hreplayed, (0, pass.opens (id record)) :: turn ++ rest, ?_, ?_⟩
          · rw [hrest, htrace, List.append_assoc]
          · rw [htrace] at goes
            refine .next hnever (fun later => ?_) goes
            rw [← state.replayed]
            exact (htakes later).mpr trivial
      · intro raised past₁ stack₁ shared₁ turned
        obtain ⟨turn, htrace, hnever, htakes⟩ := turned.turn
        refine ⟨turned.state.replayed, _, htrace, .broke hnever ?_⟩
        rw [← state.replayed, ← List.append_nil turn]
        exact (htakes []).mp

/-- Only the records of a loop have turns in it. -/
theorem Pass.Goes.mem_records {records : List String} {before rest : List (Nat × Event system)}
    (goes : Goes settings pass db records before rest) {record : String}
    (hrecord : (0, pass.opens record) ∈ rest) : record ∈ records := by
  induction goes with
  | done before => cases hrecord
  | next hturn _ _ ih =>
      rcases List.mem_append.mp hrecord with hown | hlater
      · rcases List.mem_cons.mp hown with hsame | hinside
        · rw [pass.opens_injective (Prod.mk.inj hsame).2]
          exact List.mem_cons_self
        · exact absurd hinside (hturn record)
      · exact List.mem_cons_of_mem _ (ih hlater)
  | broke hturn _ =>
      rcases List.mem_cons.mp hrecord with hsame | hinside
      · rw [pass.opens_injective (Prod.mk.inj hsame).2]
        exact List.mem_cons_self
      · exact absurd hinside (hturn record)

/-- The records of a loop all have their turn just when the pass gets over each before the
last. -/
theorem Pass.Goes.attempted_iff {records : List String} {before rest : List (Nat × Event system)}
    (goes : Goes settings pass db records before rest) (hnodup : records.Nodup)
    (hbefore : ∀ record ∈ records, (0, pass.opens record) ∉ before) :
    (∀ record ∈ records, (0, pass.opens record) ∈ before ++ rest) ↔
      ∀ earlier record after, before ++ rest = earlier ++ (0, pass.opens record) :: after →
        record ∈ records.dropLast → pass.Takes settings record (replay db earlier) after := by
  induction goes with
  | done before => simp
  | @next record records before turn rest hturn takes goes ih =>
      obtain ⟨hnew, hnodup'⟩ := List.nodup_cons.mp hnodup
      have hother {other : String} (hmem : other ∈ records) :
          (0, pass.opens other) ∉ before ++ (0, pass.opens record) :: turn := by
        rw [List.mem_append, List.mem_cons, not_or, not_or]
        refine ⟨hbefore other (List.mem_cons_of_mem _ hmem), fun hsame => ?_, hturn other⟩
        rw [pass.opens_injective (Prod.mk.inj hsame).2] at hmem
        exact hnew hmem
      have hrest := ih hnodup' fun other hmem => hother hmem
      have htrace : before ++ ((0, pass.opens record) :: turn ++ rest) =
          before ++ (0, pass.opens record) :: turn ++ rest := by
        rw [List.append_assoc]
      rw [← htrace] at hrest
      constructor
      · intro hall earlier other after hsplit hmem
        by_cases hsame : other = record
        · subst hsame
          have hlater : (0, pass.opens other) ∉ turn ++ rest := by
            rw [List.mem_append, not_or]
            exact ⟨hturn other, fun hinside => hnew (goes.mem_records hinside)⟩
          have hsplit' : before ++ (0, pass.opens other) :: (turn ++ rest) =
              earlier ++ (0, pass.opens other) :: after := hsplit
          obtain ⟨rfl, -, rfl⟩ := (List.append_cons_inj_of_notMem
            (hbefore other List.mem_cons_self) hlater).mp hsplit'
          exact takes rest
        · refine hrest.mp (fun other hmem => hall other (List.mem_cons_of_mem _ hmem)) earlier
            other after hsplit ?_
          cases records with
          | nil => cases hmem
          | cons first others => exact (List.mem_cons.mp hmem).resolve_left hsame
      · intro htakes other hmem
        rcases List.mem_cons.mp hmem with rfl | hlater
        · simp
        · refine hrest.mpr (fun earlier later after hsplit hlast => ?_) other hlater
          refine htakes earlier later after hsplit ?_
          rw [List.dropLast_cons_of_ne_nil (List.ne_nil_of_mem hlater)]
          exact List.mem_cons_of_mem _ hlast
  | @broke record records before turn hturn takes =>
      obtain ⟨hnew, -⟩ := List.nodup_cons.mp hnodup
      constructor
      · intro hall earlier other after _ hmem
        cases records with
        | nil => cases hmem
        | cons second others =>
            -- The second record has no turn.
            rcases List.mem_append.mp (hall second (by simp)) with hinside | hinside
            · exact absurd hinside (hbefore second (by simp))
            · rcases List.mem_cons.mp hinside with hsame | hturned
              · rw [pass.opens_injective (Prod.mk.inj hsame).2] at hnew
                exact absurd List.mem_cons_self hnew
              · exact absurd hturned (hturn second)
      · intro htakes other hmem
        rcases List.mem_cons.mp hmem with rfl | hlater
        · simp
        · refine absurd (htakes before record turn rfl ?_) takes
          rw [List.dropLast_cons_of_ne_nil (List.ne_nil_of_mem hlater)]
          exact List.mem_cons_self

end Loop

/-! ## Runs -/

/-- What is left of a pass that has ended: its list and the turns of its records. -/
structure Pass.Ended (settings : Settings) (pass : Pass) (db : Database)
    (shared : Shared system) : Prop where
  replayed : shared.committed = replay db shared.trace
  turns : ∃ writes rest, shared.trace =
      [(0, .began pass.listing), (0, .committed pass.listing writes)] ++ rest ∧
    Goes settings pass db (pass.due db)
      [(0, .began pass.listing), (0, .committed pass.listing writes)] rest

section Run

variable {settings : Settings} {db : Database} {shared : Shared system}

/-- A pass is its list and the loop over it. -/
theorem Pass.tells_pass {α β : Type} (pass : Pass) (query : Database → β) (view : β → List α)
    (id : α → String) {list : Async (List α)} {loop : List α → Async Nat}
    (hlist : list = Async.select query >>= fun rows => pure (view rows))
    (hdue : (view (query db)).map id = pass.due db) (state : LoneState db shared)
    (hfresh : shared.trace = []) (hcommitted : shared.committed = db)
    (hloop : ∀ past shared', LoneState db shared' →
      (∀ record ∈ view (query db), pass.Stored (id record) shared') →
      pass.TakesTurns settings db ((view (query db)).map id) (loop (view (query db))) past
        shared') (past : List Choice) :
    tells (Y := system) freshIds (Async.withSession pass.listing list >>= loop)
      (fun _ _ _ shared' => Ended settings pass db shared')
      (fun _ _ _ shared' => Ended settings pass db shared') past [] shared := by
  have stays : Stays list := by
    rw [hlist]
    exact .bind (.execute _) fun _ => .pure _
  have hread (past : List Choice) : attains (Y := system) freshIds list
      (fun rows _ view' => rows = view (query db) ∧ view' = db) (fun _ _ _ => False) past
      shared.committed := by
    rw [hlist, hcommitted]
    exact attains_bind (attains_select orderly_freshIds.live fun _ => attains_pure ⟨rfl, rfl⟩)
  refine tells_bind (tells_session stays state.unique (fun _ => hread _) ?_
    fun _ _ _ _ hfalse => hfalse.elim)
  rintro rows writes past₁ shared₁ commit ⟨rfl, hsame⟩
  have headed : Headed shared₁.committed := by
    rw [hsame, ← hcommitted]
    exact state.headed
  obtain ⟨state₁, -⟩ := state.commit commit headed
  have stored : ∀ record ∈ view (query db), pass.Stored (id record) shared₁ := by
    intro record hrecord
    apply Pass.stored_due
    rw [hsame, ← hdue]
    exact List.mem_map_of_mem hrecord
  have htrace : shared₁.trace =
      [(0, .began pass.listing), (0, .committed pass.listing writes)] := by
    rw [commit.trace, hfresh]
    rfl
  refine tells_mono (hloop past₁ shared₁ state₁ stored) ?_ ?_
  all_goals
    rintro _ _ _ later ⟨hreplayed, rest, hrest, goes⟩
    rw [htrace] at hrest goes
    rw [hdue] at goes
    exact ⟨hreplayed, writes, rest, hrest, goes⟩

theorem Pass.tells_run (pass : Pass) (state : LoneState db shared) (hfresh : shared.trace = [])
    (hcommitted : shared.committed = db) (past : List Choice) :
    tells (Y := system) freshIds (pass.run settings)
      (fun _ _ _ shared' => Ended settings pass db shared')
      (fun _ _ _ shared' => Ended settings pass db shared') past [] shared := by
  cases pass with
  | matchPending limit =>
      refine Pass.tells_pass (.matchPending limit)
        (fun db => (FundingEventRepository.listUnmatched limit db).map (·.id)) id id rfl
        (List.map_id _) state hfresh hcommitted (fun past shared' state' stored => ?_) past
      exact Pass.tells_loop id (fun placed done => if done then placed + 1 else placed)
        (fun _ => rfl) (fun _ _ _ => rfl)
        (fun _ _ _ => FundingMatchService.tells_turn) state' stored
  | processPending limit =>
      refine Pass.tells_pass (.processPending limit)
        (fun db => (CaptureAttemptRepository.listPending limit db).map
          fun attempt => (attempt.id, attempt.status)) id Prod.fst rfl ?_ state hfresh hcommitted
        (fun past shared' state' stored => ?_) past
      · rw [id, List.map_map]
        rfl
      · exact Pass.tells_loop Prod.fst (fun processed _ => processed + 1)
          (fun _ => rfl) (fun _ _ _ => rfl)
          (fun _ _ _ => DeferredCaptureService.tells_turn) state' stored
  | releaseDue on limit =>
      refine Pass.tells_pass (.releaseDue on limit) (ReserveHoldRepository.listDue on limit)
        (fun holds => holds.map (·.id)) id rfl (List.map_id _) state hfresh hcommitted
        (fun past shared' state' stored => ?_) past
      exact Pass.tells_loop id (fun released done => if done then released + 1 else released)
        (fun _ => rfl) (fun _ _ _ => rfl)
        (fun _ _ _ => ReserveService.tells_turn) state' stored

end Run

/-- A lone pass attempts every record of its list just when it gets over each record before the
last, by the database that the record's turn finds and the answer that the acquirer gives in it;
and what its turns commit is in the database, whatever others have raised. -/
theorem pass_attempts_iff {settings : Settings} {db : Database} {world : World}
    (unique : Schema.Unique (S := schema) db)
    (headed : ∀ entry ∈ db.entries, ∃ transaction ∈ db.transactions,
      transaction.id = entry.transactionId)
    (pass : Pass) {past : List Choice} {stack : List (Session system)}
    {result : Except Exception Nat} {shared : Shared system}
    (hrun : FairRun freshIds (.lone [] (pass.run settings).run ⟨db, world, []⟩) past
      (.lone stack (.ret result) shared)) :
    ((∀ record ∈ pass.due db, (0, pass.opens record) ∈ shared.trace) ↔
      ∀ before record after, shared.trace = before ++ (0, pass.opens record) :: after →
        record ∈ (pass.due db).dropLast → pass.Takes settings record (replay db before) after) ∧
    shared.committed = replay db shared.trace := by
  have begun : LoneState db (⟨db, world, []⟩ : Shared system) := ⟨rfl, unique, headed⟩
  obtain ⟨world', hpost⟩ := (pass.tells_run begun rfl rfl []).every hrun
  have ended : pass.Ended settings db (shared.drifted world') := by
    cases result with
    | ok value => exact hpost
    | error raised => exact hpost
  obtain ⟨writes, rest, htrace, goes⟩ := ended.turns
  have htrace' : shared.trace =
      [(0, .began pass.listing), (0, .committed pass.listing writes)] ++ rest := htrace
  refine ⟨?_, ended.replayed⟩
  rw [htrace']
  refine goes.attempted_iff (pass.nodup_due unique) fun record _ hlisted => ?_
  cases pass <;> simp [Pass.opens, Pass.listing] at hlisted

def sampleOpenAttempt (id : String) (status : AttemptStatus) : CaptureAttempt where
  id := id
  chargeId := "ch_1"
  itemId := none
  acquirer := "northgate"
  acquirerIdempotencyKey := "capture:sb_1:" ++ id
  amountMinor := 500
  currency := "EUR"
  status := status
  responseReference := none
  lastErrorCode := none
  requestedAt := 5
  completedAt := none

def sampleAttempts : Database :=
  { attempts := [sampleOpenAttempt "cap_1" .pending, sampleOpenAttempt "cap_2" .indeterminate] }

/-- The first worker has ended, with an error or without. -/
def ended (raised : Bool) (config : Config system (Except Exception Nat)) : Bool :=
  match config.workers with
  | ⟨_, .ret result⟩ :: _ => decide (result.isOk ≠ raised)
  | _ => false

theorem exists_of_ended {raised : Bool} {config : Config system (Except Exception Nat)}
    (h : ended raised config = true) :
    ∃ stack result, config.workers[0]? = some ⟨stack, .ret result⟩ ∧ result.isOk ≠ raised := by
  unfold ended at h
  split at h
  · next stack result _ hworkers =>
      refine ⟨stack, result, ?_, of_decide_eq_true h⟩
      rw [hworkers]
      rfl
  · cases h

/-- A capture that is lost on the way and a status that nobody knows end no pass. -/
theorem pass_attempts_iff_attempts :
    ∃ past stack result shared,
      FairRun freshIds (.lone [] ((Pass.processPending 100).run sampleSettings).run
        ⟨sampleAttempts, { clock := 10 }, []⟩) past (.lone stack (.ret result) shared) ∧
      ∀ record ∈ (Pass.processPending 100).due sampleAttempts,
        (0, (Pass.processPending 100).opens record) ∈ shared.trace := by
  let choices : List Choice := List.replicate 6 .plain ++
    [.capture (.indeterminate "processor_timeout" true)] ++ List.replicate 8 .plain ++
    [.status ⟨.unknown, none⟩]
  have hfair : ∀ choice ∈ choices, ∀ past world db, freshIds past world db choice := by
    intro choice hchoice past world db
    simp only [choices, List.mem_append, List.mem_replicate, List.mem_singleton] at hchoice
    rcases hchoice with ((⟨-, rfl⟩ | rfl) | ⟨-, rfl⟩) | rfl <;> trivial
  have hschedule : ((Config.lone [] ((Pass.processPending 100).run sampleSettings).run
      ⟨sampleAttempts, { clock := 10 }, []⟩).schedule anyMove (choices.map (.advance 0))).map
        (fun config => ended false config &&
          config.shared.trace.all fun entry => !unhandled entry.2) = some true := by
    decide +kernel
  obtain ⟨config, hconfig, hchecked⟩ := Option.map_eq_some_iff.mp hschedule
  rw [Bool.and_eq_true, List.all_eq_true] at hchecked
  obtain ⟨hended, hhandled⟩ := hchecked
  have hrun := FairRun.start.of_schedule hfair hconfig
  obtain ⟨stack, program, shared, rfl⟩ := hrun.lone
  obtain ⟨_, result, hstate, -⟩ := exists_of_ended hended
  obtain ⟨rfl, rfl⟩ := Worker.mk.inj (Option.some.inj hstate)
  refine ⟨_, stack, result, shared, hrun, ?_⟩
  have unique : Schema.Unique (S := schema) sampleAttempts := by
    refine Schema.unique_of_pairwise fun table => ?_
    cases table <;> simp [Table.rows, Table.keys, sampleAttempts, sampleOpenAttempt]
  refine (pass_attempts_iff unique (fun _ h => by cases h) (.processPending 100) hrun).1.mpr ?_
  intro before record after htrace _ answer hanswer
  obtain ⟨entry, hentry, rfl⟩ := List.mem_map.mp (List.mem_of_find?_eq_some hanswer)
  have hmem : entry ∈ shared.trace := by
    rw [htrace]
    exact List.mem_append_right _ (List.mem_cons_of_mem _ hentry)
  simpa using hhandled entry hmem

/-- The transactions that a worker began. -/
def begun (worker : Nat) (shared : Shared system) : List SessionName :=
  (shared.eventsOf worker).filterMap fun
    | .began name => some name
    | _ => none

theorem began_mem_iff {worker : Nat} {shared : Shared system} {name : SessionName} :
    Event.began name ∈ shared.eventsOf worker ↔ name ∈ begun worker shared := by
  unfold begun
  rw [List.mem_filterMap]
  constructor
  · intro h
    exact ⟨.began name, h, rfl⟩
  · rintro ⟨event, hevent, hname⟩
    cases event <;> simp only [reduceCtorEq, Option.some.injEq] at hname
    rwa [← hname]

def sampleReconciled : SettlementBatch where
  id := "sb_1"
  currency := "EUR"
  processingDate := 7
  acquirer := "northgate"
  fileReference := "northgate-7-EUR"
  expectedTotalMinor := 940
  postedTotalMinor := 940
  fundedAmountMinor := 0
  fundingEventId := none
  itemCount := 2
  status := .reconciled
  closedAt := some 5
  reconciledAt := some 6
  fundedAt := none
  livemode := true

def sampleCredit (id bankReference : String) : FundingEvent where
  id := id
  acquirer := "northgate"
  currency := "EUR"
  amountMinor := 940
  valueDate := 8
  bankReference := bankReference
  status := .unmatched
  matchedBatchId := none
  varianceMinor := 0
  receivedAt := 7
  livemode := true

def sampleCredits : Config system (Except Exception Nat) :=
  Config.start
    { batches := [sampleReconciled]
      fundings := [sampleCredit "fe_1" "STMT:1", sampleCredit "fe_2" "STMT-2"] }
    { clock := 10 } [((Pass.matchPending 200).run sampleSettings).run]

/-- The first of two credits has a separator in its bank reference: the key of its posting
is refused, the pass ends, and the second credit is not looked at. -/
theorem separator_ends_pass :
    ∃ config, Config.Run anyMove sampleCredits config ∧
      (∃ stack raised, config.workers[0]? = some ⟨stack, .ret (.error raised)⟩) ∧
      "fe_2" ∈ (Pass.matchPending 200).due sampleCredits.shared.committed ∧
      Event.began (SessionName.fundingMatch "fe_2") ∉ config.shared.eventsOf 0 := by
  have hschedule : (sampleCredits.schedule anyMove (advances 0 (List.replicate 7 .plain))).map
        (fun config => (ended true config, begun 0 config.shared)) =
      some (true, [.fundingList, .fundingMatch "fe_1"]) := by
    decide +kernel
  obtain ⟨config, hconfig, hends⟩ := Option.map_eq_some_iff.mp hschedule
  obtain ⟨hended, hbegun⟩ := Prod.mk.inj hends
  obtain ⟨stack, result, hstate, hraised⟩ := exists_of_ended hended
  refine ⟨config, Config.run_of_schedule hconfig, ?_, by decide +kernel, ?_⟩
  · cases result with
    | ok value => exact absurd rfl hraised
    | error raised => exact ⟨stack, raised, hstate⟩
  · rw [began_mem_iff, hbegun]
    simp

end PayzenoLedger
