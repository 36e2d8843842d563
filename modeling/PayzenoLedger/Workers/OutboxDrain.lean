import PayzenoLedger.Models
import Mathlib.Data.List.Sort

/-!
# The outbox drain

Any number of workers drain the outbox: a tick reads the oldest unpublished rows below
its own attempt ceiling, hands each to the bus and marks the answer in a transaction of
its own.  The ceiling of the drain is lower than the count at which a row is marked
dead, and the backoff that a failure books is read by nobody.
-/

set_option autoImplicit false

namespace PayzenoLedger

/-! ## Rows -/

/-- The columns of `event_outbox` that the drain reads and writes. -/
structure OutboxRow where
  id : String
  occurredAt : Instant
  publishedAt : Option Instant := none
  attemptCount : Nat := 0
  nextAttemptAt : Instant
  deadAt : Option Instant := none
  lastError : Option String := none
deriving DecidableEq, Repr

/-- What the bus answers; a refusal carries the code of its error. -/
inductive PublishOutcome where
  | published
  | refused (code : String)
deriving DecidableEq, Repr

namespace OutboxDrainJob

/-- `BATCH_SIZE`. -/
def batchSize : Nat := 100

/-- `MAX_PUBLISH_ATTEMPTS`, the ceiling of the drain. -/
def maxPublishAttempts : Nat := 10

end OutboxDrainJob

namespace EventOutboxRepository

/-- `MAX_ATTEMPTS`, at which a row is dead-lettered. -/
def maxAttempts : Nat := 12

/-- Unpublished and below the caller's ceiling. -/
def isUnpublished (maxAttempts : Nat) (row : OutboxRow) : Bool :=
  row.publishedAt.isNone && decide (row.attemptCount < maxAttempts)

/-- A plain read, oldest first. -/
def listUnpublished (limit maxAttempts : Nat) (rows : List OutboxRow) : List OutboxRow :=
  ((rows.filter (isUnpublished maxAttempts)).insertionSort
    fun first second => first.occurredAt ≤ second.occurredAt).take limit

/-- The columns that `mark_published` sets. -/
def markPublished (at_ : Instant) (row : OutboxRow) : OutboxRow :=
  { row with publishedAt := some at_, lastError := none }

/-- `base_seconds ** attempt_count` with a fifth of jitter, at least a second. -/
def withinOutboxBackoff (attemptCount : Nat) (stamp next : Instant) : Bool :=
  decide (stamp + max 1000000 (2 ^ attemptCount * 800000) ≤ next ∧
    next ≤ stamp + max 1000000 (2 ^ attemptCount * 1200000))

/-- The columns that `mark_failed` sets, from the count that it read: dead at the last
attempt, else due again after the backoff. -/
def markFailed (attemptCount : Nat) (error : String) (stamp next : Instant) (row : OutboxRow) :
    OutboxRow :=
  let row := { row with
    attemptCount := attemptCount + 1
    lastError := some (String.ofList (error.toList.take 1000)) }
  if maxAttempts ≤ attemptCount + 1 then { row with deadAt := some stamp }
  else { row with nextAttemptAt := next }

end EventOutboxRepository

/-! ## Ticks -/

/-- Where a worker stands: between two ticks, about to hand on the next row that it has
read, between the bus's answer and the mark, or in the transaction of the mark. -/
inductive DrainWorker where
  | idle
  | publishing (staged : List String)
  | answered (id : String) (outcome : PublishOutcome) (staged : List String)
  | marking (read : OutboxRow) (outcome : PublishOutcome) (staged : List String)
deriving DecidableEq, Repr

/-- The rows, the clock and the workers. -/
structure DrainState where
  now : Instant
  rows : List OutboxRow
  workers : Nat → DrainWorker

namespace DrainState

def withWorker (state : DrainState) (worker : Nat) (next : DrainWorker) : DrainState :=
  { state with workers := Function.update state.workers worker next }

/-- One row is rewritten. -/
def rewrite (state : DrainState) (id : String) (change : OutboxRow → OutboxRow) : DrainState :=
  { state with rows := state.rows.map fun row => if row.id = id then change row else row }

@[simp]
theorem withWorker_rows (state : DrainState) (worker : Nat) (next : DrainWorker) :
    (state.withWorker worker next).rows = state.rows :=
  rfl

@[simp]
theorem withWorker_self (state : DrainState) (worker : Nat) (next : DrainWorker) :
    (state.withWorker worker next).workers worker = next :=
  Function.update_self ..

theorem withWorker_of_ne (state : DrainState) {worker other : Nat} (next : DrainWorker)
    (h : other ≠ worker) : (state.withWorker worker next).workers other = state.workers other :=
  Function.update_of_ne h ..

/-- What the drain has read of the rows: the ids that it hands to the bus. -/
def selected (state : DrainState) : List OutboxRow :=
  EventOutboxRepository.listUnpublished OutboxDrainJob.batchSize
    OutboxDrainJob.maxPublishAttempts state.rows

end DrainState

/-- What happens next to the outbox. -/
inductive DrainAction where
  | advance (later : Instant)
  | stage (id : String) (occurredAt : Instant)
  | tick (worker : Nat)
  | publish (worker : Nat) (outcome : PublishOutcome)
  | read (worker : Nat)
  | mark (worker : Nat) (next : Instant)
  | finish (worker : Nat)
  | abort (worker : Nat)
deriving DecidableEq

open EventOutboxRepository in
/-- The steps of `run_once` in every worker, of the clock and of the transactions that stage
rows.  A tick may be aborted wherever it stands: by another exception than a refusal, or by
the end of its task. -/
inductive DrainStep : DrainState → DrainAction → DrainState → Prop where
  | advance {state : DrainState} {later : Instant} (h : state.now ≤ later) :
      DrainStep state (.advance later) { state with now := later }
  | stage {state : DrainState} {id : String} {occurredAt : Instant}
      (h : ∀ row ∈ state.rows, row.id ≠ id) :
      DrainStep state (.stage id occurredAt)
        { state with rows := state.rows ++ [{ id, occurredAt, nextAttemptAt := state.now }] }
  | tick {state : DrainState} {worker : Nat} (h : state.workers worker = .idle) :
      DrainStep state (.tick worker)
        (state.withWorker worker (.publishing (state.selected.map OutboxRow.id)))
  | publish {state : DrainState} {worker : Nat} {outcome : PublishOutcome} {id : String}
      {staged : List String} (h : state.workers worker = .publishing (id :: staged)) :
      DrainStep state (.publish worker outcome)
        (state.withWorker worker (.answered id outcome staged))
  | read {state : DrainState} {worker : Nat} {outcome : PublishOutcome} {id : String}
      {staged : List String} {row : OutboxRow}
      (h : state.workers worker = .answered id outcome staged) (hrow : row ∈ state.rows)
      (hid : row.id = id) :
      DrainStep state (.read worker) (state.withWorker worker (.marking row outcome staged))
  | markPublished {state : DrainState} {worker : Nat} {next : Instant} {row : OutboxRow}
      {staged : List String} (h : state.workers worker = .marking row .published staged) :
      DrainStep state (.mark worker next)
        ((state.rewrite row.id (markPublished state.now)).withWorker worker (.publishing staged))
  | markFailed {state : DrainState} {worker : Nat} {next : Instant} {row : OutboxRow}
      {code : String} {staged : List String}
      (h : state.workers worker = .marking row (.refused code) staged)
      (hnext : withinOutboxBackoff (row.attemptCount + 1) state.now next = true) :
      DrainStep state (.mark worker next)
        ((state.rewrite row.id (markFailed row.attemptCount code state.now next)).withWorker
          worker (.publishing staged))
  | finish {state : DrainState} {worker : Nat} (h : state.workers worker = .publishing []) :
      DrainStep state (.finish worker) (state.withWorker worker .idle)
  | abort {state : DrainState} {worker : Nat} :
      DrainStep state (.abort worker) (state.withWorker worker .idle)

/-- The steps of a run, one after the other, each of which meets a condition. -/
inductive DrainRun (Meets : DrainState → DrainAction → Prop) :
    DrainState → List DrainAction → DrainState → Prop where
  | refl (state : DrainState) : DrainRun Meets state [] state
  | tail {first state next : DrainState} {actions : List DrainAction} {action : DrainAction}
      (run : DrainRun Meets first actions state) (step : DrainStep state action next)
      (meets : Meets state action) : DrainRun Meets first (actions ++ [action]) next

/-- An outbox whose rows, if any, were just staged, before any tick. -/
structure DrainStart (state : DrainState) : Prop where
  nodup : (state.rows.map OutboxRow.id).Nodup
  staged : ∀ row ∈ state.rows,
    row.publishedAt = none ∧ row.attemptCount = 0 ∧ row.deadAt = none
  idle : ∀ worker, state.workers worker = .idle

/-! ## The law -/

/-- Published, or still read by a later tick, or marked dead. -/
def OutboxRow.IsKept (row : OutboxRow) : Prop :=
  row.publishedAt.isSome = true ∨
    EventOutboxRepository.isUnpublished OutboxDrainJob.maxPublishAttempts row = true ∨
    row.deadAt.isSome = true

instance (row : OutboxRow) : Decidable row.IsKept :=
  inferInstanceAs (Decidable (_ ∨ _ ∨ _))

/-- The row that an action stages. -/
def DrainAction.staged : DrainAction → Option String
  | .stage id _ => some id
  | _ => none

/-- Every row that was staged is kept, and a row that failed is handed to the bus only when
its next attempt is due. -/
structure DropsNothing (first : DrainState) (actions : List DrainAction) (state : DrainState) :
    Prop where
  kept : ∀ id ∈ first.rows.map OutboxRow.id ++ actions.filterMap DrainAction.staged,
    ∃ row ∈ state.rows, row.id = id ∧ row.IsKept
  paced : ∀ worker id staged, state.workers worker = .publishing (id :: staged) →
    ∀ row ∈ state.rows, row.id = id → 0 < row.attemptCount → row.nextAttemptAt ≤ state.now

/-- The rows that the worker may still hand to the bus. -/
def DrainWorker.pending : DrainWorker → List String
  | .idle => []
  | .publishing staged => staged
  | .answered _ _ staged => staged
  | .marking _ _ staged => staged

/-- A tick finds every row due that failed before; a refusal is booked on a row that is
published or dead by then, or that stays below the ceiling of the drain or reaches that of
the dead letters, and that no other worker has still to hand on. -/
def DrainMeets (state : DrainState) : DrainAction → Prop
  | .tick _ => ∀ row ∈ state.selected, 0 < row.attemptCount → row.nextAttemptAt ≤ state.now
  | .mark worker _ => ∀ read code staged,
      state.workers worker = .marking read (.refused code) staged →
        (∀ row ∈ state.rows, row.id = read.id →
          row.publishedAt.isSome = true ∨ row.deadAt.isSome = true ∨
            read.attemptCount + 1 < OutboxDrainJob.maxPublishAttempts ∨
            EventOutboxRepository.maxAttempts ≤ read.attemptCount + 1) ∧
        ∀ other, other ≠ worker → read.id ∉ (state.workers other).pending
  | _ => True

/-! ## What a step keeps -/

section Rows

variable {rows : List OutboxRow} {row : OutboxRow}

theorem mem_listUnpublished {limit maxAttempts : Nat}
    (h : row ∈ EventOutboxRepository.listUnpublished limit maxAttempts rows) :
    row ∈ rows ∧ EventOutboxRepository.isUnpublished maxAttempts row = true :=
  List.mem_filter.mp ((List.mem_insertionSort _).mp (List.mem_of_mem_take h))

theorem nodup_listUnpublished {limit maxAttempts : Nat}
    (h : (rows.map OutboxRow.id).Nodup) :
    ((EventOutboxRepository.listUnpublished limit maxAttempts rows).map OutboxRow.id).Nodup := by
  have hsub : List.Sublist (EventOutboxRepository.listUnpublished limit maxAttempts rows)
      ((rows.filter (EventOutboxRepository.isUnpublished maxAttempts)).insertionSort
        fun first second => first.occurredAt ≤ second.occurredAt) :=
    List.take_sublist _ _
  refine (hsub.map OutboxRow.id).nodup ?_
  rw [((List.perm_insertionSort _ _).map OutboxRow.id).nodup_iff]
  exact (List.filter_sublist.map OutboxRow.id).nodup h

theorem markPublished_isKept (at_ : Instant) :
    (EventOutboxRepository.markPublished at_ row).IsKept :=
  .inl rfl

theorem markFailed_isKept {attemptCount : Nat} (error : String) (stamp next : Instant)
    (h : row.publishedAt.isSome = true ∨ row.deadAt.isSome = true ∨
      attemptCount + 1 < OutboxDrainJob.maxPublishAttempts ∨
      EventOutboxRepository.maxAttempts ≤ attemptCount + 1) :
    (EventOutboxRepository.markFailed attemptCount error stamp next row).IsKept := by
  unfold EventOutboxRepository.markFailed OutboxRow.IsKept
  dsimp only
  split
  · exact .inr (.inr rfl)
  · next hbelow =>
      rcases h with hpublished | hdead | hceiling | hlast
      · exact .inl hpublished
      · exact .inr (.inr hdead)
      · cases hpublished : row.publishedAt with
        | none =>
            refine .inr (.inl ?_)
            simp [EventOutboxRepository.isUnpublished, hceiling]
        | some at_ => exact .inl rfl
      · exact absurd hlast hbelow

theorem markPublished_id (at_ : Instant) :
    (EventOutboxRepository.markPublished at_ row).id = row.id :=
  rfl

theorem markFailed_id (attemptCount : Nat) (error : String) (stamp next : Instant) :
    (EventOutboxRepository.markFailed attemptCount error stamp next row).id = row.id := by
  unfold EventOutboxRepository.markFailed
  dsimp only
  split <;> rfl

end Rows

/-- The ids that a worker has read and not yet marked. -/
def DrainWorker.held : DrainWorker → List String
  | .idle => []
  | .publishing staged => staged
  | .answered id _ staged => id :: staged
  | .marking read _ staged => read.id :: staged

/-- What holds in every state of a run whose steps meet the condition. -/
structure DrainInvariant (first : DrainState) (actions : List DrainAction)
    (state : DrainState) : Prop where
  ids : state.rows.map OutboxRow.id =
    first.rows.map OutboxRow.id ++ actions.filterMap DrainAction.staged
  nodup : (state.rows.map OutboxRow.id).Nodup
  kept : ∀ row ∈ state.rows, row.IsKept
  held : ∀ worker, (state.workers worker).held.Nodup
  due : ∀ worker, ∀ id ∈ (state.workers worker).pending, ∀ row ∈ state.rows, row.id = id →
    0 < row.attemptCount → row.nextAttemptAt ≤ state.now

section Step

variable {first state next : DrainState} {actions : List DrainAction} {action : DrainAction}

theorem drainInvariant_start (start : DrainStart first) : DrainInvariant first [] first where
  ids := by simp
  nodup := start.nodup
  kept row hrow := by
    obtain ⟨hpublished, hcount, -⟩ := start.staged row hrow
    refine .inr (.inl ?_)
    simp [EventOutboxRepository.isUnpublished, hpublished, hcount,
      OutboxDrainJob.maxPublishAttempts]
  held worker := by
    rw [start.idle]
    exact List.nodup_nil
  due worker id hid := by
    rw [start.idle] at hid
    cases hid

/-- A worker goes on to what it had to do anyway. -/
theorem DrainInvariant.withWorker (invariant : DrainInvariant first actions state)
    (worker : Nat) (after : DrainWorker) (hheld : after.held.Nodup)
    (hpending : ∀ id ∈ after.pending, id ∈ (state.workers worker).pending) :
    DrainInvariant first actions (state.withWorker worker after) where
  ids := invariant.ids
  nodup := invariant.nodup
  kept := invariant.kept
  held other := by
    by_cases hsame : other = worker
    · rw [hsame, DrainState.withWorker_self]
      exact hheld
    · rw [state.withWorker_of_ne after hsame]
      exact invariant.held other
  due other id hid := by
    by_cases hsame : other = worker
    · rw [hsame, DrainState.withWorker_self] at hid
      exact invariant.due worker id (hpending id hid)
    · rw [state.withWorker_of_ne after hsame] at hid
      exact invariant.due other id hid

/-- A row that is rewritten and stays kept: what is due of it stays, or nobody has still to
hand it on. -/
theorem DrainInvariant.rewrite (invariant : DrainInvariant first actions state) (id : String)
    {change : OutboxRow → OutboxRow} (hid : ∀ row, (change row).id = row.id)
    (hkept : ∀ row ∈ state.rows, row.id = id → (change row).IsKept)
    (hdue : (∀ row, (change row).attemptCount = row.attemptCount ∧
        (change row).nextAttemptAt = row.nextAttemptAt) ∨
      ∀ worker, id ∉ (state.workers worker).pending) :
    DrainInvariant first actions (state.rewrite id change) := by
  have hids : (state.rewrite id change).rows.map OutboxRow.id = state.rows.map OutboxRow.id := by
    unfold DrainState.rewrite
    rw [List.map_map]
    refine List.map_congr_left fun row _ => ?_
    dsimp only [Function.comp_apply]
    split
    · exact hid row
    · rfl
  constructor
  · rw [hids]
    exact invariant.ids
  · rw [hids]
    exact invariant.nodup
  · intro row hrow
    obtain ⟨old, hold, rfl⟩ := List.mem_map.mp hrow
    split
    · next hsame => exact hkept old hold hsame
    · exact invariant.kept old hold
  · exact invariant.held
  · intro worker pending hpending row hrow hrowId hcount
    obtain ⟨old, hold, rfl⟩ := List.mem_map.mp hrow
    by_cases hsame : old.id = id
    · rw [if_pos hsame] at hrowId hcount ⊢
      rw [hid] at hrowId
      rcases hdue with hkeeps | hnobody
      · rw [(hkeeps old).1] at hcount
        rw [(hkeeps old).2]
        exact invariant.due worker pending hpending old hold hrowId hcount
      · rw [← hrowId, hsame] at hpending
        exact absurd hpending (hnobody worker)
    · rw [if_neg hsame] at hrowId hcount ⊢
      exact invariant.due worker pending hpending old hold hrowId hcount

theorem DrainInvariant.notStaged (invariant : DrainInvariant first actions state)
    (action : DrainAction) (hstaged : action.staged = none) :
    DrainInvariant first (actions ++ [action]) state :=
  { invariant with
    ids := by
      rw [invariant.ids, List.filterMap_append, List.filterMap_cons_none hstaged,
        List.filterMap_nil, List.append_nil] }

/-- A tick that finds every row due that failed before. -/
theorem DrainInvariant.tick (invariant : DrainInvariant first actions state) {worker : Nat}
    (hdue : ∀ row ∈ state.selected, 0 < row.attemptCount → row.nextAttemptAt ≤ state.now) :
    DrainInvariant first actions
      (state.withWorker worker (.publishing (state.selected.map OutboxRow.id))) where
  ids := invariant.ids
  nodup := invariant.nodup
  kept := invariant.kept
  held other := by
    by_cases hsame : other = worker
    · rw [hsame, DrainState.withWorker_self]
      exact nodup_listUnpublished invariant.nodup
    · rw [state.withWorker_of_ne _ hsame]
      exact invariant.held other
  due other id hid row hrow hrowId hcount := by
    by_cases hsame : other = worker
    · rw [hsame, DrainState.withWorker_self] at hid
      obtain ⟨read, hread, rfl⟩ := List.mem_map.mp hid
      have hrows := (mem_listUnpublished hread).1
      obtain rfl := List.inj_on_of_nodup_map invariant.nodup hrow hrows hrowId
      exact hdue row hread hcount
    · rw [state.withWorker_of_ne _ hsame] at hid
      exact invariant.due other id hid row hrow hrowId hcount

theorem DrainInvariant.stage (invariant : DrainInvariant first actions state) {id : String}
    {occurredAt : Instant} (hfresh : ∀ row ∈ state.rows, row.id ≠ id) :
    DrainInvariant first (actions ++ [.stage id occurredAt])
      { state with rows := state.rows ++ [{ id, occurredAt, nextAttemptAt := state.now }] } where
  ids := by
    simp [invariant.ids, DrainAction.staged, List.append_assoc]
  nodup := by
    rw [List.map_append, List.nodup_append]
    refine ⟨invariant.nodup, List.nodup_singleton _, ?_⟩
    intro old hold new hnew
    obtain ⟨row, hrow, rfl⟩ := List.mem_map.mp hold
    rw [List.map_singleton, List.mem_singleton] at hnew
    rw [hnew]
    exact hfresh row hrow
  kept row hrow := by
    rcases List.mem_append.mp hrow with hold | hnew
    · exact invariant.kept row hold
    · rw [List.mem_singleton.mp hnew]
      exact .inr (.inl rfl)
  held := invariant.held
  due worker pending hpending row hrow hrowId hcount := by
    rcases List.mem_append.mp hrow with hold | hnew
    · exact invariant.due worker pending hpending row hold hrowId hcount
    · rw [List.mem_singleton.mp hnew] at hcount
      exact absurd hcount (lt_irrefl 0)

/-- Every step that meets the condition keeps the invariant. -/
theorem DrainInvariant.step (invariant : DrainInvariant first actions state)
    (step : DrainStep state action next) (meets : DrainMeets state action) :
    DrainInvariant first (actions ++ [action]) next := by
  cases step with
  | @advance later hlater =>
      refine DrainInvariant.notStaged ?_ (.advance later) rfl
      exact { invariant with
        due := fun worker id hid row hrow hrowId hcount =>
          le_trans (invariant.due worker id hid row hrow hrowId hcount) hlater }
  | stage hfresh => exact invariant.stage hfresh
  | @tick worker hidle => exact (invariant.tick meets).notStaged (.tick worker) rfl
  | @publish worker outcome id staged h =>
      refine DrainInvariant.notStaged ?_ (.publish worker outcome) rfl
      have hheld := invariant.held worker
      rw [h] at hheld
      refine invariant.withWorker worker _ hheld fun pending hpending => ?_
      rw [h]
      exact List.mem_cons_of_mem _ hpending
  | @read worker outcome id staged row h hrow hid =>
      refine DrainInvariant.notStaged ?_ (.read worker) rfl
      have hheld := invariant.held worker
      rw [h] at hheld
      refine invariant.withWorker worker _ ?_ fun pending hpending => ?_
      · rw [DrainWorker.held, hid]
        exact hheld
      · rw [h]
        exact hpending
  | @markPublished worker next row staged h =>
      refine DrainInvariant.notStaged ?_ (.mark worker next) rfl
      have hheld := invariant.held worker
      rw [h] at hheld
      have hrewritten := invariant.rewrite row.id (fun _ => markPublished_id state.now)
        (fun _ _ _ => markPublished_isKept state.now) (.inl fun _ => ⟨rfl, rfl⟩)
      refine hrewritten.withWorker worker _ (List.nodup_cons.mp hheld).2
        fun pending hpending => ?_
      change pending ∈ (state.workers worker).pending
      rw [h]
      exact hpending
  | @markFailed worker next row code staged h hnext =>
      refine DrainInvariant.notStaged ?_ (.mark worker next) rfl
      have hheld := invariant.held worker
      rw [h] at hheld
      obtain ⟨hcounts, hothers⟩ := meets row code staged h
      have hrewritten := invariant.rewrite row.id
        (fun _ => markFailed_id row.attemptCount code state.now next)
        (fun old hold hid => markFailed_isKept code state.now next (hcounts old hold hid))
        (.inr fun other => by
          by_cases hsame : other = worker
          · rw [hsame, h]
            exact (List.nodup_cons.mp hheld).1
          · exact hothers other hsame)
      refine hrewritten.withWorker worker _ (List.nodup_cons.mp hheld).2
        fun pending hpending => ?_
      change pending ∈ (state.workers worker).pending
      rw [h]
      exact hpending
  | @finish worker h =>
      exact (invariant.withWorker worker .idle List.nodup_nil fun _ h => by cases h).notStaged
        (.finish worker) rfl
  | @abort worker =>
      exact (invariant.withWorker worker .idle List.nodup_nil fun _ h => by cases h).notStaged
        (.abort worker) rfl

theorem drainInvariant_run (start : DrainStart first)
    (run : DrainRun DrainMeets first actions state) : DrainInvariant first actions state := by
  induction run with
  | refl => exact drainInvariant_start start
  | tail run step meets ih => exact ih.step step meets

end Step

/-- In every run whose steps meet the condition the outbox drops nothing, in every state. -/
theorem outbox_drops_nothing (first : DrainState) (start : DrainStart first)
    (actions : List DrainAction) (state : DrainState)
    (run : DrainRun DrainMeets first actions state) : DropsNothing first actions state := by
  have invariant := drainInvariant_run start run
  constructor
  · intro id hid
    rw [← invariant.ids] at hid
    obtain ⟨row, hrow, hrowId⟩ := List.mem_map.mp hid
    exact ⟨row, hrow, hrowId, invariant.kept row hrow⟩
  · intro worker id staged hworker
    refine invariant.due worker id ?_
    rw [hworker]
    exact List.mem_cons_self

/-! ## Runs on a schedule -/

open EventOutboxRepository in
/-- One step, when the action is possible. -/
def drainStep (state : DrainState) : DrainAction → Option DrainState
  | .advance later => if state.now ≤ later then some { state with now := later } else none
  | .stage id occurredAt =>
      if ∀ row ∈ state.rows, row.id ≠ id then
        some { state with rows := state.rows ++ [{ id, occurredAt, nextAttemptAt := state.now }] }
      else none
  | .tick worker =>
      match state.workers worker with
      | .idle =>
          some (state.withWorker worker (.publishing (state.selected.map OutboxRow.id)))
      | _ => none
  | .publish worker outcome =>
      match state.workers worker with
      | .publishing (id :: staged) =>
          some (state.withWorker worker (.answered id outcome staged))
      | _ => none
  | .read worker =>
      match state.workers worker with
      | .answered id outcome staged =>
          (state.rows.find? fun row => row.id = id).map fun row =>
            state.withWorker worker (.marking row outcome staged)
      | _ => none
  | .mark worker next =>
      match state.workers worker with
      | .marking row .published staged =>
          some ((state.rewrite row.id (markPublished state.now)).withWorker worker
            (.publishing staged))
      | .marking row (.refused code) staged =>
          if withinOutboxBackoff (row.attemptCount + 1) state.now next then
            some ((state.rewrite row.id
              (markFailed row.attemptCount code state.now next)).withWorker worker
                (.publishing staged))
          else none
      | _ => none
  | .finish worker =>
      match state.workers worker with
      | .publishing [] => some (state.withWorker worker .idle)
      | _ => none
  | .abort worker => some (state.withWorker worker .idle)

theorem drainStep_refused {state : DrainState} {worker : Nat} {row : OutboxRow} {code : String}
    {staged : List String} {next : Instant}
    (h : state.workers worker = .marking row (.refused code) staged)
    (hnext : EventOutboxRepository.withinOutboxBackoff (row.attemptCount + 1) state.now
      next = true) :
    drainStep state (.mark worker next) =
      some ((state.rewrite row.id (EventOutboxRepository.markFailed row.attemptCount code state.now
        next)).withWorker worker (.publishing staged)) := by
  simp only [drainStep, h]
  rw [if_pos hnext]

theorem drainStep_sound {state next : DrainState} {action : DrainAction}
    (h : drainStep state action = some next) : DrainStep state action next := by
  cases action with
  | advance later =>
      simp only [drainStep] at h
      split at h
      · next hlater =>
          cases h
          exact .advance hlater
      · cases h
  | stage id occurredAt =>
      simp only [drainStep] at h
      split at h
      · next hfresh =>
          cases h
          exact .stage hfresh
      · cases h
  | tick worker =>
      simp only [drainStep] at h
      split at h
      · next hidle =>
          cases h
          exact .tick hidle
      · cases h
  | publish worker outcome =>
      simp only [drainStep] at h
      split at h
      · next hworker =>
          cases h
          exact .publish hworker
      · cases h
  | read worker =>
      simp only [drainStep] at h
      split at h
      · next hworker =>
          obtain ⟨row, hfind, rfl⟩ := Option.map_eq_some_iff.mp h
          have hid := List.find?_some hfind
          exact .read hworker (List.mem_of_find?_eq_some hfind) (of_decide_eq_true hid)
      · cases h
  | mark worker later =>
      simp only [drainStep] at h
      split at h
      · next hworker =>
          cases h
          exact .markPublished hworker
      · next hworker =>
          split at h
          · next hnext =>
              cases h
              exact .markFailed hworker hnext
          · cases h
      · cases h
  | finish worker =>
      simp only [drainStep] at h
      split at h
      · next hworker =>
          cases h
          exact .finish hworker
      · cases h
  | abort worker =>
      cases h
      exact .abort

/-- A schedule of actions, from the first to the last. -/
def drainReplay (state : DrainState) : List DrainAction → Option DrainState
  | [] => some state
  | action :: actions => (drainStep state action).bind fun next => drainReplay next actions

theorem DrainRun.append {Meets : DrainState → DrainAction → Prop}
    {first state next : DrainState} {actions more : List DrainAction}
    (run : DrainRun Meets first actions state) (rest : DrainRun Meets state more next) :
    DrainRun Meets first (actions ++ more) next := by
  induction rest with
  | refl => exact (List.append_nil actions).symm ▸ run
  | tail _ step meets ih =>
      rw [← List.append_assoc]
      exact .tail ih step meets

/-- Each action of the schedule meets the condition in the state in which it is taken. -/
def MeetsAlong (Meets : DrainState → DrainAction → Prop) (state : DrainState) :
    List DrainAction → Prop
  | [] => True
  | action :: actions =>
      Meets state action ∧
        ∀ next, drainStep state action = some next → MeetsAlong Meets next actions

theorem drainReplay_run {Meets : DrainState → DrainAction → Prop} {state next : DrainState}
    {actions : List DrainAction} (h : drainReplay state actions = some next)
    (meets : MeetsAlong Meets state actions) : DrainRun Meets state actions next := by
  induction actions generalizing state with
  | nil =>
      cases h
      exact .refl _
  | cons action actions ih =>
      obtain ⟨between, hstep, hrest⟩ := Option.bind_eq_some_iff.mp h
      have hfirst := DrainRun.tail (.refl _) (drainStep_sound hstep) meets.1
      exact hfirst.append (ih hrest (meets.2 between hstep))

theorem meetsAlong_true (state : DrainState) (actions : List DrainAction) :
    MeetsAlong (fun _ _ => True) state actions := by
  induction actions generalizing state with
  | nil => trivial
  | cons action actions ih => exact ⟨trivial, fun next _ => ih next⟩

namespace DrainSample

/-- One row is staged. -/
def staged : DrainState where
  now := 0
  rows := [{ id := "evt_1", occurredAt := 0, nextAttemptAt := 0 }]
  workers _ := .idle

theorem start : DrainStart staged where
  nodup := by decide
  staged := by decide
  idle _ := rfl

/-- The publish of a tick is refused, and the next attempt booked without jitter; the next
tick comes five seconds later. -/
def refusedTick (failures : Nat) : List DrainAction :=
  [.tick 0, .publish 0 (.refused "internal_error"), .read 0,
   .mark 0 (failures * 5000000 + 2 ^ (failures + 1) * 1000000), .finish 0,
   .advance ((failures + 1) * 5000000)]

/-- The ticks of the first fifty seconds. -/
def refused (ticks : Nat) : List DrainAction :=
  (List.range ticks).flatMap refusedTick

/-- One tick that publishes the row, and the read of the next. -/
def published : List DrainAction :=
  [.tick 0, .publish 0 .published, .read 0, .mark 0 0, .finish 0, .tick 0]

end DrainSample

open DrainSample in
/-- The publish of a row is refused, and when its next attempt is due it is published. -/
theorem outbox_drops_nothing_published :
    ∃ state, drainReplay staged (refused 1 ++ published) = some state ∧
      state.rows = [{ id := "evt_1", occurredAt := 0, publishedAt := some 5000000
                      attemptCount := 1, nextAttemptAt := 2000000 }] ∧
      DropsNothing staged (refused 1 ++ published) state := by
  have hreplayed : (drainReplay staged (refused 1 ++ published)).map DrainState.rows =
      some [{ id := "evt_1", occurredAt := 0, publishedAt := some 5000000
              attemptCount := 1, nextAttemptAt := 2000000 }] := by
    decide +kernel
  obtain ⟨state, hreplay, hrows⟩ := Option.map_eq_some_iff.mp hreplayed
  refine ⟨state, hreplay, hrows, ?_⟩
  refine outbox_drops_nothing staged start _ state (drainReplay_run hreplay ?_)
  have hdue {state : DrainState} (h : ∀ row ∈ state.selected, 0 < row.attemptCount →
      row.nextAttemptAt ≤ state.now) : DrainMeets state (.tick 0) := h
  refine ⟨hdue (by decide +kernel), fun next h => ?_⟩
  cases h
  refine ⟨trivial, fun next h => ?_⟩
  cases h
  refine ⟨trivial, fun next h => ?_⟩
  cases h
  refine ⟨?_, fun next h => ?_⟩
  · -- The first attempt of ten, and no other worker has the row.
    rintro read code rest ⟨⟩
    refine ⟨fun row _ _ => .inr (.inr (.inl (by decide))), fun other hother => ?_⟩
    simp [DrainState.withWorker, hother, staged, DrainWorker.pending]
  rw [drainStep_refused rfl (by decide +kernel)] at h
  cases h
  refine ⟨trivial, fun next h => ?_⟩
  cases h
  refine ⟨trivial, fun next h => ?_⟩
  cases h
  refine ⟨hdue (by decide +kernel), fun next h => ?_⟩
  cases h
  refine ⟨trivial, fun next h => ?_⟩
  cases h
  refine ⟨trivial, fun next h => ?_⟩
  cases h
  refine ⟨?_, fun next h => ?_⟩
  · rintro read code rest ⟨⟩
  cases h
  refine ⟨trivial, fun next h => ?_⟩
  cases h
  exact ⟨hdue (by decide +kernel), fun _ _ => trivial⟩

open DrainSample in
/-- After ten refusals the row is neither read again nor dead; and the fourth attempt comes
three seconds before it is due. -/
theorem outbox_drops_row :
    (∃ state, DrainRun (fun _ _ => True) staged (refused 10) state ∧
      ¬ DropsNothing staged (refused 10) state) ∧
    (∃ state, DrainRun (fun _ _ => True) staged (refused 3 ++ [.tick 0]) state ∧
      ¬ DropsNothing staged (refused 3 ++ [.tick 0]) state) := by
  constructor
  · have hrows : (drainReplay staged (refused 10)).map DrainState.rows =
        some [{ id := "evt_1", occurredAt := 0, attemptCount := 10
                nextAttemptAt := 1069000000, lastError := some "internal_error" }] := by
      decide +kernel
    obtain ⟨state, hreplay, hstate⟩ := Option.map_eq_some_iff.mp hrows
    refine ⟨state, drainReplay_run hreplay (meetsAlong_true _ _), fun law => ?_⟩
    obtain ⟨row, hrow, -, hkept⟩ := law.kept "evt_1" List.mem_cons_self
    rw [hstate, List.mem_singleton] at hrow
    rw [hrow] at hkept
    exact absurd hkept (by decide)
  · have hworker : (drainReplay staged (refused 3 ++ [.tick 0])).map
        (fun state => (state.now, state.rows, state.workers 0)) =
        some (15000000,
          [{ id := "evt_1", occurredAt := 0, attemptCount := 3
             nextAttemptAt := 18000000, lastError := some "internal_error" }],
          .publishing ["evt_1"]) := by
      decide +kernel
    obtain ⟨state, hreplay, hstate⟩ := Option.map_eq_some_iff.mp hworker
    refine ⟨state, drainReplay_run hreplay (meetsAlong_true _ _), fun law => ?_⟩
    simp only [Prod.mk.injEq] at hstate
    obtain ⟨hnow, hrows, hpublishing⟩ := hstate
    have hmem : { id := "evt_1", occurredAt := 0, attemptCount := 3, nextAttemptAt := 18000000
                  lastError := some "internal_error" } ∈ state.rows := by
      rw [hrows]
      exact List.mem_singleton_self _
    have hdue := law.paced 0 "evt_1" [] hpublishing _ hmem rfl (by decide)
    rw [hnow] at hdue
    exact absurd hdue (by decide)

end PayzenoLedger
