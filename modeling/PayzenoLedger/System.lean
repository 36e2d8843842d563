import PayzenoLedger.Database
import PayzenoLedger.Metrics

/-!
# Coroutines over the database and the outside world

The environment chooses generated identifiers, server timestamps and the
answers of the acquirers and the FX provider.  An acquirer performs a capture at
most once for each idempotency key; what it answers is its own choice.  The workers of
one process share its counters.
-/

set_option autoImplicit false

namespace PayzenoLedger

open Library

/-! ## The outside world -/

/-- A capture that the acquirer performed on a cardholder. -/
structure PerformedCapture where
  idempotencyKey : String
  chargeId : String
deriving DecidableEq, Repr

/-- The clock, the captures, the process of each worker (its own unless another is named)
and the counters of each process. -/
structure World where
  clock : Instant
  captures : List PerformedCapture := []
  processes : List (Nat × Nat) := []
  counters : List (Nat × Metrics) := []
deriving DecidableEq, Repr

structure CaptureResponse where
  captured : Bool
  reference : String
deriving DecidableEq, Repr

inductive CaptureState where
  | captured
  | notCaptured
  | unknown
deriving DecidableEq, Repr

structure CaptureStatus where
  state : CaptureState
  reference : Option String
deriving DecidableEq, Repr

/-- The acquirer's treatment of a capture request.  A request whose outcome the
ledger never learns may or may not have been performed, and so may one whose answer
cannot be read. -/
inductive CaptureOutcome where
  | captured (reference : String)
  | declined (reference : String)
  | unavailable (code : String)
  | indeterminate (code : String) (performed : Bool)
  | refused (code : String)
  | raises (error : Exception) (performed : Bool)

/-- A call that leaves the coroutine.  The item of a capture is ghost: it names
the reconciliation item whose posting asked for it.  A settlement file is taken
as its parser reads it.  The counter of duplicates is a call of its own: the audits of the
process, which are no workers here, use it under other label names. -/
inductive Request where
  | confirmSettlement (acquirer acquirerReference batchId : String)
  | captureDeferred (chargeId : String) (amountMinor : Int) (currency reference : String)
      (idempotencyKey : String) (item : Option String)
  | captureStatus (acquirer idempotencyKey : String)
  | fxRates (base : String)
  | fetchSettlementFile (acquirer : String) (processingDate : Date) (currency : Option String)
  | increment (metric : String) (names : List String)
  | countDuplicate (acquirer caller : String)
deriving DecidableEq, Repr

/-- Units of each currency per one unit of the base. -/
abbrev FxRates : Type := List (String × Rat)

@[reducible]
def Request.Reply : Request → Type
  | confirmSettlement .. => Except Exception Unit
  | captureDeferred .. => Except Exception CaptureResponse
  | captureStatus .. => Except Exception CaptureStatus
  | fxRates .. => Except Exception FxRates
  | fetchSettlementFile .. => Except Exception (List ParsedSettlementLine)
  | increment .. => Except Exception Unit
  | countDuplicate .. => Except Exception Unit

/-- What the environment decides at a step. -/
inductive Choice where
  | plain
  | id (body : String)
  | instant (value : Instant)
  | row (index : Nat)
  | capture (outcome : CaptureOutcome)
  | status (status : CaptureStatus)
  | rates (rates : FxRates)
  | file (lines : List ParsedSettlementLine)
  | fails (error : Exception)

def processorUnavailable (code : String) : PayzenoLedgerError :=
  { cls := .processorUnavailableError, message := code, code }

def processorIndeterminate (code : String) : PayzenoLedgerError :=
  { cls := .processorIndeterminateError, message := code, code }

def upstreamRefused (code : String) : PayzenoLedgerError :=
  { cls := .upstreamError, message := code, code }

namespace World

/-- The acquirer honours a key once: a repeat changes nothing. -/
def perform (world : World) (idempotencyKey chargeId : String) : World :=
  if world.captures.any fun capture => capture.idempotencyKey = idempotencyKey then world
  else { world with captures := world.captures ++ [⟨idempotencyKey, chargeId⟩] }

def capture (world : World) (chargeId idempotencyKey : String) :
    CaptureOutcome → Except Exception CaptureResponse × World
  | .captured reference =>
      (.ok ⟨true, reference⟩, world.perform idempotencyKey chargeId)
  | .declined reference => (.ok ⟨false, reference⟩, world)
  | .unavailable code => (.error (.ledger (processorUnavailable code)), world)
  | .indeterminate code performed =>
      (.error (.ledger (processorIndeterminate code)),
        if performed then world.perform idempotencyKey chargeId else world)
  | .refused code => (.error (.ledger (upstreamRefused code)), world)
  | .raises error performed =>
      (.error error, if performed then world.perform idempotencyKey chargeId else world)

def process (world : World) (worker : Nat) : Nat :=
  (world.processes.lookup worker).getD worker

/-- The counters of the process of a worker. -/
def metrics (world : World) (worker : Nat) : Metrics :=
  (world.counters.lookup (world.process worker)).getD {}

def increment (world : World) (worker : Nat) (metric : String) (names : List String) :
    Except Exception Unit × World :=
  let (answer, metrics) := (world.metrics worker).increment metric names
  (answer, { world with counters := (world.process worker, metrics) :: world.counters })

def respond (worker : Nat) (request : Request) (choice : Choice) (world : World) :
    Option (request.Reply × World) :=
  match request, choice with
  | .confirmSettlement .., .plain => some (.ok (), world)
  | .confirmSettlement .., .fails error => some (.error error, world)
  | .captureDeferred chargeId _ _ _ idempotencyKey _, .capture outcome =>
      some (world.capture chargeId idempotencyKey outcome)
  | .captureStatus .., .status status => some (.ok status, world)
  | .captureStatus .., .fails error => some (.error error, world)
  | .fxRates .., .rates rates => some (.ok rates, world)
  | .fxRates .., .fails error => some (.error error, world)
  | .fetchSettlementFile .., .file lines => some (.ok lines, world)
  | .fetchSettlementFile .., .fails error => some (.error error, world)
  | .increment metric names, .plain => some (world.increment worker metric names)
  | .countDuplicate .., .plain => some (.ok (), world)
  | .countDuplicate .., .fails (.valueError message) =>
      some (.error (.valueError message), world)
  | _, _ => none

/-- Time passes. -/
def drift : Choice → World → Option World
  | .instant value, world =>
      if world.clock ≤ value then some { world with clock := value } else none
  | _, _ => none

end World

/-! ## Coroutines -/

/-- What a transaction is about to do: settle an item; give these columns to a row
that it read without a lock; attach a charge to an item; use a generated
identifier; close a batch with the totals of these items; close out a pass over a
batch that it read.  And what a pass logs when it stops at an item: the times at which it
looked at the clock. -/
inductive Mark where
  | posting (batchId itemId : String)
  | unlocked (loaded : ReconciliationItem) (status : ItemStatus) (chargeId : Option String)
  | matching (item : ReconciliationItem) (charge : SettlementCharge)
  | minted (id : String)
  | closing (batchId : String) (counted : List String)
  | reconciling (loaded : SettlementBatch)
  | overran (started instant : Instant)
deriving DecidableEq, Repr

/-- A mark that names no lock. -/
def Mark.isFree : Mark → Bool
  | .posting .. => false
  | _ => true

/-- The transactions the services open. -/
inductive SessionName where
  | ledgerCalls
  | runStart
  | sweepGuard (batchId : String)
  | sweepRead (batchId : String) (maxItems : Nat)
  | sweepItem (itemId : String)
  | sweepMarkRetryable (itemId : String)
  | sweepMarkFailed (itemId : String)
  | sweepFinish (batchId : String)
  | sweepPublish (batchId : String)
  | retryList
  | retryItem (itemId : String)
  | retryMarkRetryable (itemId : String)
  | retryMarkFailed (itemId : String)
  | manualMatch (itemId : String)
  | importFind (acquirer : String) (processingDate : Date) (currency : String)
  | importItems (acquirer : String) (processingDate : Date) (currency : Option String)
      (lines : List ParsedSettlementLine)
  | importClose (batchId : String)
  | legacyImport (acquirer fileReference : String)
  | staleBatches
  | closeBatch (batchId : String)
  | attemptList
  | attemptRead (attemptId : String)
  | attemptOutcome (attemptId : String) (status : AttemptStatus)
  | createPayout (merchantId : String)
  | cancelPayout (payoutId : String)
  | markPaid (payoutId : String)
  | markFailed (payoutId : String)
  | payoutScheduler
  | createHold (heldFromTransactionId : String) (amountMinor : Int)
  | reserveList
  | reserveRelease (holdId : String)
  | requestAdjustment (requestedBy reasonCode : String)
  | approveAdjustment (requestId approvedBy : String)
  | fundingList
  | fundingMatch (eventId : String)
  | recordFunding (batchId bankReference : String)
  | startRun (batchId : String)
deriving DecidableEq, Repr

@[reducible]
def system : System where
  schema := schema
  Advisory := Int
  Mark := Mark
  Name := SessionName
  Choice := Choice
  World := World
  Request := Request
  Reply := Request.Reply
  decAdvisory := inferInstance
  respond := World.respond
  drift := World.drift

/-- The next steps of one worker, by what the environment chooses at each. -/
def advances (worker : Nat) (choices : List Choice) : List (Action system) :=
  choices.map (Action.advance worker)

/-- A coroutine of the service: SQL statements, sessions and outside calls, any
of which may raise. -/
abbrev Async (α : Type) : Type 1 := Raising system Exception α

namespace Async

/-- Lift a pure check that may raise. -/
def check {α : Type} : Except Exception α → Async α
  | .ok value => pure value
  | .error error => throw error

/-- `new_id(prefix)`. -/
def newId (idPrefix : String) : Async String :=
  Raising.execute (.select fun _ choice _ =>
    match choice with
    | .id body => some (idPrefix ++ "_" ++ body)
    | _ => none)

/-- `clock.now()`. -/
def now : Async Instant :=
  Raising.execute (.select fun world _ _ => some world.clock)

/-- A `server_default=now()` column: the time its transaction began. -/
def transactionTime : Async Instant :=
  Raising.execute (.select fun world choice _ =>
    match choice with
    | .instant value => if value ≤ world.clock then some value else none
    | _ => none)

def select {α : Type} (query : Database → α) : Async α :=
  Raising.select (Y := system) query

/-- `scalars().first()` of a query that leaves the order open: any of its rows. -/
def first {α : Type} (query : Database → List α) : Async (Option α) :=
  Raising.execute (Y := system) (.select fun _ choice db =>
    match query db, choice with
    | [], _ => some none
    | rows, .row index => rows[index]?.map some
    | _, _ => none)

/-- `session.get(model, key)`. -/
def get (table : Table) (key : Key) : Async (Option table.Row) :=
  select fun db => (Schema.holders (S := schema) table key db).head?

/-- Raise the repository's not-found error when the row is missing. -/
def getOrRaise (table : Table) (key : Key) (missing : Exception) : Async table.Row := do
  match ← get table key with
  | some row => pure row
  | none => throw missing

/-- Insert one row and return the keys that refused it. -/
def tryInsert (table : Table) (row : table.Row) : Async (List Key) :=
  Raising.execute (Y := system) (.insert table row)

/-- `repository.add`: a refused insert is an `IntegrityError`. -/
def add (table : Table) (row : table.Row) : Async Unit := do
  match ← tryInsert table row with
  | [] => pure ()
  | _ :: _ => throw .integrityError

/-- `repository.add_all`. -/
def addAll (table : Table) : List table.Row → Async Unit
  | [] => pure ()
  | row :: rows => do
      add table row
      addAll table rows

/-- `UPDATE` of the row under a key. -/
def update (table : Table) (key : Key) (change : table.Row → table.Row)
    (immutable : ∀ row, table.identity (change row) = table.identity row) : Async Unit := do
  match ← Raising.execute (Y := system) (.update table key change immutable) with
  | .done => pure ()
  | .missing => pure ()
  | .conflict => throw .integrityError

def withSession {α : Type} (name : SessionName) (body : Async α) : Async α :=
  Raising.withSession (Y := system) name body

/-- `try`/`except`: the handler re-raises what it does not catch. -/
def recover {α : Type} (body : Async α) (handler : Exception → Async α) : Async α :=
  Raising.recover (Y := system) body handler

def call (request : Request) : Async request.Reply :=
  Raising.call (Y := system) request

def mark (label : Mark) : Async Unit :=
  Raising.mark (Y := system) label

/-- `metrics.increment(metric, **labels)`. -/
def increment (metric : String) (names : List String) : Async Unit := do
  let counted ← call (.increment metric names)
  check counted

/-- A generated identifier that the transaction is about to use. -/
def mintId (idPrefix : String) : Async String := do
  let id ← newId idPrefix
  mark (.minted id)
  pure id

end Async

/-! ## Flushing -/

/-- The column that a flush writes: one that the session did not change keeps
the value it has in the database by then. -/
def dirty {α : Type} [DecidableEq α] (loaded changed current : α) : α :=
  if changed = loaded then current else changed

@[simp]
theorem dirty_self {α : Type} [DecidableEq α] (loaded current : α) :
    dirty loaded loaded current = current :=
  if_pos rfl

/-- On the row as it was loaded, a flush makes every change. -/
@[simp]
theorem dirty_loaded {α : Type} [DecidableEq α] (loaded changed : α) :
    dirty loaded changed loaded = changed := by
  unfold dirty
  split
  · next hsame => exact hsame.symm
  · rfl

end PayzenoLedger
