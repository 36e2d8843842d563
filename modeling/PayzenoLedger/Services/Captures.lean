import PayzenoLedger.Services.SettlementPoster

/-!
# Deferred captures

The pass over the open capture attempts.  Each attempt is read in one
transaction, the acquirer is asked outside of any, and what it answered is
written in another; the status by which an attempt is issued or resolved is the
one that the list was read with.
-/

set_option autoImplicit false

namespace PayzenoLedger

open Library

namespace CaptureAttemptRepository

/-- Open attempts, oldest request first. -/
def listPending (limit : Nat) (db : Database) : List CaptureAttempt :=
  ((db.attempts.filter fun attempt => attempt.status.isOpen).insertionSort
    fun first second => first.requestedAt ≤ second.requestedAt).take limit

def getOrRaise (attemptId : String) : Async CaptureAttempt :=
  Async.getOrRaise .captureAttempt (.attempt attemptId)
    (notFound .notFoundError "CaptureAttempt" (.text attemptId))

end CaptureAttemptRepository

namespace DeferredCaptureService

/-- The status, the reference and the error code that an attempt is left with. -/
structure AttemptOutcome where
  status : AttemptStatus
  reference : Option String
  errorCode : Option String
deriving DecidableEq, Repr

/-- What an answer to a capture makes of the attempt; other failures go through. -/
def outcomeOf : Except Exception CaptureResponse → Except Exception AttemptOutcome
  | .ok response =>
      .ok ⟨if response.captured then .captured else .failed, some response.reference, none⟩
  | .error (.ledger error) =>
      if error.cls.isInstance .processorIndeterminateError then
        .ok ⟨.indeterminate, none, some error.code⟩
      else if error.cls.isInstance .processorUnavailableError then
        .ok ⟨.pending, none, some error.code⟩
      else .error (.ledger error)
  | .error raised => .error raised

/-- The row after a flush of the attempt that the session loaded. -/
def flushed (loaded : CaptureAttempt) (outcome : AttemptOutcome) (completedAt : Option Instant)
    (row : CaptureAttempt) : CaptureAttempt :=
  { row with
    status := dirty loaded.status outcome.status row.status
    responseReference := dirty loaded.responseReference outcome.reference row.responseReference
    lastErrorCode := dirty loaded.lastErrorCode outcome.errorCode row.lastErrorCode
    completedAt := dirty loaded.completedAt completedAt row.completedAt }

/-- Write what came back; the status that the row has by then is not looked at. -/
def applyOutcome (attemptId : String) (outcome : AttemptOutcome) : Async Unit :=
  Async.withSession (.attemptOutcome attemptId outcome.status) do
    let attempt ← CaptureAttemptRepository.getOrRaise attemptId
    let stamp ← Async.now
    let completedAt :=
      if outcome.status = .captured ∨ outcome.status = .failed then some stamp
      else attempt.completedAt
    Async.update .captureAttempt (.attempt attempt.id) (flushed attempt outcome completedAt)
      (fun _ => rfl)

def issue (attemptId : String) : Async Unit := do
  let attempt ← Async.withSession (.attemptRead attemptId)
    (CaptureAttemptRepository.getOrRaise attemptId)
  let reply ← Async.call (.captureDeferred attempt.chargeId attempt.amountMinor attempt.currency
    attempt.acquirerIdempotencyKey attempt.acquirerIdempotencyKey none)
  let outcome ← Async.check (outcomeOf reply)
  applyOutcome attemptId outcome

/-- Never issue an indeterminate capture again: ask what happened instead. -/
def resolveIndeterminate (attemptId : String) : Async Unit := do
  let attempt ← Async.withSession (.attemptRead attemptId)
    (CaptureAttemptRepository.getOrRaise attemptId)
  match ← Async.call (.captureStatus attempt.acquirer attempt.acquirerIdempotencyKey) with
  | .error raised => throw raised
  | .ok answer =>
      match answer.state with
      | .captured => applyOutcome attemptId ⟨.captured, answer.reference, none⟩
      | .notCaptured => applyOutcome attemptId ⟨.pending, none, some "not_captured"⟩
      | .unknown => pure ()

/-- One attempt of the list, by the status that it was listed with. -/
def process (attemptId : String) (status : AttemptStatus) : Async Unit :=
  if status = .indeterminate then resolveIndeterminate attemptId else issue attemptId

def processAll : List (String × AttemptStatus) → Nat → Async Nat
  | [], processed => pure processed
  | (attemptId, status) :: attempts, processed => do
      process attemptId status
      processAll attempts (processed + 1)

def processPending (limit : Nat) : Async Nat := do
  let attempts ← Async.withSession .attemptList
    (Async.select fun db => (CaptureAttemptRepository.listPending limit db).map
      fun attempt => (attempt.id, attempt.status))
  processAll attempts 0

end DeferredCaptureService

end PayzenoLedger
