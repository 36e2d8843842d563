import PayzenoLedger.Domain.Idempotency
import PayzenoLedger.Services.SettlementPoster

/-!
# Manual adjustments

Maker and checker of a manual posting.  The maker records the legs under an
identifier cut from a key of requester and reason; another operator's approval
posts them and closes the record, in one transaction.
-/

set_option autoImplicit false

namespace PayzenoLedger

open Library

/-- What the maker of an adjustment fills in. -/
structure AdjustmentForm where
  merchantId : Option String
  currency : String
  lines : List PostingLine
  reasonCode : String
  requestedBy : String
deriving DecidableEq, Repr

namespace AdjustmentForm

def key (form : AdjustmentForm) : Except Exception String :=
  ledgerKey "lar" form.requestedBy form.reasonCode

/-- The record of a form. -/
def record (form : AdjustmentForm) (id : String) (requestedAt : Instant) :
    LedgerAdjustmentRequest where
  id := id
  merchantId := form.merchantId
  currency := form.currency
  lines := form.lines
  reasonCode := form.reasonCode
  requestedBy := form.requestedBy
  requestedAt := requestedAt
  approvedBy := none
  approvedAt := none
  postedTransactionId := none
  status := .pending
  livemode := true

end AdjustmentForm

namespace AdjustmentService

/-- Record the intent; nothing is posted. -/
def request (form : AdjustmentForm) : Async LedgerAdjustmentRequest := do
  if form.lines = [] then
    throw (ledgerError .validationError "an adjustment needs at least one line"
      [("reason_code", .text form.reasonCode)])
  else if form.reasonCode = "" then
    throw (ledgerError .validationError "reason_code is required"
      [("merchant_id", Json.optional form.merchantId)])
  else
    let key ← Async.check form.key
    let requestedAt ← Async.now
    let record := form.record (cutKey key) requestedAt
    Async.add .ledgerAdjustmentRequest record
    pure record

/-- The posting of an approved request. -/
def postRequest (record : LedgerAdjustmentRequest) (idempotencyKey fingerprint : String) :
    PostRequest where
  idempotencyKey := idempotencyKey
  purpose := .adjustment
  merchantId := record.merchantId
  currency := record.currency
  livemode := record.livemode
  referenceType := .ledgerAdjustmentRequest
  referenceId := record.id
  lines := record.lines
  createdBy := .admin
  requestFingerprint := fingerprint

/-- The columns that an approval writes. -/
def approved (record : LedgerAdjustmentRequest) (approvedBy : String) (approvedAt : Instant)
    (transactionId : String) : LedgerAdjustmentRequest :=
  { record with
    approvedBy := some approvedBy
    approvedAt := some approvedAt
    status := .posted
    postedTransactionId := some transactionId }

/-- Post a pending request that somebody else made. -/
def approve (settings : Settings) (requestId approvedBy : String) :
    Async LedgerAdjustmentRequest := do
  match ← Async.get .ledgerAdjustmentRequest (.adjustment requestId) with
  | none =>
      throw (ledgerError .notFoundError ("adjustment request " ++ requestId ++ " not found")
        [("request_id", .text requestId)])
  | some record =>
      if record.status ≠ .pending then
        throw (ledgerError .validationError
          ("adjustment request " ++ requestId ++ " is " ++ record.status.toString)
          [("request_id", .text requestId), ("status", .text record.status.toString)])
      else if approvedBy = record.requestedBy then
        throw (ledgerError .dualControlRequiredError
          "an adjustment cannot be approved by its requester"
          [("request_id", .text requestId), ("requested_by", .text record.requestedBy)])
      else
        let key ← Async.check (ledgerKey "adjustment" record.id record.reasonCode)
        let fingerprint ← Async.check (ledgerKey "adjustmentfp" record.id approvedBy)
        let posted ← LedgerPoster.post
          (postRequest record key (settings.sha256 (.text fingerprint)))
        let approvedAt ← Async.now
        Async.update .ledgerAdjustmentRequest (.adjustment record.id)
          (fun row => approved row approvedBy approvedAt posted.transaction.id) (fun _ => rfl)
        pure (approved record approvedBy approvedAt posted.transaction.id)

end AdjustmentService

/-! ## Endpoints -/

inductive AdjustmentJob where
  | request (form : AdjustmentForm)
  | approve (requestId approvedBy : String)
deriving DecidableEq, Repr

/-- `POST /adjustments` and `POST /adjustments/{request_id}/approve`. -/
def AdjustmentJob.run (settings : Settings) : AdjustmentJob → Async Unit
  | .request form => do
      if form.lines = [] then
        throw (ledgerError .validationError "an adjustment needs at least one line")
      else
        let _ ← Async.withSession (.requestAdjustment form.requestedBy form.reasonCode)
          (AdjustmentService.request form)
  | .approve requestId approvedBy => do
      let _ ← Async.withSession (.approveAdjustment requestId approvedBy)
        (AdjustmentService.approve settings requestId approvedBy)

/-- One worker for each call. -/
def adjustmentWorkers (settings : Settings) (jobs : List AdjustmentJob) :
    List (Program system (Except Exception Unit)) :=
  jobs.map fun job => (job.run settings).run

end PayzenoLedger
