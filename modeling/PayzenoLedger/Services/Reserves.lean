import PayzenoLedger.Services.Settlements

/-!
# Rolling reserves

A hold withholds part of a capture until its release date.  The daily pass lists
the holds that are due and releases each one in a transaction of its own: a
posting and the mark on the hold.
-/

set_option autoImplicit false

namespace PayzenoLedger

open Library

/-- The arguments of `create_hold`. -/
structure HoldRequest where
  merchantId : String
  currency : String
  amountMinor : Int
  heldFromTransactionId : String
  releaseOn : Date
  livemode : Bool
deriving DecidableEq, Repr

namespace HoldRequest

def key (request : HoldRequest) : Except Exception String :=
  ledgerKey "rh" request.heldFromTransactionId (toString request.amountMinor)

def hold (request : HoldRequest) (id : String) : ReserveHold where
  id := id
  merchantId := request.merchantId
  currency := request.currency
  amountMinor := request.amountMinor
  heldFromTransactionId := request.heldFromTransactionId
  releaseOn := request.releaseOn
  releasedTransactionId := none
  livemode := request.livemode

end HoldRequest

namespace ReserveHoldRepository

/-- The outstanding holds that are due, earliest first. -/
def listDue (on : Date) (limit : Nat) (db : Database) : List ReserveHold :=
  ((db.holds.filter fun hold =>
      hold.releasedTransactionId = none ∧ hold.releaseOn ≤ on).insertionSort
    fun first second => first.releaseOn ≤ second.releaseOn).take limit

end ReserveHoldRepository

namespace ReserveService

def createHold (request : HoldRequest) : Async ReserveHold := do
  if request.amountMinor ≤ 0 then
    throw (ledgerError .validationError "reserve hold amount must be positive"
      [("merchant_id", .text request.merchantId), ("amount_minor", .int request.amountMinor)])
  else
    let key ← Async.check request.key
    let hold := request.hold (cutKey key)
    Async.add .reserveHold hold
    pure hold

/-- The posting that gives the tranche back to the merchant. -/
def releaseRequest (hold : ReserveHold) (idempotencyKey fingerprint : String) :
    PostRequest where
  idempotencyKey := idempotencyKey
  purpose := .reserveRelease
  merchantId := some hold.merchantId
  currency := hold.currency
  livemode := hold.livemode
  referenceType := .reserveHold
  referenceId := hold.id
  lines := [debit .reserve hold.amountMinor, credit .merchantPayable hold.amountMinor]
  createdBy := .system
  requestFingerprint := fingerprint

def releaseOne (settings : Settings) (holdId : String) : Async Bool := do
  let hold ← Async.getOrRaise .reserveHold (.hold holdId)
    (notFound .notFoundError "ReserveHold" (.text holdId))
  if hold.releasedTransactionId.isSome then pure false
  else
    let key ← Async.check (ledgerKey "reserverelease" hold.merchantId hold.id)
    let fingerprint ← Async.check
      (ledgerKey "reservereleasefp" hold.id hold.releaseOn.isoformat)
    let posted ← LedgerPoster.post
      (releaseRequest hold key (settings.sha256 (.text fingerprint)))
    Async.update .reserveHold (.hold hold.id)
      (fun row => { row with releasedTransactionId := some posted.transaction.id })
      (fun _ => rfl)
    pure true

/-- Each hold is released in a transaction of its own. -/
def releaseAll (settings : Settings) : List String → Nat → Async Nat
  | [], released => pure released
  | holdId :: holdIds, released => do
      let done ← Async.withSession (.reserveRelease holdId) (releaseOne settings holdId)
      releaseAll settings holdIds (if done then released + 1 else released)

def releaseDue (settings : Settings) (on : Date) (limit : Nat) : Async Nat := do
  let holdIds ← Async.withSession .reserveList do
    let due ← Async.select (ReserveHoldRepository.listDue on limit)
    pure (due.map (·.id))
  releaseAll settings holdIds 0

end ReserveService

end PayzenoLedger
