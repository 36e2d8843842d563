import PayzenoLedger.Domain.Idempotency
import PayzenoLedger.Domain.Sale
import PayzenoLedger.Library.Records
import PayzenoLedger.Services.Transactions

/-!
# Charge events

The handlers of `payment.authorized`, `payment.captured` and `payment.canceled`, on
the row and the postings of one charge.  The row is written under the freshness guard;
a capture is dropped when the row is newer, and raises when there is no row yet; a
cancellation reads nothing.
-/

set_option autoImplicit false

namespace PayzenoLedger

open Library

/-! ## Events -/

/-- The payload of `payment.authorized`; the fields that the handler reads with a
default may be missing. -/
structure PaymentAuthorizedPayload where
  chargeId : String
  merchantId : String
  amountMinor : Int
  currency : String
  acquirer : String
  networkTransactionId : Option String
  processorReference : Option String
  captureMethod : String
  captureAtSettlement : Bool
  reserveBps : Option Int
  platformFeeBps : Option Int
  platformFeeFixedMinor : Option Int
  authorizedAt : Instant
deriving DecidableEq, Repr

structure PaymentCapturedPayload where
  chargeId : String
  merchantId : String
  capturedAmountMinor : Int
  currency : String
  capturedAt : Instant
deriving DecidableEq, Repr

inductive ChargePayload where
  | authorized (payload : PaymentAuthorizedPayload)
  | captured (payload : PaymentCapturedPayload)
deriving DecidableEq, Repr

namespace ChargePayload

def chargeId : ChargePayload → String
  | authorized payload => payload.chargeId
  | captured payload => payload.chargeId

def merchantId : ChargePayload → String
  | authorized payload => payload.merchantId
  | captured payload => payload.merchantId

def isAuthorized : ChargePayload → Bool
  | authorized _ => true
  | captured _ => false

end ChargePayload

structure ChargeEvent where
  id : String
  occurredAt : Instant
  livemode : Bool
  payload : ChargePayload
deriving DecidableEq, Repr

/-- One delivery of an event, and what the database raises while it is handled. -/
structure ChargeDelivery where
  event : ChargeEvent
  raises : Option Exception := none

/-! ## Handlers -/

/-- The row of an authorized event. -/
def chargeProjection (data : PaymentAuthorizedPayload) (eventId : String)
    (occurredAt : Instant) (livemode : Bool) : SettlementCharge where
  chargeId := data.chargeId
  merchantId := data.merchantId
  amountMinor := data.amountMinor
  currency := data.currency
  acquirer := data.acquirer
  networkTransactionId := data.networkTransactionId
  processorReference := data.processorReference
  captureMethod := data.captureMethod
  captureAtSettlement := data.captureAtSettlement
  reserveBps := data.reserveBps.getD 0
  platformFeeBps := data.platformFeeBps.getD 0
  platformFeeFixedMinor := data.platformFeeFixedMinor.getD 0
  authorizedAt := data.authorizedAt
  capturedAt := none
  livemode := livemode
  sourceEventId := eventId
  sourceOccurredAt := occurredAt

namespace SettlementChargeRepository

/-- Write the projection unless a later event already wrote this row; every mutable
column is overwritten, `captured_at` among them. -/
def upsertIfNewer (existing : Option SettlementCharge) (projection : SettlementCharge) :
    SettlementCharge × Bool :=
  match existing with
  | none => (projection, true)
  | some row =>
      if row.sourceOccurredAt < projection.sourceOccurredAt then (projection, true)
      else (row, false)

def existingOrRaise (existing : Option SettlementCharge) (chargeId : String) :
    Except Exception SettlementCharge :=
  match existing with
  | some row => .ok row
  | none =>
      .error (ledgerError .chargeProjectionNotFoundError "SettlementCharge not found"
        [("details", .object [("id", .text chargeId), ("entity", .text "SettlementCharge")])])

end SettlementChargeRepository

/-- What the capture rule reads: the payload's amount at the terms of the row. -/
def captureContext (charge : SettlementCharge) (data : PaymentCapturedPayload) :
    PostingContext where
  merchantId := some data.merchantId
  currency := data.currency
  grossMinor := data.capturedAmountMinor
  feeMinor := 0
  netMinor := data.capturedAmountMinor
  reserveBps := charge.reserveBps
  platformFeeBps := charge.platformFeeBps
  platformFeeFixedMinor := charge.platformFeeFixedMinor

/-- What both handlers post about a charge. -/
def chargeRequest (purpose : Purpose) (merchantId chargeId currency : String)
    (livemode : Bool) (eventId key : String) (lines : List PostingLine) : PostRequest where
  idempotencyKey := key
  purpose := purpose
  merchantId := some merchantId
  currency := currency
  livemode := livemode
  referenceType := .charge
  referenceId := chargeId
  lines := lines
  createdBy := .system
  requestFingerprint := eventId
  onConflict := .returnExisting

/-- The row of one charge, the postings about it and the events claimed so far. -/
structure ChargeState where
  charge : Option SettlementCharge := none
  postings : List PostRequest := []
  processed : List String := []

namespace ChargeState

/-- `LedgerPoster.post` with `return_existing`: the lines are checked, and a key that
is taken posts nothing. -/
def post (state : ChargeState) (request : PostRequest) : Except Exception ChargeState := do
  assertInvariants request.lines
  if state.postings.any fun posted => posted.idempotencyKey = request.idempotencyKey then
    pure state
  else pure { state with postings := state.postings ++ [request] }

/-- Build the lines and the key, and post. -/
def postCharge (state : ChargeState) (rule : PostingRule) (context : PostingContext)
    (merchantId chargeId : String) (livemode : Bool) (eventId : String) :
    Except Exception ChargeState := do
  let lines ← rule.build context
  let key ← ledgerKey rule.purpose.toString merchantId chargeId
  state.post (chargeRequest rule.purpose merchantId chargeId context.currency livemode eventId
    key lines)

def handlePaymentAuthorized (state : ChargeState) (data : PaymentAuthorizedPayload)
    (eventId : String) (occurredAt : Instant) (livemode : Bool) :
    Except Exception ChargeState :=
  let projection := chargeProjection data eventId occurredAt livemode
  let (charge, written) := SettlementChargeRepository.upsertIfNewer state.charge projection
  if written then
    let state := { state with charge := some charge }
    state.postCharge authPostingRule
      { merchantId := some data.merchantId
        currency := data.currency
        grossMinor := data.amountMinor
        feeMinor := 0
        netMinor := data.amountMinor
        reserveBps := projection.reserveBps
        platformFeeBps := projection.platformFeeBps
        platformFeeFixedMinor := projection.platformFeeFixedMinor }
      data.merchantId data.chargeId livemode eventId
  else .ok state

/-- Stamp `captured_at` and post the capture, at the terms of the row. -/
def handlePaymentCaptured (currencies : List String) (state : ChargeState)
    (data : PaymentCapturedPayload) (eventId : String) (occurredAt : Instant)
    (livemode : Bool) : Except Exception ChargeState := do
  let charge ← SettlementChargeRepository.existingOrRaise state.charge data.chargeId
  if occurredAt < charge.sourceOccurredAt then
    pure state
  else
    let captured := { charge with capturedAt := some data.capturedAt }
    let state := { state with charge := some captured }
    state.postCharge (capturePostingRule currencies) (captureContext charge data)
      data.merchantId data.chargeId livemode eventId

def handle (currencies : List String) (state : ChargeState) (event : ChargeEvent) :
    Except Exception ChargeState :=
  match event.payload with
  | .authorized data =>
      state.handlePaymentAuthorized data event.id event.occurredAt event.livemode
  | .captured data =>
      state.handlePaymentCaptured currencies data event.id event.occurredAt event.livemode

/-- One message: the claim and the handler commit together or not at all. -/
def handleMessage (currencies : List String) (state : ChargeState) (delivery : ChargeDelivery) :
    Except Exception ChargeState :=
  if delivery.event.id ∈ state.processed then .ok state
  else
    match delivery.raises with
    | some raised => .error raised
    | none => do
        let next ← state.handle currencies delivery.event
        pure { next with processed := next.processed ++ [delivery.event.id] }

/-- All the messages of the queue in the order in which they are delivered; one whose
handler raises leaves nothing. -/
def consume (currencies : List String) (deliveries : List ChargeDelivery) : ChargeState :=
  deliveries.foldl (fun state delivery =>
    match state.handleMessage currencies delivery with
    | .ok next => next
    | .error _ => state) {}

end ChargeState

/-! ## Cancellations -/

/-- The payload of `payment.canceled`; an intent cancelled before any charge existed
names none. -/
structure PaymentCanceledPayload where
  chargeId : Option String
  merchantId : String
  currency : String
  releasedAmountMinor : Int
deriving DecidableEq, Repr

/-- What the payment events of a charge carry. -/
inductive PaymentPayload where
  | charge (payload : ChargePayload)
  | canceled (payload : PaymentCanceledPayload)
deriving DecidableEq, Repr

structure PaymentEvent where
  id : String
  occurredAt : Instant
  livemode : Bool
  payload : PaymentPayload
deriving DecidableEq, Repr

structure PaymentDelivery where
  event : PaymentEvent
  raises : Option Exception := none

/-- What the release rule reads. -/
def releaseContext (data : PaymentCanceledPayload) : PostingContext where
  merchantId := some data.merchantId
  currency := data.currency
  grossMinor := data.releasedAmountMinor
  feeMinor := 0
  netMinor := data.releasedAmountMinor

namespace ChargeState

/-- Release an authorisation; neither the row nor the other postings are looked at. -/
def handlePaymentCanceled (state : ChargeState) (data : PaymentCanceledPayload)
    (eventId : String) (livemode : Bool) : Except Exception ChargeState :=
  match data.chargeId with
  | none => .ok state
  | some chargeId => do
      let lines ← authReleasePostingRule.build (releaseContext data)
      let key ← ledgerKey "authrelease" data.merchantId chargeId
      state.post (chargeRequest .authRelease data.merchantId chargeId data.currency livemode
        eventId key lines)

def handlePayment (currencies : List String) (state : ChargeState) (event : PaymentEvent) :
    Except Exception ChargeState :=
  match event.payload with
  | .charge payload =>
      state.handle currencies
        { id := event.id, occurredAt := event.occurredAt, livemode := event.livemode, payload }
  | .canceled data => state.handlePaymentCanceled data event.id event.livemode

/-- `handleMessage` for all the events of a charge. -/
def handlePaymentMessage (currencies : List String) (state : ChargeState)
    (delivery : PaymentDelivery) : Except Exception ChargeState :=
  if delivery.event.id ∈ state.processed then .ok state
  else
    match delivery.raises with
    | some raised => .error raised
    | none => do
        let next ← state.handlePayment currencies delivery.event
        pure { next with processed := next.processed ++ [delivery.event.id] }

def consumePayments (currencies : List String) (deliveries : List PaymentDelivery) :
    ChargeState :=
  deliveries.foldl (fun state delivery =>
    match state.handlePaymentMessage currencies delivery with
    | .ok next => next
    | .error _ => state) {}

end ChargeState

end PayzenoLedger
