import PayzenoLedger.Models
import PayzenoLedger.Library.Records

/-!
# The merchant projection

The consumer of the merchant topic.  Each message is claimed and handled in one
transaction: a claimed event is not handled again, and a handler that raises
takes its claim with it.  A projection is written only by an event that is newer
than the one that wrote it last.
-/

set_option autoImplicit false

namespace PayzenoLedger

open Library

/-! ## Events -/

/-- The validated payload of `merchant.created`; the columns that the handler
reads with a default may be missing. -/
structure MerchantCreatedPayload where
  merchantId : String
  displayName : String
  country : String
  defaultCurrency : String
  status : String
  riskTier : String
  reserveBps : Option Int
  reserveHoldDays : Option Int
  pricingModel : Option String
  platformFeeBps : Int
  platformFeeFixedMinor : Int
  payoutDelayDays : Option Int
  settlementToleranceMinor : Option Int
  captureAtSettlement : Option Bool
  payoutSchedule : String
deriving DecidableEq, Repr

structure MerchantUpdatedPayload where
  merchantId : String
  displayName : String
  status : String
  riskTier : String
  reserveBps : Int
  reserveHoldDays : Int
  pricingModel : String
  platformFeeBps : Int
  platformFeeFixedMinor : Int
  payoutDelayDays : Int
  settlementToleranceMinor : Int
  captureAtSettlement : Bool
  payoutSchedule : String
deriving DecidableEq, Repr

structure MerchantStatusChangedPayload where
  merchantId : String
  status : String
deriving DecidableEq, Repr

inductive MerchantPayload where
  | created (payload : MerchantCreatedPayload)
  | updated (payload : MerchantUpdatedPayload)
  | statusChanged (payload : MerchantStatusChangedPayload)
deriving DecidableEq, Repr

def MerchantPayload.merchantId : MerchantPayload → String
  | created payload => payload.merchantId
  | updated payload => payload.merchantId
  | statusChanged payload => payload.merchantId

structure MerchantEvent where
  id : String
  occurredAt : Instant
  livemode : Bool
  payload : MerchantPayload
deriving DecidableEq, Repr

/-- One delivery of an event, and whether its handler raises. -/
structure Delivery where
  event : MerchantEvent
  raises : Bool
deriving DecidableEq, Repr

/-! ## Handlers -/

namespace MerchantProjectionRepository

/-- Apply the projection unless a later event already wrote this row. -/
def upsertIfNewer (existing : Option MerchantProjection) (projection : MerchantProjection) :
    Option MerchantProjection :=
  match existing with
  | none => some projection
  | some row =>
      if row.sourceOccurredAt < projection.sourceOccurredAt then some projection else some row

/-- The status of a row that exists, under the same guard. -/
def updateStatusIfNewer (existing : Option MerchantProjection) (status sourceEventId : String)
    (sourceOccurredAt : Instant) : Option MerchantProjection :=
  match existing with
  | none => none
  | some row =>
      if row.sourceOccurredAt < sourceOccurredAt then
        some { row with
          status := status
          sourceEventId := sourceEventId
          sourceOccurredAt := sourceOccurredAt }
      else some row

end MerchantProjectionRepository

/-- The row of a created event. -/
def projectionFrom (data : MerchantCreatedPayload) (eventId : String) (occurredAt : Instant)
    (livemode : Bool) : MerchantProjection where
  merchantId := data.merchantId
  displayName := some data.displayName
  country := some data.country
  defaultCurrency := some data.defaultCurrency
  status := data.status
  riskTier := data.riskTier
  reserveBps := data.reserveBps.getD 0
  reserveHoldDays := data.reserveHoldDays.getD 0
  pricingModel := data.pricingModel.getD "blended"
  platformFeeBps := data.platformFeeBps
  platformFeeFixedMinor := data.platformFeeFixedMinor
  payoutDelayDays := data.payoutDelayDays.getD 2
  settlementToleranceMinor := data.settlementToleranceMinor.getD 100
  captureAtSettlement := data.captureAtSettlement.getD false
  payoutSchedule := data.payoutSchedule
  livemode := livemode
  sourceEventId := eventId
  sourceOccurredAt := occurredAt

/-- The row of an updated event, which keeps the country and the default currency. -/
def updatedProjection (existing : MerchantProjection) (data : MerchantUpdatedPayload)
    (eventId : String) (occurredAt : Instant) (livemode : Bool) :
    MerchantProjection where
  merchantId := data.merchantId
  displayName := some data.displayName
  country := existing.country
  defaultCurrency := existing.defaultCurrency
  status := data.status
  riskTier := data.riskTier
  reserveBps := data.reserveBps
  reserveHoldDays := data.reserveHoldDays
  pricingModel := data.pricingModel
  platformFeeBps := data.platformFeeBps
  platformFeeFixedMinor := data.platformFeeFixedMinor
  payoutDelayDays := data.payoutDelayDays
  settlementToleranceMinor := data.settlementToleranceMinor
  captureAtSettlement := data.captureAtSettlement
  payoutSchedule := data.payoutSchedule
  livemode := livemode
  sourceEventId := eventId
  sourceOccurredAt := occurredAt

def handleMerchantCreated (existing : Option MerchantProjection)
    (data : MerchantCreatedPayload) (eventId : String) (occurredAt : Instant)
    (livemode : Bool) : Option MerchantProjection :=
  MerchantProjectionRepository.upsertIfNewer existing
    (projectionFrom data eventId occurredAt livemode)

/-- An update of a merchant that was not created yet is dropped. -/
def handleMerchantUpdated (existing : Option MerchantProjection)
    (data : MerchantUpdatedPayload) (eventId : String) (occurredAt : Instant)
    (livemode : Bool) : Option MerchantProjection :=
  match existing with
  | none => none
  | some row =>
      MerchantProjectionRepository.upsertIfNewer existing
        (updatedProjection row data eventId occurredAt livemode)

def handleMerchantStatusChanged (existing : Option MerchantProjection)
    (data : MerchantStatusChangedPayload) (eventId : String) (occurredAt : Instant) :
    Option MerchantProjection :=
  MerchantProjectionRepository.updateStatusIfNewer existing data.status eventId occurredAt

/-- `MerchantEventConsumer.handle`, on the row of the event's merchant. -/
def handle (existing : Option MerchantProjection) (event : MerchantEvent) :
    Option MerchantProjection :=
  match event.payload with
  | .created data =>
      handleMerchantCreated existing data event.id event.occurredAt event.livemode
  | .updated data =>
      handleMerchantUpdated existing data event.id event.occurredAt event.livemode
  | .statusChanged data =>
      handleMerchantStatusChanged existing data event.id event.occurredAt

/-- The row of one merchant and the events claimed so far. -/
structure ConsumerState where
  projection : Option MerchantProjection := none
  processed : List String := []
deriving DecidableEq, Repr

/-- One message: the claim and the handler commit together or not at all. -/
def handleMessage (state : ConsumerState) (delivery : Delivery) : ConsumerState :=
  if delivery.event.id ∈ state.processed then state
  else if delivery.raises then state
  else
    { projection := handle state.projection delivery.event
      processed := state.processed ++ [delivery.event.id] }

/-- All the messages of the queue in the order in which they are delivered. -/
def consume (deliveries : List Delivery) : ConsumerState :=
  deliveries.foldl handleMessage {}

end PayzenoLedger
