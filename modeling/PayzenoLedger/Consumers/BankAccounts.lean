import PayzenoLedger.Errors
import PayzenoLedger.Models
import PayzenoLedger.Library.Records

/-!
# The bank account projection

The handler of `merchant.bank_account_verified`.  The upsert of the account and
the demotion of the other defaults are two statements of one transaction; the
partial unique index on the default holds after each of them.
-/

set_option autoImplicit false

namespace PayzenoLedger

open Library

/-! ## Events -/

/-- The payload of `merchant.bank_account_verified`. -/
structure BankAccountVerifiedPayload where
  bankAccountId : String
  merchantId : String
  currency : String
  country : String
  scheme : String
  accountNumberToken : String
  routingLastFour : Option String
  ibanLastFour : Option String
  bic : Option String
  sortCodeLastFour : Option String
  isDefault : Option Bool
deriving DecidableEq, Repr

structure BankAccountEvent where
  id : String
  occurredAt : Instant
  livemode : Bool
  payload : BankAccountVerifiedPayload
deriving DecidableEq, Repr

/-- The row of an event. -/
def BankAccountEvent.projection (event : BankAccountEvent) : BankAccountProjection where
  bankAccountId := event.payload.bankAccountId
  merchantId := event.payload.merchantId
  currency := event.payload.currency
  country := event.payload.country
  scheme := event.payload.scheme
  accountNumberToken := event.payload.accountNumberToken
  routingLastFour := event.payload.routingLastFour
  ibanLastFour := event.payload.ibanLastFour
  bic := event.payload.bic
  sortCodeLastFour := event.payload.sortCodeLastFour
  status := "verified"
  isDefault := event.payload.isDefault.getD false
  livemode := event.livemode
  sourceEventId := event.id
  sourceOccurredAt := event.occurredAt

/-! ## Handler -/

namespace BankAccountProjection

/-- Both rows are the default of one merchant, currency and livemode. -/
def Rivals (row other : BankAccountProjection) : Prop :=
  row.isDefault = true ∧ other.isDefault = true ∧ row.merchantId = other.merchantId ∧
    row.currency = other.currency ∧ row.livemode = other.livemode

instance (row other : BankAccountProjection) : Decidable (Rivals row other) :=
  inferInstanceAs (Decidable (_ ∧ _ ∧ _ ∧ _ ∧ _))

end BankAccountProjection

namespace BankAccountProjectionRepository

/-- `INSERT … ON CONFLICT (bank_account_id) DO UPDATE … WHERE` the stored row is
older.  `pix_bank_account_projection_default` refuses a second default. -/
def upsertIfNewer (banks : List BankAccountProjection) (projection : BankAccountProjection) :
    Except Exception (List BankAccountProjection × Bool) :=
  match banks.find? fun row => row.bankAccountId = projection.bankAccountId with
  | none =>
      if banks.any fun row => projection.Rivals row then .error .integrityError
      else .ok (banks ++ [projection], true)
  | some row =>
      if row.sourceOccurredAt < projection.sourceOccurredAt then
        if banks.any fun other =>
            other.bankAccountId ≠ projection.bankAccountId ∧ projection.Rivals other then
          .error .integrityError
        else
          .ok (banks.map fun other =>
            if other.bankAccountId = projection.bankAccountId then projection else other, true)
      else .ok (banks, false)

/-- Demote every other default for this merchant, currency and livemode. -/
def clearOtherDefaults (banks : List BankAccountProjection) (merchantId currency : String)
    (livemode : Bool) (keep : String) : List BankAccountProjection :=
  banks.map fun row =>
    if row.merchantId = merchantId ∧ row.currency = currency ∧ row.livemode = livemode ∧
        row.bankAccountId ≠ keep ∧ row.isDefault = true then
      { row with isDefault := false }
    else row

end BankAccountProjectionRepository

open BankAccountProjectionRepository in
def handleBankAccountVerified (banks : List BankAccountProjection) (event : BankAccountEvent) :
    Except Exception (List BankAccountProjection) := do
  let projection := event.projection
  let (banks, written) ← upsertIfNewer banks projection
  if written && projection.isDefault then
    pure (clearOtherDefaults banks projection.merchantId projection.currency
      projection.livemode projection.bankAccountId)
  else pure banks

/-- The accounts and the events claimed so far. -/
structure BankAccountState where
  banks : List BankAccountProjection := []
  processed : List String := []
deriving DecidableEq, Repr

namespace BankAccountState

/-- One message: the claim and the handler commit together, or the handler raises
and neither does. -/
def handleMessage (state : BankAccountState) (event : BankAccountEvent) :
    Except Exception BankAccountState :=
  if event.id ∈ state.processed then .ok state
  else do
    let banks ← handleBankAccountVerified state.banks event
    pure { banks, processed := state.processed ++ [event.id] }

/-- All the messages of the queue in the order in which they are delivered; one
whose handler raises leaves nothing. -/
def consume (events : List BankAccountEvent) : BankAccountState :=
  events.foldl (fun state event =>
    match state.handleMessage event with
    | .ok next => next
    | .error _ => state) {}

end BankAccountState

end PayzenoLedger
