import PayzenoLedger.Domain.Calendar
import PayzenoLedger.Domain.Idempotency

/-!
# The payout rails

What each rail answers to an instruction: the reference that identifies it and the day on
which the money is promised.  A submission past the cutoff of its rail is meant to move to
the next business day.
-/

set_option autoImplicit false

namespace PayzenoLedger

/-- The cutoffs of `Settings`, in microseconds since midnight. -/
structure PayoutCutoffs where
  ach : Nat := 75600000000
  sameDayAch : Nat := 60300000000
  sepa : Nat := 50400000000
  fasterPayments : Nat := 63000000000
deriving DecidableEq, Repr

structure InitiationResult where
  railReference : String
  arrivalEstimate : Date
  submittedAt : Instant
deriving DecidableEq, Repr

/-- `text[-count:]`. -/
def lastChars (count : Nat) (text : List Char) : List Char :=
  text.drop (text.length - count)

/-- `text.rjust(width, fill)`. -/
def rjust (width : Nat) (fill : Char) (text : List Char) : List Char :=
  List.replicate (width - text.length) fill ++ text

inductive Rail where
  | standardAch
  | sameDayAch
  | sepa
  | fasterPayments
deriving DecidableEq, Repr

def Rail.method : Rail → String
  | .standardAch => "standard_ach"
  | .sameDayAch => "same_day_ach"
  | .sepa => "sepa"
  | .fasterPayments => "faster_payments"

namespace PayoutInitiator

variable (cutoffs : PayoutCutoffs) (calendar : BankingCalendar)

def unusable (rail : Rail) (bank : BankAccountProjection) (message : String)
    (details : List (String × Json)) : Exception :=
  ledgerError .bankAccountUnusableError message
    ([("bank_account_id", .text bank.bankAccountId), ("method", .text rail.method)] ++ details)

/-- `_assert_usable`. -/
def assertUsable (rail : Rail) (bank : BankAccountProjection) : Except Exception Unit :=
  if bank.status = "verified" then .ok ()
  else
    .error (unusable rail bank ("bank account " ++ bank.bankAccountId ++ " is " ++ bank.status)
      [("status", .text bank.status)])

/-- The day that the rail takes for a submission: past the cutoff, the next business day
on or after the day itself. -/
def rolled (rail : Rail) (cutoff : Nat) (payout : Payout) (submittedAt : Instant) :
    Except Exception Date :=
  if cutoff ≤ submittedAt.time then
    calendar.nextBusinessDay payout.currency rail.method submittedAt.date
  else .ok submittedAt.date

/-- `ODFI_ROUTING_NUMBER[:8]`. -/
def odfiPrefix : String := "02100002"

/-- The trace number: the last seven digits of the payout. -/
def buildReference (payout : Payout) : String :=
  odfiPrefix ++ String.ofList (rjust 7 '0' (lastChars 7 (payout.id.toList.filter Char.isDigit)))

/-- `AchPayoutInitiator.initiate`, for the rail that it is called with. -/
def initiateAch (rail : Rail) (payout : Payout) (bank : BankAccountProjection)
    (submittedAt : Instant) : Except Exception InitiationResult := do
  assertUsable rail bank
  let effective ← rolled calendar rail cutoffs.ach payout submittedAt
  let arrival ← calendar.nextBusinessDay payout.currency rail.method (effective + 1)
  pure { railReference := buildReference payout, arrivalEstimate := arrival, submittedAt }

/-- `SAME_DAY_LIMIT_MINOR`. -/
def sameDayLimitMinor : Int := 100000000

/-- Above the ceiling this becomes a next-day credit. -/
def initiateSameDayAch (payout : Payout) (bank : BankAccountProjection) (submittedAt : Instant) :
    Except Exception InitiationResult := do
  assertUsable .sameDayAch bank
  if sameDayLimitMinor < payout.amountMinor then
    initiateAch cutoffs calendar .sameDayAch payout bank submittedAt
  else
    let arrival ← rolled calendar .sameDayAch cutoffs.sameDayAch payout submittedAt
    pure { railReference := "SDA" ++ buildReference payout, arrivalEstimate := arrival,
           submittedAt }

/-- A string that is missing or empty. -/
def isBlank (text : Option String) : Bool :=
  match text with
  | none => true
  | some text => text.isEmpty

def sepaReference (payout : Payout) : String :=
  "PZN" ++ (String.ofList (lastChars 18 payout.id.toList)).toUpper

def initiateSepa (payout : Payout) (bank : BankAccountProjection) (submittedAt : Instant) :
    Except Exception InitiationResult := do
  assertUsable .sepa bank
  if isBlank bank.ibanLastFour then
    throw (unusable .sepa bank "SEPA requires an IBAN" [("scheme", .text bank.scheme)])
  if payout.currency ≠ "EUR" then
    throw (unusable .sepa bank "SEPA Credit Transfer is EUR only"
      [("currency", .text payout.currency)])
  let valueDate ← rolled calendar .sepa cutoffs.sepa payout submittedAt
  let arrival ← calendar.nextBusinessDay payout.currency Rail.sepa.method (valueDate + 1)
  pure { railReference := sepaReference payout, arrivalEstimate := arrival, submittedAt }

def fasterPaymentsReference (payout : Payout) : String :=
  "FPS" ++ (String.ofList (lastChars 16 payout.id.toList)).toUpper

def initiateFasterPayments (payout : Payout) (bank : BankAccountProjection)
    (submittedAt : Instant) : Except Exception InitiationResult := do
  assertUsable .fasterPayments bank
  if payout.currency ≠ "GBP" then
    throw (unusable .fasterPayments bank "Faster Payments is GBP only"
      [("currency", .text payout.currency)])
  if isBlank bank.sortCodeLastFour then
    throw (unusable .fasterPayments bank "Faster Payments requires a sort code"
      [("scheme", .text bank.scheme)])
  let arrival ← rolled calendar .fasterPayments cutoffs.fasterPayments payout submittedAt
  pure { railReference := fasterPaymentsReference payout, arrivalEstimate := arrival,
         submittedAt }

/-- The initiator that a payout's method selects. -/
def initiate (rail : Rail) (payout : Payout) (bank : BankAccountProjection)
    (submittedAt : Instant) : Except Exception InitiationResult :=
  match rail with
  | .standardAch => initiateAch cutoffs calendar .standardAch payout bank submittedAt
  | .sameDayAch => initiateSameDayAch cutoffs calendar payout bank submittedAt
  | .sepa => initiateSepa cutoffs calendar payout bank submittedAt
  | .fasterPayments => initiateFasterPayments cutoffs calendar payout bank submittedAt

end PayoutInitiator

namespace AchPayoutPuller

/-- `effective.strftime('%m%d')`. -/
def monthDay (effective : Date) : String :=
  padded 2 (Date.civil effective).2.1 ++ padded 2 (Date.civil effective).2.2

def railReference (merchantId : String) (effective : Date) : String :=
  "DR" ++ (String.ofList (lastChars 10 merchantId.toList)).toUpper ++ monthDay effective

/-- The ledger key of a pull: neither the currency nor the year is part of it. -/
def pullKey (merchantId : String) (effective : Date) : Except Exception String :=
  ledgerKey "debitpull" merchantId (railReference merchantId effective)

end AchPayoutPuller

end PayzenoLedger
