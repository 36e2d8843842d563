import PayzenoLedger.Ledger.History
import PayzenoLedger.Services.Payouts

/-!
# The jobs of the payouts

The hourly pass that hands the due payouts to their rails, in one transaction, and the pass
that creates the payout of each balance that is due one, a transaction each.  The other
transactions on payouts are those of the API.
-/

set_option autoImplicit false

namespace PayzenoLedger

open Library

/-! ## The scheduler -/

namespace PayoutSchedulerJob

/-- The statuses of the due payouts, in the order of a flush. -/
def advanceAll : List Payout → Async Unit
  | [] => pure ()
  | payout :: payouts => do
      Async.update .payout (.payout payout.id) (fun row => { row with status := .inTransit })
        (fun _ => rfl)
      advanceAll payouts

/-- One pass; all payouts move to the rail in one transaction. -/
def runOnce : Async Nat := do
  let now ← Async.now
  let due ← PayoutRepository.listDue now.date 500
  advanceAll (due.insertionSort fun first second => first.id ≤ second.id)
  pure due.length

end PayoutSchedulerJob

/-! ## The sweep -/

/-- `SWEPT_SCHEDULES`. -/
def sweptSchedules : List String :=
  ["daily", "weekly", "monthly"]

/-- The start of the payout period that `now` falls in. -/
def periodStart (schedule : String) (now : Instant) : Instant :=
  let today := now.date
  let first :=
    if schedule = "weekly" then today - Date.weekday today
    else if schedule = "monthly" then today - ((Date.civil today).2.2 - 1)
    else today
  first * 86400000000

namespace MerchantBalanceCacheRepository

/-- The balances with something available, by merchant and currency. -/
def listPayable (limit : Nat) : Async (List MerchantBalanceCache) :=
  Async.select fun db =>
    ((db.balances.filter fun row => 0 < row.availableMinor).insertionSort
      fun first second => first.merchantId < second.merchantId ∨
        first.merchantId = second.merchantId ∧ first.currency ≤ second.currency).take limit

end MerchantBalanceCacheRepository

namespace PayoutSweepJob

variable (service : PayoutService) (cached : RateCache)

/-- One balance; nothing is done when it was already paid out this period. -/
def sweepOne (balance : MerchantBalanceCache) (since : Instant) : Async Bool := do
  let last ← PayoutRepository.lastCreatedAt balance.merchantId balance.currency balance.livemode
  if (last.any fun createdAt => decide (since ≤ createdAt)) = true then pure false
  else
    let _ ← service.createPayout cached balance.merchantId
      { currency := some balance.currency, livemode := some balance.livemode }
    pure true

/-- An error of the service is logged, and the balance skipped. -/
def skipped : Exception → Async Bool
  | .ledger _ => pure false
  | raised => throw raised

/-- The balances in turn, each in a transaction of its own. -/
def sweepAll (now : Instant) :
    List (MerchantBalanceCache × Option MerchantProjection) → Async Unit
  | [] => pure ()
  | (balance, merchant) :: balances => do
      match merchant with
      | none => pure ()
      | some merchant =>
          if merchant.status = "active" ∧ merchant.payoutSchedule ∈ sweptSchedules then
            let _ ← Async.recover
              (Async.withSession (.createPayout balance.merchantId)
                (sweepOne service cached balance (periodStart merchant.payoutSchedule now)))
              skipped
          else pure ()
      sweepAll now balances

/-- The merchants on file, one read for each identifier. -/
def loadMerchants : List String → Async (List (String × MerchantProjection))
  | [] => pure []
  | merchantId :: merchantIds => do
      let found ← Async.get .merchantProjection (.merchant merchantId)
      let rest ← loadMerchants merchantIds
      match found with
      | none => pure rest
      | some merchant => pure ((merchantId, merchant) :: rest)

/-- The candidates with the merchants that own them. -/
def candidates (limit : Nat) : Async (List (MerchantBalanceCache × Option MerchantProjection)) := do
  let balances ← MerchantBalanceCacheRepository.listPayable limit
  let merchants ← loadMerchants (balances.map (·.merchantId)).dedup
  pure (balances.map fun balance => (balance, merchants.lookup balance.merchantId))

/-- One pass over at most 500 balances; the clock is read before the first session. -/
def runOnce (now : Instant) : Async Unit := do
  let balances ← Async.withSession .ledgerCalls (candidates 500)
  sweepAll service cached now balances

end PayoutSweepJob

/-! ## Jobs -/

/-- The transactions on payouts, each of which one worker runs, and those of the rest of the
service. -/
inductive PayoutJob where
  | create (cached : RateCache) (merchantId : String) (request : CreatePayoutRequest)
  | cancel (payoutId : String)
  | paid (payoutId : String) (paidAt : Instant) (bankReference : String)
  | failed (payoutId failureCode failureMessage : String)
  | schedule
  | sweep (cached : RateCache) (now : Instant)
  | ledger (calls : List LedgerCall)

def PayoutJob.run (service : PayoutService) : PayoutJob → Async Unit
  | .create cached merchantId request => do
      let _ ← Async.withSession (.createPayout merchantId)
        (service.createPayout cached merchantId request)
  | .cancel payoutId => do
      let _ ← Async.withSession (.cancelPayout payoutId) (service.cancelPayout payoutId)
  | .paid payoutId paidAt bankReference => do
      let _ ← Async.withSession (.markPaid payoutId)
        (service.markPaid payoutId paidAt bankReference)
  | .failed payoutId failureCode failureMessage => do
      let _ ← Async.withSession (.markFailed payoutId)
        (service.markFailed payoutId failureCode failureMessage)
  | .schedule => do
      let _ ← Async.withSession .payoutScheduler PayoutSchedulerJob.runOnce
  | .sweep cached now => PayoutSweepJob.runOnce service cached now
  | .ledger calls => do
      let _ ← LedgerCall.transaction calls

/-- One worker for each job. -/
def payoutWorkers (service : PayoutService) (jobs : List PayoutJob) :
    List (Program system (Except Exception Unit)) :=
  jobs.map fun job => (job.run service).run

end PayzenoLedger
