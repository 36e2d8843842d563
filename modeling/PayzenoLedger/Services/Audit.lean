import PayzenoLedger.Services.Transactions

/-!
# The nightly audit

The trial balance of each audited currency, the settlements posted twice, and the balance
cache against the entries.  A finding is published as `ledger.imbalance_detected`; the
report names what the job logs and counts.
-/

set_option autoImplicit false

namespace PayzenoLedger

open Library

/-- The rows of a query in any order that its `ORDER BY` leaves open. -/
def Async.ordered {α : Type} (notAfter : α → α → Bool) (query : Database → List α) :
    Async (List α) :=
  Raising.execute (Y := system) (.select fun _ choice db =>
    match choice with
    | .row index =>
        ((query db).permutations.filter fun rows =>
          decide (rows.Pairwise fun first second => notAfter first second = true))[index]?
    | _ => none)

/-! ## Queries -/

structure TrialBalanceRow where
  currency : String
  livemode : Bool
  debitMinor : Int
  creditMinor : Int
deriving DecidableEq, Repr

structure TrialBalanceTotals where
  currency : String
  debitMinor : Int
  creditMinor : Int
  rows : List TrialBalanceRow
deriving DecidableEq, Repr

structure DuplicateKeyRow where
  idempotencyKey : String
  count : Nat
  currency : String
  sampleTransactionId : String
deriving DecidableEq, Repr

/-- `min` over a group, which is never empty. -/
def least : List String → String
  | [] => ""
  | text :: texts => texts.foldl (fun least text => if text < least then text else least) text

namespace LedgerEntryRepository

/-- The sum of the entries of one direction. -/
def directionTotal (direction : Direction) (entries : List LedgerEntry) : Int :=
  (entries.map fun entry => if entry.direction = direction then entry.amountMinor else 0).sum

/-- The entries of a currency up to a time. -/
def tried (currency : String) (asOf : Option Instant) (db : Database) : List LedgerEntry :=
  db.entries.filter fun entry =>
    entry.currency = currency ∧ ∀ instant ∈ asOf, entry.createdAt ≤ instant

/-- The totals of a group, which is there only if it has entries. -/
def trialBalanceRow (currency : String) (entries : List LedgerEntry) (livemode : Bool) :
    Option TrialBalanceRow :=
  let group := entries.filter fun entry => entry.livemode = livemode
  if group.isEmpty then none
  else some
    { currency
      livemode
      debitMinor := directionTotal .debit group
      creditMinor := directionTotal .credit group }

def trialBalanceByCurrency (currency : String) (livemode : Option Bool)
    (asOf : Option Instant) (db : Database) : TrialBalanceTotals :=
  let entries := (tried currency asOf db).filter fun entry =>
    ∀ mode ∈ livemode, entry.livemode = mode
  let rows := [false, true].filterMap (trialBalanceRow currency entries)
  { currency
    debitMinor := (rows.map TrialBalanceRow.debitMinor).sum
    creditMinor := (rows.map TrialBalanceRow.creditMinor).sum
    rows }

/-- Transactions whose own legs do not net to zero. -/
def sampleUnbalancedTransactions (currency : String) (asOf : Option Instant) (limit : Nat) :
    Async (List String) := do
  let ids ← Async.ordered (fun _ _ => true) fun db =>
    let entries := tried currency asOf db
    (entries.map LedgerEntry.transactionId).dedup.filter fun id =>
      let group := entries.filter fun entry => entry.transactionId = id
      directionTotal .debit group - directionTotal .credit group ≠ 0
  pure (ids.take limit)

end LedgerEntryRepository

namespace LedgerTransactionRepository

/-- Idempotency keys that more than one transaction carries, the most frequent first. -/
def listDuplicateIdempotencyKeys (purpose : Purpose) (since : Instant) :
    Async (List DuplicateKeyRow) :=
  Async.ordered (fun first second => second.count ≤ first.count) fun db =>
    let posted := db.transactions.filter fun transaction =>
      transaction.purpose = purpose ∧ since ≤ transaction.postedAt
    let rows := (posted.map LedgerTransaction.idempotencyKey).dedup.map fun idempotencyKey =>
      let group := posted.filter fun transaction =>
        transaction.idempotencyKey = idempotencyKey
      { idempotencyKey
        count := group.length
        currency := least (group.map LedgerTransaction.currency)
        sampleTransactionId := least (group.map LedgerTransaction.id) : DuplicateKeyRow }
    rows.filter fun row => 1 < row.count

end LedgerTransactionRepository

/-- Cached balances least recently recomputed. -/
def MerchantBalanceCacheRepository.listStale (limit : Nat) :
    Async (List MerchantBalanceCache) := do
  let rows ← Async.ordered (fun first second => first.computedAt ≤ second.computedAt)
    Database.balances
  pure (rows.take limit)

/-! ## The checks -/

structure TrialBalanceResult where
  currency : String
  debitMinor : Int
  creditMinor : Int
  balanced : Bool
deriving DecidableEq, Repr

def TrialBalanceResult.deltaMinor (result : TrialBalanceResult) : Int :=
  result.debitMinor - result.creditMinor

/-- `DUPLICATE_LOOKBACK`, two days in microseconds. -/
def duplicateLookback : Instant :=
  2 * 24 * 60 * 60 * 1000000

namespace LedgerAuditService

def publishImbalance (check currency : String) (expected actual : Int)
    (samples : List String) (merchantId : Option String) : Async Unit := do
  let detectedAt ← Async.now
  OutboxPublisher.publish "ledger.imbalance_detected"
    [("check", .text check), ("merchant_id", Json.optional merchantId),
     ("currency", .text currency), ("expected_minor", .int expected),
     ("actual_minor", .int actual), ("delta_minor", .int (actual - expected)),
     ("sample_transaction_ids", .list (samples.map Json.text)),
     ("detected_at", .instant detectedAt)]
    merchantId ("audit:" ++ check ++ ":" ++ currency) true

/-- What the trial balance does in its transaction. -/
def tryBalance (currency : String) : Async TrialBalanceResult := do
  let stamp ← Async.now
  let totals ← Async.select
    (LedgerEntryRepository.trialBalanceByCurrency currency none (some stamp))
  if totals.debitMinor = totals.creditMinor then
    pure
      { currency
        debitMinor := totals.debitMinor
        creditMinor := totals.creditMinor
        balanced := true }
  else
    let samples ← LedgerEntryRepository.sampleUnbalancedTransactions currency (some stamp) 10
    publishImbalance "trial_balance" currency totals.creditMinor totals.debitMinor samples none
    pure
      { currency
        debitMinor := totals.debitMinor
        creditMinor := totals.creditMinor
        balanced := false }

/-- Invariant (2): total debits equal total credits, per currency. -/
def runTrialBalance (currency : String) : Async TrialBalanceResult := do
  let result ← Async.withSession .ledgerCalls (tryBalance currency)
  if result.balanced then pure result
  else
    throw (ledgerError .ledgerIntegrityError
      ("trial balance for " ++ currency ++ " is out by " ++ toString result.deltaMinor ++
        " minor units")
      [("currency", .text currency), ("delta_minor", .int result.deltaMinor)])

/-- What the check for duplicates does in its transaction. -/
def countDuplicates : Async Nat := do
  let clock ← Async.now
  let duplicates ← LedgerTransactionRepository.listDuplicateIdempotencyKeys .settle
    (clock - duplicateLookback)
  match duplicates with
  | [] => pure 0
  | first :: _ =>
      publishImbalance "batch_total" first.currency duplicates.length
        ((duplicates.map fun row => (row.count : Int)).sum)
        ((duplicates.take 10).map DuplicateKeyRow.sampleTransactionId) none
      pure duplicates.length

/-- Invariant (1): exactly one `settle` transaction per settled charge. -/
def checkDuplicateSettlements : Async Nat :=
  Async.withSession .ledgerCalls countDuplicates

/-- The rows among these that the entries contradict; the source counts them. -/
def compareRows : List MerchantBalanceCache → Async (List MerchantBalanceCache)
  | [] => pure []
  | row :: rows => do
      let stamp ← Async.now
      let recomputed ← Async.select fun db =>
        LedgerEntryRepository.sumBuckets row.merchantId row.currency row.livemode (some stamp) db
      let expected := recomputed .merchantPayable
      if expected = row.availableMinor then compareRows rows
      else
        publishImbalance "merchant_balance" row.currency expected row.availableMinor []
          (some row.merchantId)
        let others ← compareRows rows
        pure (row :: others)

/-- What the drift check does in its transaction. -/
def compareStale (limit : Nat) : Async (List MerchantBalanceCache) := do
  let rows ← MerchantBalanceCacheRepository.listStale limit
  compareRows rows

/-- Invariant (3): the cache equals the sum of the entries behind it. -/
def checkBalanceCacheDrift (limit : Nat) : Async (List MerchantBalanceCache) :=
  Async.withSession .ledgerCalls (compareStale limit)

end LedgerAuditService

/-! ## The job -/

/-- What one night finds: currencies out of balance, keys settled twice, rows that drifted. -/
structure AuditReport where
  imbalances : List String
  duplicates : Nat
  drifted : List MerchantBalanceCache
deriving DecidableEq, Repr

namespace LedgerAuditJob

def auditedCurrencies : List String :=
  ["USD", "EUR", "GBP", "ILS"]

/-- An imbalance in one currency does not keep the others from being checked. -/
def trialBalances : List String → Async (List String)
  | [] => pure []
  | currency :: currencies => do
      let found ← Async.recover
        (do
          let result ← LedgerAuditService.runTrialBalance currency
          pure (if result.balanced then [] else [currency]))
        fun raised =>
          if raised.isInstance .ledgerIntegrityError then pure [currency] else throw raised
      let others ← trialBalances currencies
      pure (found ++ others)

/-- One night: all three checks. -/
def runOnce : Async AuditReport := do
  let imbalances ← trialBalances auditedCurrencies
  let duplicates ← LedgerAuditService.checkDuplicateSettlements
  let drifted ← LedgerAuditService.checkBalanceCacheDrift 500
  pure { imbalances, duplicates, drifted }

end LedgerAuditJob

end PayzenoLedger
