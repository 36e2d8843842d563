import PayzenoLedger.Models
import PayzenoLedger.Library.Soundness

/-!
# The database and the outside world

The schema of `payzeno_ledger`: its tables, the keys of its unique indexes and
the columns that the services never update.  The outside world is the clock and
the acquirers' record of the captures they performed.
-/

set_option autoImplicit false

namespace PayzenoLedger

open Library

structure Database where
  accounts : List Account := []
  transactions : List LedgerTransaction := []
  entries : List LedgerEntry := []
  balances : List MerchantBalanceCache := []
  outbox : List EventOutbox := []
  batches : List SettlementBatch := []
  fundings : List FundingEvent := []
  runs : List ReconciliationRun := []
  items : List ReconciliationItem := []
  charges : List SettlementCharge := []
  merchants : List MerchantProjection := []
  attempts : List CaptureAttempt := []
  banks : List BankAccountProjection := []
  payouts : List Payout := []
  holds : List ReserveHold := []
  adjustments : List LedgerAdjustmentRequest := []

inductive Table where
  | account
  | ledgerTransaction
  | ledgerEntry
  | merchantBalanceCache
  | eventOutbox
  | settlementBatch
  | fundingEvent
  | reconciliationRun
  | reconciliationItem
  | settlementCharge
  | merchantProjection
  | captureAttempt
  | bankAccountProjection
  | payout
  | reserveHold
  | ledgerAdjustmentRequest
deriving DecidableEq, Repr

namespace Table

@[reducible]
def Row : Table → Type
  | account => Account
  | ledgerTransaction => LedgerTransaction
  | ledgerEntry => LedgerEntry
  | merchantBalanceCache => MerchantBalanceCache
  | eventOutbox => EventOutbox
  | settlementBatch => SettlementBatch
  | fundingEvent => FundingEvent
  | reconciliationRun => ReconciliationRun
  | reconciliationItem => ReconciliationItem
  | settlementCharge => SettlementCharge
  | merchantProjection => MerchantProjection
  | captureAttempt => CaptureAttempt
  | bankAccountProjection => BankAccountProjection
  | payout => Payout
  | reserveHold => ReserveHold
  | ledgerAdjustmentRequest => LedgerAdjustmentRequest

def rows : (table : Table) → Database → List table.Row
  | account, db => db.accounts
  | ledgerTransaction, db => db.transactions
  | ledgerEntry, db => db.entries
  | merchantBalanceCache, db => db.balances
  | eventOutbox, db => db.outbox
  | settlementBatch, db => db.batches
  | fundingEvent, db => db.fundings
  | reconciliationRun, db => db.runs
  | reconciliationItem, db => db.items
  | settlementCharge, db => db.charges
  | merchantProjection, db => db.merchants
  | captureAttempt, db => db.attempts
  | bankAccountProjection, db => db.banks
  | payout, db => db.payouts
  | reserveHold, db => db.holds
  | ledgerAdjustmentRequest, db => db.adjustments

def setRows : (table : Table) → List table.Row → Database → Database
  | account, rows, db => { db with accounts := rows }
  | ledgerTransaction, rows, db => { db with transactions := rows }
  | ledgerEntry, rows, db => { db with entries := rows }
  | merchantBalanceCache, rows, db => { db with balances := rows }
  | eventOutbox, rows, db => { db with outbox := rows }
  | settlementBatch, rows, db => { db with batches := rows }
  | fundingEvent, rows, db => { db with fundings := rows }
  | reconciliationRun, rows, db => { db with runs := rows }
  | reconciliationItem, rows, db => { db with items := rows }
  | settlementCharge, rows, db => { db with charges := rows }
  | merchantProjection, rows, db => { db with merchants := rows }
  | captureAttempt, rows, db => { db with attempts := rows }
  | bankAccountProjection, rows, db => { db with banks := rows }
  | payout, rows, db => { db with payouts := rows }
  | reserveHold, rows, db => { db with holds := rows }
  | ledgerAdjustmentRequest, rows, db => { db with adjustments := rows }

end Table

/-- The keys of the unique indexes. -/
inductive Key where
  | account (id : String)
  | accountNatural (merchantId : Option String) (type : AccountType) (currency : String)
      (livemode : Bool)
  | transaction (id : String)
  | idempotency (key : String)
  | entry (id : String)
  | entrySequence (transactionId : String) (sequence : Nat)
  | balance (merchantId currency : String) (livemode : Bool)
  | outbox (id : String)
  | batch (id : String)
  | batchFile (acquirer fileReference : String)
  | funding (id : String)
  | bankReference (reference : String)
  | run (id : String)
  | item (id : String)
  | itemReference (batchId acquirerReference : String)
  | charge (id : String)
  | merchant (id : String)
  | attempt (id : String)
  | attemptKey (acquirer acquirerIdempotencyKey : String)
  | bank (id : String)
  | bankDefault (merchantId currency : String) (livemode : Bool)
  | payout (id : String)
  | payoutInFlight (merchantId currency : String) (livemode : Bool)
  | hold (id : String)
  | adjustment (id : String)
deriving DecidableEq, Repr

/-- The keys a row holds.  An account without a merchant is kept unique by
`pix_account_platform`; a bank account is filed by currency only while it is the
default, a payout by balance only while it is in flight. -/
def Table.keys : (table : Table) → table.Row → List Key
  | account, row =>
      [.account row.id, .accountNatural row.merchantId row.type row.currency row.livemode]
  | ledgerTransaction, row => [.transaction row.id, .idempotency row.idempotencyKey]
  | ledgerEntry, row => [.entry row.id, .entrySequence row.transactionId row.sequence]
  | merchantBalanceCache, row => [.balance row.merchantId row.currency row.livemode]
  | eventOutbox, row => [.outbox row.id]
  | settlementBatch, row => [.batch row.id, .batchFile row.acquirer row.fileReference]
  | fundingEvent, row => [.funding row.id, .bankReference row.bankReference]
  | reconciliationRun, row => [.run row.id]
  | reconciliationItem, row =>
      [.item row.id, .itemReference row.batchId row.acquirerReference]
  | settlementCharge, row => [.charge row.chargeId]
  | merchantProjection, row => [.merchant row.merchantId]
  | captureAttempt, row =>
      [.attempt row.id, .attemptKey row.acquirer row.acquirerIdempotencyKey]
  | bankAccountProjection, row =>
      .bank row.bankAccountId ::
        if row.isDefault then [.bankDefault row.merchantId row.currency row.livemode] else []
  | payout, row =>
      .payout row.id ::
        if row.status.isInFlight then
          [.payoutInFlight row.merchantId row.balanceCurrency row.livemode] else []
  | reserveHold, row => [.hold row.id]
  | ledgerAdjustmentRequest, row => [.adjustment row.id]

/-- The columns of an account that no service updates. -/
structure AccountIdentity where
  id : String
  merchantId : Option String
  type : AccountType
  currency : String
  livemode : Bool
deriving DecidableEq

def Account.identity (account : Account) : AccountIdentity :=
  ⟨account.id, account.merchantId, account.type, account.currency, account.livemode⟩

/-- What an update leaves of a batch: the file it came from. -/
def SettlementBatch.file (batch : SettlementBatch) : SettlementBatch :=
  { batch with
    expectedTotalMinor := 0, postedTotalMinor := 0, fundedAmountMinor := 0,
    fundingEventId := none, itemCount := 0, status := .opened, closedAt := none,
    reconciledAt := none, fundedAt := none }

/-- What an update leaves of a funding event: the credit on the statement. -/
def FundingEvent.credit (event : FundingEvent) : FundingEvent :=
  { event with status := .unmatched, matchedBatchId := none, varianceMinor := 0 }

/-- What an update leaves of an item: the line of the acquirer's file. -/
def ReconciliationItem.line (item : ReconciliationItem) : ReconciliationItem :=
  { item with
    chargeId := none, merchantId := none, expectedGrossMinor := none, varianceMinor := 0,
    matchMethod := .unmatched, matchedAt := none, status := .pending, attemptCount := 0,
    lastErrorCode := none, lastAttemptAt := none, nextAttemptAt := 0,
    settledTransactionId := none }

/-- What an update leaves of a payout: everything but its status, its
timestamps, the bank's answers and the links to its postings. -/
def Payout.terms (payout : Payout) : Payout :=
  { payout with
    status := .scheduled, arrivalEstimate := none, failureCode := none,
    failureMessage := none, ledgerTransactionId := none, reversalTransactionId := none,
    bankReference := none, initiatedAt := none, paidAt := none, failedAt := none,
    returnedAt := none }

/-- What an update leaves of a hold: all but the release. -/
def ReserveHold.tranche (hold : ReserveHold) : ReserveHold :=
  { hold with releasedTransactionId := none }

/-- What an update leaves of an adjustment request: what was requested. -/
def LedgerAdjustmentRequest.requested (record : LedgerAdjustmentRequest) :
    LedgerAdjustmentRequest :=
  { record with
    approvedBy := none, approvedAt := none, postedTransactionId := none, status := .pending }

@[reducible]
def Table.Identity : Table → Type
  | account => AccountIdentity
  | ledgerTransaction => LedgerTransaction
  | ledgerEntry => LedgerEntry
  | merchantBalanceCache => String × String × Bool
  | eventOutbox => String
  | settlementBatch => SettlementBatch
  | fundingEvent => FundingEvent
  | reconciliationRun => String × String
  | reconciliationItem => ReconciliationItem
  | settlementCharge => String
  | merchantProjection => String
  | captureAttempt => String × String
  | bankAccountProjection => String
  | payout => Payout
  | reserveHold => ReserveHold
  | ledgerAdjustmentRequest => LedgerAdjustmentRequest

def Table.identity : (table : Table) → table.Row → table.Identity
  | account, row => row.identity
  | ledgerTransaction, row => { row with reversesTransactionId := none }
  | ledgerEntry, row => row
  | merchantBalanceCache, row => (row.merchantId, row.currency, row.livemode)
  | eventOutbox, row => row.id
  | settlementBatch, row => row.file
  | fundingEvent, row => row.credit
  | reconciliationRun, row => (row.id, row.batchId)
  | reconciliationItem, row => row.line
  | settlementCharge, row => row.chargeId
  | merchantProjection, row => row.merchantId
  | captureAttempt, row => (row.id, row.chargeId)
  | bankAccountProjection, row => row.bankAccountId
  | payout, row => row.terms
  | reserveHold, row => row.tranche
  | ledgerAdjustmentRequest, row => row.requested

/-- The schema of `payzeno_ledger`. -/
@[reducible]
def schema : Schema where
  Database := Database
  Table := Table
  Row := Table.Row
  Key := Key
  Identity := Table.Identity
  decKey := inferInstance
  decTable := inferInstance
  rows := Table.rows
  setRows := Table.setRows
  keys := Table.keys
  identity := Table.identity
  rows_setRows_self table _ _ := by cases table <;> rfl
  rows_setRows_of_ne table other _ _ h := by
    cases table <;> cases other <;> first | rfl | exact absurd rfl h

theorem unique_empty : Schema.Unique (S := schema) {} :=
  Schema.unique_of_pairwise fun table => by cases table <;> exact .nil

/-- The writes that append rows to one table. -/
def inserts (table : Table) (rows : List table.Row) : List (Write schema) :=
  rows.map (Write.insert (S := schema) table)

theorem applyAll_inserts (table : Table) (rows : List table.Row) (db : Database) :
    Write.applyAll (inserts table rows) db =
      table.setRows (table.rows db ++ rows) db := by
  unfold inserts
  induction rows generalizing db with
  | nil => cases table <;> simp [Table.setRows, Table.rows]
  | cons row rows ih =>
      rw [List.map_cons, Write.applyAll_cons, ih]
      cases table <;> simp [Write.apply, Table.setRows, Table.rows]

end PayzenoLedger
