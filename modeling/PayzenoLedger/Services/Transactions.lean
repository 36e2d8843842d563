import PayzenoLedger.System
import Mathlib.Data.List.Sort

/-!
# The ledger poster

The one writer of `ledger_transaction` and `ledger_entry`.  A posting checks the
double-entry invariants, claims its idempotency key by inserting the header,
resolves an account for every line, writes one entry per line and adds the
posting's movement to the merchant's balance cache, all in the caller's
transaction.
-/

set_option autoImplicit false

namespace PayzenoLedger

open Library

namespace OutboxPublisher

/-- Stage one event in the caller's transaction, under the identifier generated for it. -/
def stage (id type : String) (payload : List (String × Json)) (merchantId : Option String)
    (correlationId : String) (livemode : Bool) : Async Unit :=
  Async.add .eventOutbox { id, type, payload, merchantId, correlationId, livemode }

def publish (type : String) (payload : List (String × Json)) (merchantId : Option String)
    (correlationId : String) (livemode : Bool) : Async Unit := do
  let id ← Async.newId "evt"
  stage id type payload merchantId correlationId livemode

end OutboxPublisher

namespace Json

def optional : Option String → Json
  | none => .null
  | some value => .text value

end Json

/-! ## Accounts -/

namespace AccountRepository

/-- Look an account up by its natural key; platform accounts have no merchant. -/
def findOne (merchantId : Option String) (type : AccountType) (currency : String)
    (livemode : Bool) : Async (Option Account) :=
  Async.get .account (.accountNatural merchantId type currency livemode)

def getOrRaise (id : String) : Async Account :=
  Async.getOrRaise .account (.account id)
    (ledgerError .accountNotFoundError "Account not found"
      [("details", .object [("id", .text id), ("entity", .text "Account")])])

end AccountRepository

namespace AccountResolver

/-- Return the one account for this (merchant, type, currency, livemode). -/
def getOrCreate (merchantId : Option String) (type : AccountType) (currency : String)
    (livemode : Bool) : Async Account := do
  match type.normalBalance with
  | none =>
      throw (ledgerError .validationError ("unknown account type '" ++ type.toString ++ "'")
        [("account_type", .text type.toString)])
  | some normalBalance =>
      match ← AccountRepository.findOne merchantId type currency livemode with
      | some existing => pure existing
      | none =>
          let id ← Async.newId "acct"
          let account : Account :=
            { id, merchantId, type, currency, normalBalance, status := .active, livemode }
          match ← Async.tryInsert .account account with
          | [] => pure account
          | _ :: _ =>
              -- The savepoint undid this INSERT only: re-read and use the winner.
              match ← AccountRepository.findOne merchantId type currency livemode with
              | some winner => pure winner
              | none => throw .integrityError

end AccountResolver

/-! ## The idempotency claim -/

inductive OnConflict where
  | raise
  | returnExisting
deriving DecidableEq, Repr

/-- The keyword arguments of `LedgerPoster.post`. -/
structure PostRequest where
  idempotencyKey : String
  purpose : Purpose
  merchantId : Option String
  currency : String
  livemode : Bool
  referenceType : ReferenceType
  referenceId : String
  lines : List PostingLine
  createdBy : Actor
  requestFingerprint : String
  onConflict : OnConflict := .raise
deriving DecidableEq, Repr

structure IdempotencyClaim where
  transactionId : String
  created : Bool
  fingerprintMatches : Bool := true

namespace LedgerTransactionRepository

def getOrRaise (id : String) : Async LedgerTransaction :=
  Async.getOrRaise .ledgerTransaction (.transaction id)
    (ledgerError .transactionNotFoundError "LedgerTransaction not found"
      [("details", .object [("id", .text id), ("entity", .text "LedgerTransaction")])])

def findByIdempotencyKey (key : String) : Async (Option LedgerTransaction) :=
  Async.get .ledgerTransaction (.idempotency key)

/-- The header that a claim inserts. -/
def header (request : PostRequest) (id : String) (postedAt : Instant) : LedgerTransaction where
  id := id
  idempotencyKey := request.idempotencyKey
  requestFingerprint := request.requestFingerprint
  purpose := request.purpose
  merchantId := request.merchantId
  currency := request.currency
  livemode := request.livemode
  referenceType := request.referenceType
  referenceId := request.referenceId
  reversesTransactionId := none
  createdBy := request.createdBy
  postedAt := postedAt

/-- `INSERT … ON CONFLICT (idempotency_key) DO NOTHING RETURNING id`. -/
def claimIdempotencyKey (request : PostRequest) : Async IdempotencyClaim := do
  let id ← Async.newId "txn"
  let postedAt ← Async.transactionTime
  let taken ← Async.tryInsert .ledgerTransaction (header request id postedAt)
  if taken = [] then pure { transactionId := id, created := true }
  else if Key.idempotency request.idempotencyKey ∈ taken then
    match ← findByIdempotencyKey request.idempotencyKey with
    | none =>
        throw (ledgerError .transactionNotFoundError
          "idempotency key was claimed and then disappeared"
          [("idempotency_key", .text request.idempotencyKey)])
    | some existing =>
        pure
          { transactionId := existing.id
            created := false
            fingerprintMatches :=
              decide (existing.requestFingerprint = request.requestFingerprint) }
  else throw .integrityError

end LedgerTransactionRepository

/-! ## Entries and balances -/

namespace LedgerEntryRepository

/-- Every leg of one transaction, in the order the posting rule built them. -/
def listForTransaction (transactionId : String) : Async (List LedgerEntry) :=
  Async.select fun db =>
    (db.entries.filter fun entry => entry.transactionId = transactionId).insertionSort
      fun first second => first.sequence ≤ second.sequence

/-- Every entry with its account. -/
def joined (db : Database) : List (LedgerEntry × Account) :=
  db.entries.flatMap fun entry =>
    (db.accounts.filter fun account => account.id = entry.accountId).map fun account =>
      (entry, account)

/-- The rows that the grouped query selects. -/
def bucketRows (merchantId currency : String) (livemode : Bool) (asOf : Option Instant)
    (db : Database) : List (LedgerEntry × Account) :=
  (joined db).filter fun row =>
    row.2.merchantId = some merchantId ∧ row.1.currency = currency ∧
      row.1.livemode = livemode ∧ row.2.type.bucket.isSome ∧
      ∀ instant ∈ asOf, row.1.createdAt ≤ instant

/-- The credits less the debits of one group. -/
def creditPositive (accountType : AccountType) (rows : List (LedgerEntry × Account)) : Int :=
  let group := rows.filter fun row => row.2.type = accountType
  (group.map fun row => if row.1.direction = .credit then row.1.amountMinor else 0).sum -
    (group.map fun row => if row.1.direction = .debit then row.1.amountMinor else 0).sum

/-- `_sum_buckets`: each bucket reads positive on its account's normal side. -/
def sumBuckets (merchantId currency : String) (livemode : Bool) (asOf : Option Instant)
    (db : Database) (bucket : Bucket) : Int :=
  let total := creditPositive bucket.accountType
    (bucketRows merchantId currency livemode asOf db)
  if bucket.accountType.normalBalance = some .debit then -total else total

end LedgerEntryRepository

/-- The signed movement of one posting on each cached column. -/
structure BalanceDelta where
  available : Int
  pending : Int
  reserved : Int
  disputed : Int
deriving DecidableEq, Repr

def BalanceDelta.ofLines (lines : List PostingLine) : BalanceDelta where
  available := signedTotal lines .merchantPayable
  pending := signedTotal lines .merchantPending
  reserved := signedTotal lines .merchantReserve
  disputed := signedTotal lines .merchantDisputed

namespace MerchantBalanceCacheRepository

/-- The row of a merchant whose first posting this is. -/
def fresh (merchantId currency : String) (livemode : Bool) (delta : BalanceDelta)
    (transactionId : String) (stamp : Instant) : MerchantBalanceCache where
  merchantId := merchantId
  currency := currency
  livemode := livemode
  availableMinor := delta.available
  pendingMinor := delta.pending
  reservedMinor := delta.reserved
  disputedMinor := delta.disputed
  negativeBalanceMinor := max 0 (-delta.available)
  lastTransactionId := some transactionId
  computedAt := stamp
  updatedAt := stamp

/-- The `DO UPDATE` arm: the database adds the delta to its own row. -/
def addDelta (delta : BalanceDelta) (transactionId : String) (stamp : Instant)
    (row : MerchantBalanceCache) : MerchantBalanceCache :=
  { row with
    availableMinor := row.availableMinor + delta.available
    pendingMinor := row.pendingMinor + delta.pending
    reservedMinor := row.reservedMinor + delta.reserved
    disputedMinor := row.disputedMinor + delta.disputed
    negativeBalanceMinor := max 0 (-(row.availableMinor + delta.available))
    lastTransactionId := some transactionId
    computedAt := stamp
    updatedAt := stamp }

/-- `INSERT … ON CONFLICT (merchant_id, currency, livemode) DO UPDATE`. -/
def applyDelta (merchantId currency : String) (livemode : Bool) (delta : BalanceDelta)
    (transactionId : String) (stamp : Instant) : Async Unit := do
  match ← Async.tryInsert .merchantBalanceCache
      (fresh merchantId currency livemode delta transactionId stamp) with
  | [] => pure ()
  | _ :: _ =>
      Async.update .merchantBalanceCache (.balance merchantId currency livemode)
        (addDelta delta transactionId stamp) (fun _ => rfl)

end MerchantBalanceCacheRepository

structure PostResult where
  transaction : LedgerTransaction
  created : Bool
deriving DecidableEq, Repr

namespace LedgerPoster

/-- One entry per line, numbered from one, on the line's own account. -/
def materialiseEntries (transactionId : String) (request : PostRequest) :
    Nat → List PostingLine → Async (List LedgerEntry)
  | _, [] => pure []
  | sequence, line :: lines => do
      let account ← AccountResolver.getOrCreate
        (if line.accountType.isPlatform then none else request.merchantId)
        line.accountType request.currency request.livemode
      if account.status = .frozen ∨ account.status = .closed then
        throw (ledgerError .accountFrozenError
          ("account " ++ account.id ++ " is " ++
            if account.status = .frozen then "frozen" else "closed")
          [("account_id", .text account.id), ("merchant_id", Json.optional request.merchantId),
           ("account_type", .text line.accountType.toString)])
      else
        let id ← Async.newId "le"
        let createdAt ← Async.transactionTime
        let entry : LedgerEntry :=
          { id, transactionId, accountId := account.id, direction := line.direction
            amountMinor := line.amountMinor, currency := request.currency
            livemode := request.livemode, sequence, createdAt }
        let rest ← materialiseEntries transactionId request (sequence + 1) lines
        pure (entry :: rest)

/-- Add the posting's movement to the merchant's cached balance, if it moves any
of its buckets. -/
def applyBalanceDelta (request : PostRequest) (transactionId : String) : Async Unit := do
  match request.merchantId with
  | none => pure ()
  | some merchantId =>
      let delta := BalanceDelta.ofLines request.lines
      if delta = ⟨0, 0, 0, 0⟩ then pure ()
      else
        let stamp ← Async.now
        MerchantBalanceCacheRepository.applyDelta merchantId request.currency
          request.livemode delta transactionId stamp

def publishPosted (transaction : LedgerTransaction) (entries : List LedgerEntry) :
    Async Unit :=
  OutboxPublisher.publish "ledger.transaction_posted"
    [("transaction_id", .text transaction.id),
     ("idempotency_key", .text transaction.idempotencyKey),
     ("purpose", .text transaction.purpose.toString),
     ("merchant_id", Json.optional transaction.merchantId),
     ("currency", .text transaction.currency),
     ("reference_type", .text transaction.referenceType.toString),
     ("reference_id", .text transaction.referenceId),
     ("created_by", .text transaction.createdBy.toString),
     ("entry_count", .int entries.length),
     ("amount_minor", .int
       ((entries.filter fun entry => entry.direction = .debit).map (·.amountMinor)).sum),
     ("posted_at", .instant transaction.postedAt)]
    transaction.merchantId transaction.id transaction.livemode

/-- Post one balanced transaction. -/
def post (request : PostRequest) : Async PostResult := do
  Async.check (assertInvariants request.lines)
  let claim ← LedgerTransactionRepository.claimIdempotencyKey request
  if claim.created then
    let transaction ← LedgerTransactionRepository.getOrRaise claim.transactionId
    let entries ← materialiseEntries transaction.id request 1 request.lines
    Async.addAll .ledgerEntry entries
    applyBalanceDelta request transaction.id
    publishPosted transaction entries
    pure ⟨transaction, true⟩
  else
    -- Somebody else owns the key and nothing has been written.
    let existing ← LedgerTransactionRepository.getOrRaise claim.transactionId
    match request.onConflict with
    | .returnExisting => pure ⟨existing, false⟩
    | .raise =>
        throw (ledgerError .duplicateSettlementError
          ("idempotency_key " ++ request.idempotencyKey ++ " already posted")
          [("idempotency_key", .text request.idempotencyKey),
           ("existing_transaction_id", .text claim.transactionId),
           ("fingerprint_matches", .bool claim.fingerprintMatches)])

/-- The posting line that undoes an entry: the same account type, the other side. -/
def flipped : List LedgerEntry → Async (List PostingLine)
  | [] => pure []
  | entry :: entries => do
      let account ← AccountRepository.getOrRaise entry.accountId
      let rest ← flipped entries
      pure ({ accountType := account.type, direction := entry.direction.flip
              amountMinor := entry.amountMinor } :: rest)

/-- The request that posts the mirror image of an existing transaction. -/
def reversalRequest (original : LedgerTransaction) (idempotencyKey : String)
    (createdBy : Actor) (lines : List PostingLine) : PostRequest where
  idempotencyKey := idempotencyKey
  purpose := .reversal
  merchantId := original.merchantId
  currency := original.currency
  livemode := original.livemode
  referenceType := .ledgerTransaction
  referenceId := original.id
  lines := lines
  createdBy := createdBy
  requestFingerprint := original.requestFingerprint

/-- Post the mirror image of an existing transaction. -/
def reverse (original : LedgerTransaction) (idempotencyKey : String) (createdBy : Actor) :
    Async PostResult := do
  let originalEntries ← LedgerEntryRepository.listForTransaction original.id
  let lines ← flipped originalEntries
  let result ← post (reversalRequest original idempotencyKey createdBy lines)
  Async.update .ledgerTransaction (.transaction result.transaction.id)
    (fun row => { row with reversesTransactionId := some original.id }) (fun _ => rfl)
  pure { result with
    transaction := { result.transaction with reversesTransactionId := some original.id } }

end LedgerPoster

end PayzenoLedger
