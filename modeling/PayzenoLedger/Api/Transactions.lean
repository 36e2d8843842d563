import PayzenoLedger.Services.SettlementPoster

/-!
# The transactions router

`POST /transactions` posts one transaction, `POST /transactions/bulk` many of
them in one database transaction.  Both fingerprint the body with the function
that was written for settlement lines.
-/

set_option autoImplicit false

namespace PayzenoLedger

open Library

/-- The body of a posting, as the routes read it. -/
structure PostTransactionRequest where
  idempotencyKey : String
  purpose : Purpose
  merchantId : Option String
  currency : String
  livemode : Bool
  referenceType : ReferenceType
  referenceId : String
  lines : List PostingLine
deriving DecidableEq, Repr

namespace PostTransactionRequest

/-- What `fingerprint_of` hashes of a body: `getattr` finds three of its fields. -/
def fingerprinted (body : PostTransactionRequest) : Json :=
  .object
    [("acquirer_reference", .null), ("batch_id", .null), ("charge_id", .null),
     ("currency", .text body.currency), ("fee_minor", .null), ("gross_minor", .null),
     ("interchange_minor", .null), ("item_id", .null), ("line_type", .null),
     ("livemode", .bool body.livemode), ("merchant_id", Json.optional body.merchantId),
     ("net_minor", .null), ("scheme_fee_minor", .null)]

def fingerprintOf (settings : Settings) (body : PostTransactionRequest) : String :=
  settings.sha256 body.fingerprinted

/-- The arguments with which a route calls the poster. -/
def posting (settings : Settings) (createdBy : Actor) (onConflict : OnConflict)
    (body : PostTransactionRequest) : PostRequest where
  idempotencyKey := body.idempotencyKey
  purpose := body.purpose
  merchantId := body.merchantId
  currency := body.currency
  livemode := body.livemode
  referenceType := body.referenceType
  referenceId := body.referenceId
  lines := body.lines
  createdBy := createdBy
  requestFingerprint := body.fingerprintOf settings
  onConflict := onConflict

end PostTransactionRequest

inductive ApiRequest where
  | post (caller : String) (body : PostTransactionRequest)
  | bulk (bodies : List PostTransactionRequest)

/-- What a route answers when it raises nothing. -/
inductive ApiResponse where
  | transaction (status : Nat) (transaction : LedgerTransaction) (entries : List LedgerEntry)
  | bulk (transactionIds : List String)

/-- `POST /transactions`. -/
def postTransaction (settings : Settings) (caller : String) (body : PostTransactionRequest) :
    Async ApiResponse := do
  let (result, entries) ← Async.withSession .ledgerCalls do
    let result ← LedgerPoster.post
      (body.posting settings (if caller = "payzeno-api" then .system else .admin) .raise)
    let entries ← LedgerEntryRepository.listForTransaction result.transaction.id
    pure (result, entries)
  pure (.transaction (if result.created then 201 else 200) result.transaction entries)

def postAll (settings : Settings) : List PostTransactionRequest → Async (List String)
  | [] => pure []
  | body :: bodies => do
      let result ← LedgerPoster.post (body.posting settings .system .returnExisting)
      let transactionIds ← postAll settings bodies
      pure (result.transaction.id :: transactionIds)

/-- `POST /transactions/bulk`: one session, one transaction, one rollback. -/
def postTransactionsBulk (settings : Settings) (bodies : List PostTransactionRequest) :
    Async ApiResponse := do
  let transactionIds ← Async.withSession .ledgerCalls (postAll settings bodies)
  pure (.bulk transactionIds)

def ApiRequest.serve (settings : Settings) : ApiRequest → Async ApiResponse
  | .post caller body => postTransaction settings caller body
  | .bulk bodies => postTransactionsBulk settings bodies

end PayzenoLedger
