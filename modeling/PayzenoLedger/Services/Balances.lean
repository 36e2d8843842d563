import Mathlib.Data.Int.ConditionallyCompleteOrder
import PayzenoLedger.Library.Buckets
import PayzenoLedger.Library.Decimal
import PayzenoLedger.Services.Audit

/-!
# Balance history

The movement of the payable account of a merchant over a window, in buckets of one width: the
entries grouped by the start of the bucket they fall into, and a running sum over the groups.
-/

set_option autoImplicit false

namespace PayzenoLedger

open Library

/-- A datetime that a caller passes: the instant, which may lie before the epoch, and how it
prints with the offset it came with. -/
structure Datetime where
  instant : Int
  isoformat : String

/-- Microseconds in an hour. -/
def hourMicros : Int := 60 * 60 * 1000000

/-- `INTERVALS`. -/
def balanceIntervals : List (String × Int) :=
  [("hour", hourMicros), ("day", 24 * hourMicros), ("week", 7 * 24 * hourMicros)]

/-- `MAX_BUCKETS`. -/
def maxBuckets : Int := 400

/-- `int(span / width)`. The quotient is a binary64 number, of 53 bits, before it is cut. -/
def wholeWidths (span width : Int) : Int :=
  let quotient := span / width
  if quotient = 0 then 0
  else
    let scale : Int := 2 ^ (52 - quotient.toNat.log2)
    roundHalfEven (span * scale) width / scale

def bucketCount (from_ to_ : Datetime) (width : Int) : Int :=
  wholeWidths (to_.instant - from_.instant) width + 1

/-- The units of `date_trunc` that an interval may name. -/
inductive TruncUnit where
  | hour
  | day
  | week
deriving DecidableEq, Repr

/-- `date_trunc` in the time zone of the session. What is later is not truncated to earlier. -/
structure SessionZone where
  dateTrunc : TruncUnit → Int → Int
  monotone : ∀ unit, Monotone (dateTrunc unit)

/-- Weeks begin on a Monday and the epoch is a Thursday. -/
def SessionZone.utc : SessionZone where
  dateTrunc
    | .hour, at_ => at_ / hourMicros * hourMicros
    | .day, at_ => at_ / (24 * hourMicros) * (24 * hourMicros)
    | .week, at_ =>
        (at_ + 3 * 24 * hourMicros) / (7 * 24 * hourMicros) * (7 * 24 * hourMicros) -
          3 * 24 * hourMicros
  monotone unit first second h := by
    cases unit <;> (simp only [hourMicros]; omega)

/-! ## Queries -/

structure BalanceBucketRow where
  bucketStart : Int
  deltaMinor : Int
  entryCount : Nat
deriving DecidableEq, Repr

namespace LedgerEntryRepository

/-- `_TRUNC_UNIT`. -/
def truncUnit : List (String × TruncUnit) :=
  [("hour", .hour), ("day", .day)]

/-- Credits less debits. -/
def netMinor (entries : List LedgerEntry) : Int :=
  directionTotal .credit entries - directionTotal .debit entries

def inWindow (accountId : String) (from_ to_ : Datetime) (entry : LedgerEntry) : Bool :=
  entry.accountId = accountId ∧ from_.instant ≤ entry.createdAt ∧ entry.createdAt < to_.instant

def bucketOf (zone : SessionZone) (unit : TruncUnit) (entry : LedgerEntry) : Int :=
  zone.dateTrunc unit entry.createdAt

def bucketRow (start : Int) (group : List LedgerEntry) : BalanceBucketRow where
  bucketStart := start
  deltaMinor := netMinor group
  entryCount := group.length

/-- Movement on one account, bucketed by hour or day, oldest first. -/
def sumByBucket (zone : SessionZone) (repr : String → String) (accountId : String)
    (from_ to_ : Datetime) (interval : String) (db : Database) :
    Except Exception (List BalanceBucketRow) :=
  match truncUnit.lookup interval with
  | none => .error (.valueError ("unsupported interval " ++ repr interval))
  | some unit =>
      let entries := db.entries.filter (inWindow accountId from_ to_)
      let bucket := bucketOf zone unit
      .ok ((Buckets.starts bucket entries).map fun start =>
        bucketRow start (Buckets.group bucket entries start))

end LedgerEntryRepository

/-- The row that `find_one` selects. -/
def AccountRepository.named (merchantId : Option String) (type : AccountType)
    (currency : String) (livemode : Bool) (db : Database) : Option Account :=
  (Schema.holders (S := schema) .account
    (.accountNatural merchantId type currency livemode) db).head?

/-! ## The service -/

/-- `bucket_start` stands for what its instant prints as. -/
structure TimeseriesPoint where
  bucketStart : Int
  amountMinor : Int
  count : Nat
deriving DecidableEq, Repr

structure BalanceHistory where
  merchantId : String
  currency : String
  interval : String
  points : List TimeseriesPoint
deriving DecidableEq, Repr

namespace BalanceService

/-- The payable balance at the end of each bucket, accumulated from the start of the window. -/
def accumulate (running : Int) : List BalanceBucketRow → List TimeseriesPoint
  | [] => []
  | row :: rows =>
      { bucketStart := row.bucketStart
        amountMinor := running + row.deltaMinor
        count := row.entryCount } :: accumulate (running + row.deltaMinor) rows

/-- What a request is checked for before anything is read. -/
def checkWindow (repr : String → String) (from_ to_ : Datetime) (interval : String) :
    Except Exception Unit :=
  match balanceIntervals.lookup interval with
  | none =>
      .error (ledgerError .validationError ("unsupported interval " ++ repr interval)
        [("interval", .text interval),
         ("supported", .list [.text "day", .text "hour", .text "week"])])
  | some width =>
      if to_.instant ≤ from_.instant then
        .error (ledgerError .validationError "`to` must be after `from`"
          [("from_", .text from_.isoformat)])
      else if maxBuckets < bucketCount from_ to_ width then
        .error (ledgerError .validationError "requested range produces too many buckets"
          [("buckets", .int (bucketCount from_ to_ width)), ("max_buckets", .int maxBuckets),
           ("interval", .text interval)])
      else .ok ()

/-- The account and the entries are read one after the other: `opened` is the database at the
first of the two reads and `db` at the second. -/
def getBalanceHistory (zone : SessionZone) (repr : String → String)
    (merchantId currency : String) (livemode : Bool) (from_ to_ : Datetime) (interval : String)
    (opened db : Database) : Except Exception BalanceHistory := do
  checkWindow repr from_ to_ interval
  match AccountRepository.named (some merchantId) .merchantPayable currency livemode opened with
  | none => pure { merchantId, currency, interval, points := [] }
  | some account =>
      let rows ← LedgerEntryRepository.sumByBucket zone repr account.id from_ to_ interval db
      pure { merchantId, currency, interval, points := accumulate 0 rows }

end BalanceService

end PayzenoLedger
