import PayzenoLedger.Errors
import Mathlib.Algebra.BigOperators.Group.List.Basic
import Mathlib.Algebra.Order.Group.Unbundled.Int
import Mathlib.Algebra.Ring.Int.Defs

/-!
# The chart of accounts and posting lines

Account types with their normal balances, the posting lines that rules build,
and the double-entry checks on a list of lines.  Amounts are in minor units and
unsigned: the direction of a line carries its sign.
-/

set_option autoImplicit false

namespace PayzenoLedger

inductive Direction where
  | debit
  | credit
deriving DecidableEq, Repr

def Direction.flip : Direction → Direction
  | .debit => .credit
  | .credit => .debit

/-- The account types of the chart; a request may name any other string. -/
inductive AccountType where
  | processorClearing
  | merchantReceivable
  | authorizationHold
  | merchantPayable
  | platformFeeRevenue
  | interchangeExpense
  | schemeFeeExpense
  | acquirerFeeExpense
  | reserve
  | chargebackLiability
  | cash
  | roundingAdjustment
  | fxClearing
  | fxRevenue
  | other (name : String)
deriving DecidableEq, Repr

namespace AccountType

def toString : AccountType → String
  | .processorClearing => "processor_clearing"
  | .merchantReceivable => "merchant_receivable"
  | .authorizationHold => "authorization_hold"
  | .merchantPayable => "merchant_payable"
  | .platformFeeRevenue => "platform_fee_revenue"
  | .interchangeExpense => "interchange_expense"
  | .schemeFeeExpense => "scheme_fee_expense"
  | .acquirerFeeExpense => "acquirer_fee_expense"
  | .reserve => "reserve"
  | .chargebackLiability => "chargeback_liability"
  | .cash => "cash"
  | .roundingAdjustment => "rounding_adjustment"
  | .fxClearing => "fx_clearing"
  | .fxRevenue => "fx_revenue"
  | .other name => name

/-- `NORMAL_BALANCE_BY_TYPE`; `none` is a missing key. -/
def normalBalance : AccountType → Option Direction
  | .processorClearing => some .debit
  | .merchantReceivable => some .debit
  | .authorizationHold => some .credit
  | .merchantPayable => some .credit
  | .platformFeeRevenue => some .credit
  | .interchangeExpense => some .debit
  | .schemeFeeExpense => some .debit
  | .acquirerFeeExpense => some .debit
  | .reserve => some .credit
  | .chargebackLiability => some .credit
  | .cash => some .debit
  | .roundingAdjustment => some .credit
  | .fxClearing => some .debit
  | .fxRevenue => some .credit
  | .other _ => none

/-- `PLATFORM_ACCOUNT_TYPES`: these exist once per currency, with no merchant. -/
def isPlatform : AccountType → Bool
  | .cash | .platformFeeRevenue | .interchangeExpense | .schemeFeeExpense
  | .acquirerFeeExpense | .roundingAdjustment | .fxClearing | .fxRevenue => true
  | _ => false

end AccountType

/-- The balance buckets that the API reports for a merchant. -/
inductive Bucket where
  | merchantPayable
  | merchantPending
  | merchantReserve
  | merchantDisputed
deriving DecidableEq, Repr

/-- `BUCKET_ACCOUNT_TYPES`. -/
def AccountType.bucket : AccountType → Option Bucket
  | .merchantPayable => some .merchantPayable
  | .merchantReceivable => some .merchantPending
  | .reserve => some .merchantReserve
  | .chargebackLiability => some .merchantDisputed
  | _ => none

/-- The account type behind a bucket; `BUCKET_ACCOUNT_TYPES` read backwards. -/
def Bucket.accountType : Bucket → AccountType
  | .merchantPayable => .merchantPayable
  | .merchantPending => .merchantReceivable
  | .merchantReserve => .reserve
  | .merchantDisputed => .chargebackLiability

theorem AccountType.bucket_eq_some_iff {accountType : AccountType} {bucket : Bucket} :
    accountType.bucket = some bucket ↔ accountType = bucket.accountType := by
  cases accountType <;> cases bucket <;> simp [AccountType.bucket, Bucket.accountType]

/-- No bucket is fed by a platform account, so the merchant of a bucket's
account is the merchant of the posting. -/
theorem AccountType.isPlatform_of_bucket {accountType : AccountType} {bucket : Bucket}
    (hbucket : accountType.bucket = some bucket) : accountType.isPlatform = false := by
  cases accountType <;> simp_all [AccountType.bucket, AccountType.isPlatform]

/-- One leg of a balanced transaction. -/
structure PostingLine where
  accountType : AccountType
  direction : Direction
  amountMinor : Int
deriving DecidableEq, Repr

namespace PostingLine

/-- Debit-positive signed amount. -/
def signedMinor (line : PostingLine) : Int :=
  if line.direction = .debit then line.amountMinor else -line.amountMinor

def mirror (line : PostingLine) : PostingLine :=
  { line with direction := line.direction.flip }

end PostingLine

def debit (accountType : AccountType) (amountMinor : Int) : PostingLine :=
  { accountType, direction := .debit, amountMinor }

def credit (accountType : AccountType) (amountMinor : Int) : PostingLine :=
  { accountType, direction := .credit, amountMinor }

/-- The sum of the amounts on one side. -/
def sideTotal (direction : Direction) (lines : List PostingLine) : Int :=
  ((lines.filter fun line => line.direction = direction).map (·.amountMinor)).sum

/-- Movement of the account types in a bucket on their normal side, the sign
that `_sum_buckets` reads back. -/
def signedTotal (lines : List PostingLine) (bucket : Bucket) : Int :=
  (lines.map fun line =>
    if line.accountType.bucket = some bucket then
      let normal := line.accountType.normalBalance.getD .credit
      if line.direction = normal then line.amountMinor else -line.amountMinor
    else 0).sum

/-- The same legs with every direction flipped: a reversal's shape. -/
def mirrored (lines : List PostingLine) : List PostingLine :=
  lines.map PostingLine.mirror

/-- The double-entry invariants of a list of lines: at least two, balanced, and
every amount strictly positive. -/
structure Balanced (lines : List PostingLine) : Prop where
  two : 2 ≤ lines.length
  balance : sideTotal .debit lines = sideTotal .credit lines
  positive : ∀ line ∈ lines, 0 < line.amountMinor

/-- The first line whose amount is not strictly positive, if any, is refused. -/
def assertPositive : List PostingLine → Except Exception Unit
  | [] => .ok ()
  | line :: lines =>
      if line.amountMinor ≤ 0 then
        .error (ledgerError .negativeAmountError
          "posting amounts are unsigned; direction carries the sign"
          [("account_type", .text line.accountType.toString),
           ("amount_minor", .int line.amountMinor)])
      else assertPositive lines

/-- `LedgerPoster._assert_invariants`.  A posting line has no currency and no
livemode of its own, so the comparisons with the header's never differ. -/
def assertInvariants (lines : List PostingLine) : Except Exception Unit :=
  let debits := sideTotal .debit lines
  let credits := sideTotal .credit lines
  if lines.length < 2 then
    .error (ledgerError .unbalancedTransactionError
      "a transaction needs at least two entries" [("line_count", .int lines.length)])
  else if debits ≠ credits then
    .error (ledgerError .unbalancedTransactionError "debits and credits do not balance"
      [("debit_minor", .int debits), ("credit_minor", .int credits)])
  else assertPositive lines

theorem assertPositive_ok_iff (lines : List PostingLine) :
    assertPositive lines = .ok () ↔ ∀ line ∈ lines, 0 < line.amountMinor := by
  induction lines with
  | nil => simp [assertPositive]
  | cons line lines ih =>
      unfold assertPositive
      split
      · next hle =>
          simp only [reduceCtorEq, List.forall_mem_cons, false_iff, not_and]
          omega
      · next hpos =>
          rw [ih, List.forall_mem_cons]
          exact ⟨fun h => ⟨by omega, h⟩, fun h => h.2⟩

/-- The checks pass exactly on the balanced lists of lines. -/
theorem assertInvariants_ok_iff (lines : List PostingLine) :
    assertInvariants lines = .ok () ↔ Balanced lines := by
  unfold assertInvariants
  dsimp only
  split
  · next hshort => exact ⟨fun h => by simp at h, fun h => absurd h.two (by omega)⟩
  · next hlong =>
      split
      · next hne => exact ⟨fun h => by simp at h, fun h => absurd h.balance hne⟩
      · next heq =>
          rw [assertPositive_ok_iff]
          exact ⟨fun h => ⟨by omega, not_not.mp heq, h⟩, fun h => h.positive⟩

end PayzenoLedger
