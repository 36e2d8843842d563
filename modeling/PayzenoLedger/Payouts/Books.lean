import PayzenoLedger.Ledger.Weights
import PayzenoLedger.Workers.Payouts

/-!
# What a payout books

A payout has up to four transactions, each under a key of its own: one that takes the amount
from the balance, one that sends it to the bank when the two are in different currencies, and
the reversal of each.  The law of the payouts says which of them are on the books, and that
they carry the payout's own amounts.
-/

set_option autoImplicit false

namespace PayzenoLedger

open Library Write

/-! ## The four transactions -/

/-- The transactions of a payout. -/
inductive PayoutLeg where
  | balance
  | bank
  | balanceReversal
  | bankReversal
deriving DecidableEq, Repr

namespace PayoutLeg

/-- The purpose of the key under which a transaction is posted. -/
def keyPurpose : PayoutLeg → String
  | .balance => "payout"
  | .bank => "payoutfx"
  | .balanceReversal => "payoutrev"
  | .bankReversal => "payoutfxrev"

end PayoutLeg

namespace Payout

def key (payout : Payout) (leg : PayoutLeg) : String :=
  leg.keyPurpose ++ ":" ++ payout.merchantId ++ ":" ++ payout.id

/-- Keys can be built of the payout. -/
def Named (payout : Payout) : Prop :=
  ∀ leg : PayoutLeg, ledgerKey leg.keyPurpose payout.merchantId payout.id = .ok (payout.key leg)

/-- What leaves the balance, in its currency. -/
def balanceLines (payout : Payout) : List PostingLine :=
  [debit .merchantPayable payout.balanceAmountMinor,
   credit (if payout.isConverted then .fxClearing else .cash) payout.balanceAmountMinor]

/-- What reaches the bank of a converted payout, in its currency. -/
def bankLines (payout : Payout) : List PostingLine :=
  let spreadMinor := payout.fxSpreadMinor.getD 0
  [debit .fxClearing (payout.amountMinor + spreadMinor), credit .cash payout.amountMinor,
   credit .fxRevenue spreadMinor].filter fun line => line.amountMinor ≠ 0

/-- A payout in one currency is reversed by lines of its own. -/
def balanceReversalLines (payout : Payout) : List PostingLine :=
  if payout.isConverted then mirrored payout.balanceLines
  else
    [debit .cash payout.balanceAmountMinor, credit .merchantPayable payout.balanceAmountMinor]

def lines (payout : Payout) : PayoutLeg → List PostingLine
  | .balance => payout.balanceLines
  | .bank => payout.bankLines
  | .balanceReversal => payout.balanceReversalLines
  | .bankReversal => mirrored payout.bankLines

def legCurrency (payout : Payout) : PayoutLeg → String
  | .balance | .balanceReversal => payout.balanceCurrency
  | .bank | .bankReversal => payout.currency

/-- The amount of the payout, if it came out of this balance. -/
def share (merchantId currency : String) (livemode : Bool) (payout : Payout) : Int :=
  if payout.merchantId = merchantId ∧ payout.balanceCurrency = currency ∧
      payout.livemode = livemode then
    payout.balanceAmountMinor
  else 0

end Payout

/-! ## The law -/

/-- The transactions under a key; there is at most one. -/
def transactionsUnder (key : String) (db : Database) : List LedgerTransaction :=
  db.transactions.filter fun transaction => transaction.idempotencyKey = key

/-- The transaction is this one of the payout. -/
structure Carries (payout : Payout) (leg : PayoutLeg) (db : Database)
    (transaction : LedgerTransaction) : Prop where
  merchant : transaction.merchantId = some payout.merchantId
  currency : transaction.currency = payout.legCurrency leg
  livemode : transaction.livemode = payout.livemode
  lines : linesOf transaction.id db = payout.lines leg

/-- The transaction with this identifier is on the books, or there is none. -/
def LegPosted (payout : Payout) (leg : PayoutLeg) (db : Database) : Option String → Prop
  | none => transactionsUnder (payout.key leg) db = []
  | some id => ∃ transaction, transactionsUnder (payout.key leg) db = [transaction] ∧
      transaction.id = id ∧ Carries payout leg db transaction

/-- The statuses that a payout has only once it was reversed. -/
def PayoutStatus.isReversed : PayoutStatus → Bool
  | .failed | .returned | .canceled => true
  | _ => false

/-- The links and the status of a payout go with what is posted for it. -/
structure Linked (payout : Payout) (posted : PayoutLeg → Option String) : Prop where
  booked : (posted .balance).isSome
  balance : posted .balance = payout.ledgerTransactionId
  bank : (posted .bank).isSome = payout.isConverted
  reversal : posted .balanceReversal = payout.reversalTransactionId
  bankReversal : (posted .bankReversal).isSome =
    (payout.isConverted && payout.reversalTransactionId.isSome)
  status : payout.status.isReversed = true → payout.reversalTransactionId.isSome

/-- A payout stands in the books as its row says. -/
structure Accounted (payout : Payout) (db : Database) : Prop where
  named : payout.Named
  complete : payout.isConverted = false → payout.sourceAmountMinor = none
  posted : ∃ posted, (∀ leg, LegPosted payout leg db (posted leg)) ∧ Linked payout posted

/-- What was ever paid out of a balance. -/
def drawn (merchantId currency : String) (livemode : Bool) (db : Database) : Int :=
  (db.payouts.map (Payout.share merchantId currency livemode)).sum

/-- An entry on the payable account of a balance, on one side. -/
def payableWeight (direction : Direction) (merchantId currency : String) (livemode : Bool)
    (entry : LedgerEntry) (identity : AccountIdentity) : Int :=
  if identity.merchantId = some merchantId ∧ identity.type = .merchantPayable ∧
      entry.currency = currency ∧ entry.livemode = livemode ∧ entry.direction = direction then
    entry.amountMinor
  else 0

/-- What was ever entered on one side of a payable balance. -/
def payableSum (direction : Direction) (merchantId currency : String) (livemode : Bool)
    (db : Database) : Int :=
  weigh (payableWeight direction merchantId currency livemode) db

/-- A transaction under one of the keys belongs to a payout on file. -/
def Owned (db : Database) : Prop :=
  ∀ transaction ∈ db.transactions, ∀ (leg : PayoutLeg) merchantId id,
    ledgerKey leg.keyPurpose merchantId id = .ok transaction.idempotencyKey →
    ∃ payout ∈ db.payouts, payout.merchantId = merchantId ∧ payout.id = id

/-- Every payout is accounted for, and the debits of the balances cover what was paid out of
them.  Where nothing else is debited (`quiet`), there are no other debits. -/
structure PayoutLaw (quiet : Prop) (db : Database) : Prop where
  ledger : DoubleEntry db
  payouts : ∀ payout ∈ db.payouts, Accounted payout db
  owned : Owned db
  covered : ∀ merchantId currency livemode,
    drawn merchantId currency livemode db ≤ payableSum .debit merchantId currency livemode db
  exact : quiet → ∀ merchantId currency livemode,
    payableSum .debit merchantId currency livemode db ≤ drawn merchantId currency livemode db

/-- The law for all payouts but one, of which this is posted so far. -/
structure PayoutDraft (quiet : Prop) (payout : Payout) (posted : PayoutLeg → Option String)
    (db : Database) : Prop where
  ledger : DoubleEntry db
  others : ∀ other ∈ db.payouts, other.id ≠ payout.id → Accounted other db
  own : payout.Named → ∀ leg, LegPosted payout leg db (posted leg)
  onFile : ∃ row ∈ db.payouts, row.terms = payout.terms
  owned : Owned db
  covered : ∀ merchantId currency livemode,
    drawn merchantId currency livemode db ≤
      payableSum .debit merchantId currency livemode db +
        if (posted .balance).isSome then 0 else payout.share merchantId currency livemode
  exact : quiet → ∀ merchantId currency livemode,
    payableSum .debit merchantId currency livemode db +
        (if (posted .balance).isSome then 0 else payout.share merchantId currency livemode) ≤
      drawn merchantId currency livemode db

/-! ## Keys -/

/-- A key that is built names its payout. -/
theorem Payout.named_of_key {payout : Payout} {leg : PayoutLeg} {key : String}
    (h : ledgerKey leg.keyPurpose payout.merchantId payout.id = .ok key) :
    payout.Named ∧ key = payout.key leg := by
  obtain ⟨components, hkey⟩ := (ledgerKey_eq_ok _ _ _ _).mp h
  refine ⟨fun other => (ledgerKey_eq_ok _ _ _ _).mpr ⟨?_, rfl⟩, hkey.symm⟩
  have hsubject : payout.id ≠ "" := fun hempty => by
    have hfee := components.subject hempty
    cases leg <;> exact absurd hfee (by decide)
  constructor
  · refine ⟨?_, components.separators.2⟩
    cases other <;> decide
  · cases other <;> decide
  · exact components.scopeGiven
  · exact fun hempty => absurd hempty hsubject
  · intro hsettle
    cases other <;> exact absurd hsettle (by decide)

/-- No key is shared, between payouts or between the transactions of one. -/
theorem Payout.key_injective {first second : Payout} {leg leg' : PayoutLeg}
    (named : first.Named) (named' : second.Named) (h : first.key leg = second.key leg') :
    leg = leg' ∧ first.merchantId = second.merchantId ∧ first.id = second.id := by
  obtain ⟨hpurpose, hrest⟩ := ledgerKey_injective (named leg) (h ▸ named' leg')
  refine ⟨?_, hrest⟩
  cases leg <;> cases leg' <;> first | rfl | exact absurd hpurpose (by decide)

/-- Everything that the law reads of a payout, but its links and its status, is among its
terms. -/
theorem Payout.of_terms {α : Type} {row payout : Payout} (h : row.terms = payout.terms)
    (read : Payout → α) (hread : ∀ other : Payout, read other.terms = read other) :
    read row = read payout := by
  rw [← hread row, h, hread]

/-! ## A posting among the transactions -/

section Posted

variable {posting : Posting} {db : Database} {payout : Payout} {leg : PayoutLeg}

theorem transactionsUnder_post (posting : Posting) (db : Database) (key : String)
    (hkey : posting.header.idempotencyKey = posting.request.idempotencyKey) :
    transactionsUnder key (applyAll posting.writes db) =
      transactionsUnder key db ++
        if posting.request.idempotencyKey = key then [posting.header] else [] := by
  rw [posting.applyAll_writes]
  simp only [transactionsUnder, List.filter_append]
  by_cases hsame : posting.request.idempotencyKey = key <;> simp [hkey, hsame]

theorem Posting.Valid.headerKey (valid : posting.Valid db) :
    posting.header.idempotencyKey = posting.request.idempotencyKey := by
  rw [valid.header]
  rfl

/-- A key is claimed once. -/
theorem Posting.Valid.unclaimed (valid : posting.Valid db) :
    transactionsUnder posting.request.idempotencyKey db = [] := by
  have hrows : Table.rows .ledgerTransaction (applyAll posting.writes db) =
      db.transactions ++ [posting.header] := by
    rw [posting.applyAll_writes]
    rfl
  refine List.filter_eq_nil_iff.mpr fun transaction htransaction hkey => ?_
  have habsent := valid.unique.not_mem_of_append Table.ledgerTransaction hrows htransaction
    List.mem_cons_self (.idempotency posting.request.idempotencyKey)
    (by simp [Table.keys, valid.headerKey])
  simp only [decide_eq_true_eq] at hkey
  simp [Table.keys, hkey] at habsent

theorem Carries.post {transaction : LedgerTransaction}
    (carries : Carries payout leg db transaction) (valid : posting.Valid db)
    (ledger : DoubleEntry db) (htransaction : transaction ∈ db.transactions) :
    Carries payout leg (applyAll posting.writes db) transaction where
  merchant := carries.merchant
  currency := carries.currency
  livemode := carries.livemode
  lines := (valid.linesOf_other ledger htransaction).trans carries.lines

/-- A posting under another key leaves what is posted for a payout. -/
theorem LegPosted.post {posted : Option String} (h : LegPosted payout leg db posted)
    (valid : posting.Valid db) (ledger : DoubleEntry db)
    (hkey : posting.request.idempotencyKey ≠ payout.key leg) :
    LegPosted payout leg (applyAll posting.writes db) posted := by
  have hunder := transactionsUnder_post posting db (payout.key leg) valid.headerKey
  rw [if_neg hkey, List.append_nil] at hunder
  cases posted with
  | none => exact hunder.trans h
  | some id =>
      obtain ⟨transaction, htransaction, hid, carries⟩ := h
      refine ⟨transaction, hunder.trans htransaction, hid, carries.post valid ledger ?_⟩
      have hmem : transaction ∈ transactionsUnder (payout.key leg) db := by
        rw [htransaction]
        exact List.mem_singleton_self _
      exact (List.mem_filter.mp hmem).1

theorem Accounted.post (accounted : Accounted payout db) (valid : posting.Valid db)
    (ledger : DoubleEntry db)
    (hkey : ∀ leg, posting.request.idempotencyKey ≠ payout.key leg) :
    Accounted payout (applyAll posting.writes db) := by
  obtain ⟨named, complete, posted, hposted, linked⟩ := accounted
  exact ⟨named, complete, posted, fun leg => (hposted leg).post valid ledger (hkey leg), linked⟩

/-- What a posting of the payout puts on the books. -/
theorem LegPosted.claimed {purpose : Purpose} {fingerprint : String} (valid : posting.Valid db)
    (ledger : DoubleEntry db)
    (hrequest : posting.request = PayoutService.postRequest payout purpose
      (payout.legCurrency leg) (payout.key leg) fingerprint (payout.lines leg)) :
    LegPosted payout leg (applyAll posting.writes db) (some posting.header.id) := by
  have hkey : posting.request.idempotencyKey = payout.key leg := by rw [hrequest]; rfl
  have hunder := transactionsUnder_post posting db (payout.key leg) valid.headerKey
  have hnone := valid.unclaimed
  rw [hkey] at hnone
  rw [if_pos hkey, hnone, List.nil_append] at hunder
  refine ⟨posting.header, hunder, rfl, ?_, ?_, ?_, ?_⟩
  · rw [valid.header, hrequest]; rfl
  · rw [valid.header, hrequest]; rfl
  · rw [valid.header, hrequest]; rfl
  · rw [valid.linesOf_header ledger, hrequest]; rfl

end Posted

/-! ## A posting on a payable balance -/

section Payable

variable {posting : Posting} {db : Database} {direction : Direction}
  {merchantId currency : String} {livemode : Bool}

/-- What a line enters on one side of a payable balance. -/
def PostRequest.payableValue (request : PostRequest) (direction : Direction)
    (merchantId currency : String) (livemode : Bool) (line : PostingLine) : Int :=
  if request.merchantId = some merchantId ∧ request.currency = currency ∧
      request.livemode = livemode ∧ line.accountType = .merchantPayable ∧
      line.direction = direction then
    line.amountMinor
  else 0

theorem payableWeight_of_booked {request : PostRequest} {transactionId : String}
    {line : PostingLine} {row : LedgerEntry × Account}
    (booked : BookedLine request transactionId line row) :
    payableWeight direction merchantId currency livemode row.1 row.2.identity =
      request.payableValue direction merchantId currency livemode line := by
  have hident := booked.identity
  unfold payableWeight PostRequest.payableValue
  rw [hident, booked.currency, booked.livemode, booked.direction, booked.amount]
  by_cases htype : line.accountType = .merchantPayable
  · simp only [PostRequest.accountOf, htype, AccountType.isPlatform]
    refine if_congr ?_ rfl rfl
    simp only [Bool.false_eq_true, ite_false, true_and]
  · rw [if_neg fun h => htype h.2.1, if_neg fun h => htype h.2.2.2.1]

/-- A posting moves the payable sums by its lines. -/
theorem Posting.Valid.payableSum_writes (valid : posting.Valid db) (ledger : DoubleEntry db) :
    payableSum direction merchantId currency livemode (applyAll posting.writes db) =
      payableSum direction merchantId currency livemode db +
        (posting.request.lines.map
          (posting.request.payableValue direction merchantId currency livemode)).sum :=
  valid.weigh_writes ledger fun _ _ booked => payableWeight_of_booked booked

theorem payableValue_nonneg {request : PostRequest} (balanced : Balanced request.lines) :
    0 ≤ (request.lines.map
      (request.payableValue direction merchantId currency livemode)).sum := by
  refine List.sum_nonneg fun value hvalue => ?_
  obtain ⟨line, hline, rfl⟩ := List.mem_map.mp hvalue
  unfold PostRequest.payableValue
  split
  · exact (balanced.positive line hline).le
  · exact le_refl _

/-- No sum of what was entered ever shrinks. -/
theorem Posting.Valid.payableSum_le (valid : posting.Valid db) (ledger : DoubleEntry db) :
    payableSum direction merchantId currency livemode db ≤
      payableSum direction merchantId currency livemode (applyAll posting.writes db) := by
  rw [valid.payableSum_writes ledger]
  have hnonneg : 0 ≤ (posting.request.lines.map
      (posting.request.payableValue direction merchantId currency livemode)).sum :=
    payableValue_nonneg valid.balanced
  omega

/-- Lines elsewhere enter nothing. -/
theorem payableValue_eq_zero {request : PostRequest} {lines : List PostingLine}
    (h : ∀ line ∈ lines, line.accountType = .merchantPayable → line.direction ≠ direction) :
    (lines.map (request.payableValue direction merchantId currency livemode)).sum = 0 := by
  refine List.sum_eq_zero fun value hvalue => ?_
  obtain ⟨line, hline, rfl⟩ := List.mem_map.mp hvalue
  exact if_neg fun hentered => h line hline hentered.2.2.2.1 hentered.2.2.2.2

theorem Payout.bankLines_accounts (payout : Payout) :
    ∀ line ∈ payout.bankLines, line.accountType ≠ .merchantPayable := by
  intro line hline htype
  have hmem := (List.mem_filter.mp hline).1
  simp only [List.mem_cons, List.not_mem_nil, or_false] at hmem
  rcases hmem with rfl | rfl | rfl <;> exact absurd htype (by simp [debit, credit])

/-- Of the transactions of a payout, the first debits the balance, and no other does. -/
theorem payableValue_lines {payout : Payout} {leg : PayoutLeg} {purpose : Purpose}
    {fingerprint : String} {request : PostRequest}
    (hrequest : request = PayoutService.postRequest payout purpose
      (payout.legCurrency leg) (payout.key leg) fingerprint (payout.lines leg)) :
    (request.lines.map
        (request.payableValue .debit merchantId currency livemode)).sum =
      if leg = .balance then payout.share merchantId currency livemode else 0 := by
  subst hrequest
  cases leg with
  | balance =>
      have hcredit : (credit (if payout.isConverted then .fxClearing else .cash)
          payout.balanceAmountMinor).direction ≠ .debit := by
        intro h
        cases h
      change (([debit .merchantPayable payout.balanceAmountMinor, credit _ _] :
        List PostingLine).map _).sum = _
      rw [List.map_cons, List.sum_cons, payableValue_eq_zero (by
        intro line hline _
        rw [List.mem_singleton.mp hline]
        exact hcredit), add_zero, if_pos rfl]
      refine if_congr ?_ rfl rfl
      simp only [PayoutService.postRequest, Payout.legCurrency, debit, and_true,
        Option.some.injEq]
  | bank =>
      exact payableValue_eq_zero fun line hline htype =>
        absurd htype (payout.bankLines_accounts line hline)
  | balanceReversal =>
      refine payableValue_eq_zero fun line hline htype => ?_
      change line ∈ payout.balanceReversalLines at hline
      unfold Payout.balanceReversalLines at hline
      split at hline
      · simp only [mirrored, Payout.balanceLines, List.map_cons, List.map_nil, List.mem_cons,
          List.not_mem_nil, or_false] at hline
        rcases hline with rfl | rfl
        · intro h
          cases h
        · split at htype
          · cases htype
          · cases htype
      · simp only [List.mem_cons, List.not_mem_nil, or_false] at hline
        rcases hline with rfl | rfl
        · cases htype
        · intro h
          cases h
  | bankReversal =>
      refine payableValue_eq_zero fun line hline htype => ?_
      obtain ⟨leg, hleg, rfl⟩ := List.mem_map.mp hline
      exact absurd htype (payout.bankLines_accounts leg hleg)

end Payable

end PayzenoLedger
