import PayzenoLedger.Ledger.DoubleEntry
import Mathlib.Algebra.Order.BigOperators.Group.List

/-!
# Sums over the joined entries

What a valid posting adds to the entries with their accounts, so that a transaction is read
back as the lines it was posted with and every sum over the entries moves by them.  The
entries are append-only: a sum of what is not negative never shrinks.
-/

set_option autoImplicit false

namespace PayzenoLedger

open Library Write LedgerEntryRepository

/-! ## The rows of a posting -/

/-- An entry with its account, made of a line of a request. -/
structure BookedLine (request : PostRequest) (transactionId : String) (line : PostingLine)
    (row : LedgerEntry × Account) : Prop where
  transactionId : row.1.transactionId = transactionId
  direction : row.1.direction = line.direction
  amount : row.1.amountMinor = line.amountMinor
  currency : row.1.currency = request.currency
  livemode : row.1.livemode = request.livemode
  identity : row.2.identity = request.accountOf line row.1.accountId

/-- The rows that one entry joins. -/
def rowsOf (accounts : List Account) (entry : LedgerEntry) : List (LedgerEntry × Account) :=
  (accounts.filter fun account => account.id = entry.accountId).map fun account =>
    (entry, account)

theorem joined_eq (db : Database) : joined db = db.entries.flatMap (rowsOf db.accounts) := rfl

/-- An entry joins the one account with its account's identifier. -/
theorem rowsOf_eq {db : Database} (unique : Schema.Unique (S := schema) db) {account : Account}
    (haccount : account ∈ db.accounts) {entry : LedgerEntry} (hid : account.id = entry.accountId) :
    rowsOf db.accounts entry = [(entry, account)] := by
  have hholder : account ∈ Schema.holders (S := schema) Table.account
      (.account entry.accountId) db :=
    Schema.mem_holders.mpr ⟨haccount, by simp [Table.keys, hid]⟩
  have hfilter : (db.accounts.filter fun row => row.id = entry.accountId) = [account] := by
    rw [← unique.holders_eq hholder]
    refine List.filter_congr fun row _ => ?_
    simp [Table.keys, eq_comm]
  rw [rowsOf, hfilter, List.map_singleton]

/-- The legs of a request join rows that are booked for its lines. -/
theorem rows_of_legs {request : PostRequest} {transactionId : String} {db : Database}
    (unique : Schema.Unique (S := schema) db) {lines : List PostingLine}
    {entries : List LedgerEntry}
    (legs : List.Forall₂ (Leg request transactionId db) lines entries) :
    List.Forall₂ (BookedLine request transactionId) lines
      (entries.flatMap (rowsOf db.accounts)) := by
  induction legs with
  | nil => exact .nil
  | cons leg _ ih =>
      obtain ⟨account, haccount, hident⟩ := leg.account
      rw [List.flatMap_cons, rowsOf_eq unique haccount (congrArg AccountIdentity.id hident)]
      refine .cons ⟨leg.transactionId, leg.direction, leg.amount, leg.currency, leg.livemode,
        hident⟩ ih

section Booked

variable {request : PostRequest} {transactionId : String} {lines : List PostingLine}
  {rows : List (LedgerEntry × Account)}

/-- The rows of a transaction are read back as its lines. -/
theorem lines_of_booked (booked : List.Forall₂ (BookedLine request transactionId) lines rows) :
    (rows.filter fun row => row.1.transactionId = transactionId).map (fun row =>
      { accountType := row.2.type, direction := row.1.direction,
        amountMinor := row.1.amountMinor }) = lines := by
  induction booked with
  | nil => rfl
  | @cons line row _ _ here _ ih =>
      have htype : row.2.type = line.accountType := congrArg AccountIdentity.type here.identity
      rw [List.filter_cons_of_pos (by simp [here.transactionId]), List.map_cons, ih,
        here.direction, here.amount, htype]

theorem sum_of_booked (booked : List.Forall₂ (BookedLine request transactionId) lines rows)
    {weight : LedgerEntry → AccountIdentity → Int} {value : PostingLine → Int}
    (hvalue : ∀ line row, BookedLine request transactionId line row →
      weight row.1 row.2.identity = value line) :
    (rows.map fun row => weight row.1 row.2.identity).sum = (lines.map value).sum := by
  induction booked with
  | nil => rfl
  | cons here _ ih =>
      rw [List.map_cons, List.map_cons, List.sum_cons, List.sum_cons, ih, hvalue _ _ here]

end Booked

namespace Posting

variable {posting : Posting} {db : Database}

/-- A posting adds to the joined entries one row for each of its lines. -/
theorem Valid.joined_writes (valid : posting.Valid db) (ledger : DoubleEntry db) :
    ∃ rows, joined (applyAll posting.writes db) = joined db ++ rows ∧
      List.Forall₂ (BookedLine posting.request posting.header.id) posting.request.lines rows := by
  have hunique := valid.unique
  have hlegs := rows_of_legs valid.unique valid.legs
  rw [posting.applyAll_writes] at hunique hlegs ⊢
  refine ⟨_, ?_, hlegs⟩
  rw [joined_eq, joined_eq, List.flatMap_append]
  congr 1
  refine List.flatMap_congr fun entry hentry => ?_
  obtain ⟨account, haccount, hid, -⟩ := ledger.placed entry hentry
  have hcreated : (posting.created.filter fun row => row.id = entry.accountId) = [] := by
    refine List.filter_eq_nil_iff.mpr fun row hrow hsame => ?_
    simp only [decide_eq_true_eq] at hsame
    have habsent := hunique.not_mem_of_append Table.account rfl haccount hrow
      (.account row.id) (by simp [Table.keys])
    simp [Table.keys, hid, hsame] at habsent
  simp [rowsOf, List.filter_append, hcreated]

/-- The transaction of a posting is read back as the lines of its request. -/
theorem Valid.linesOf_header (valid : posting.Valid db) (ledger : DoubleEntry db) :
    linesOf posting.header.id (applyAll posting.writes db) = posting.request.lines := by
  obtain ⟨rows, hrows, booked⟩ := valid.joined_writes ledger
  have hold : ((joined db).filter fun row =>
      row.1.transactionId = posting.header.id) = [] := by
    refine List.filter_eq_nil_iff.mpr fun row hrow => ?_
    simp only [joined_eq, rowsOf, List.mem_flatMap, List.mem_map] at hrow
    obtain ⟨entry, hentry, account, -, rfl⟩ := hrow
    obtain ⟨transaction, htransaction, hid, -⟩ := ledger.headed entry hentry
    simpa [← hid] using valid.fresh transaction htransaction
  rw [linesOf, hrows, List.filter_append, hold, List.nil_append]
  exact lines_of_booked booked

/-- Every other transaction keeps its lines. -/
theorem Valid.linesOf_other (valid : posting.Valid db) (ledger : DoubleEntry db)
    {transaction : LedgerTransaction} (htransaction : transaction ∈ db.transactions) :
    linesOf transaction.id (applyAll posting.writes db) = linesOf transaction.id db := by
  obtain ⟨rows, hrows, booked⟩ := valid.joined_writes ledger
  have hnew : (rows.filter fun row => row.1.transactionId = transaction.id) = [] := by
    refine List.filter_eq_nil_iff.mpr fun row hrow => ?_
    obtain ⟨line, -, booked⟩ := exists_left_of_forall₂ booked hrow
    simpa [booked.transactionId] using (valid.fresh transaction htransaction).symm
  rw [linesOf, linesOf, hrows, List.filter_append, hnew, List.append_nil]

end Posting

/-! ## Sums -/

/-- A sum over the entries, of what each one weighs on its account. -/
def weigh (weight : LedgerEntry → AccountIdentity → Int) (db : Database) : Int :=
  ((joined db).map fun row => weight row.1 row.2.identity).sum

/-- A posting moves a sum by what its lines weigh. -/
theorem Posting.Valid.weigh_writes {posting : Posting} {db : Database}
    (valid : posting.Valid db) (ledger : DoubleEntry db)
    {weight : LedgerEntry → AccountIdentity → Int} {value : PostingLine → Int}
    (hvalue : ∀ line row, BookedLine posting.request posting.header.id line row →
      weight row.1 row.2.identity = value line) :
    weigh weight (applyAll posting.writes db) =
      weigh weight db + (posting.request.lines.map value).sum := by
  obtain ⟨rows, hrows, booked⟩ := valid.joined_writes ledger
  rw [weigh, hrows, List.map_append, List.sum_append]
  exact congrArg _ (sum_of_booked booked hvalue)

/-- The entries are append-only. -/
theorem entries_of_extends {db db' : Database} (grows : Schema.Extends (S := schema) db db') :
    ∃ more, db'.entries = db.entries ++ more := by
  obtain ⟨more, hmore⟩ := grows Table.ledgerEntry
  have hself (rows : List LedgerEntry) : rows.map Table.ledgerEntry.identity = rows :=
    List.map_id rows
  change db.entries.map Table.ledgerEntry.identity ++ more =
    db'.entries.map Table.ledgerEntry.identity at hmore
  rw [hself, hself] at hmore
  exact ⟨more, hmore.symm⟩

/-- Over a ledger that has grown, a sum of what is not negative is no less. -/
theorem weigh_le_of_extends {db db' : Database} (grows : Schema.Extends (S := schema) db db')
    (unique : Schema.Unique (S := schema) db) (unique' : Schema.Unique (S := schema) db')
    (ledger : DoubleEntry db) {weight weight' : LedgerEntry → AccountIdentity → Int}
    (hle : ∀ entry ∈ db.entries, ∀ identity, weight entry identity ≤ weight' entry identity)
    (hpositive : ∀ entry ∈ db'.entries, ∀ identity, 0 ≤ weight' entry identity) :
    weigh weight db ≤ weigh weight' db' := by
  obtain ⟨more, hmore⟩ := entries_of_extends grows
  rw [weigh, weigh, joined_eq, joined_eq, hmore, List.flatMap_append, List.map_append,
    List.sum_append]
  have hrest : 0 ≤ ((more.flatMap (rowsOf db'.accounts)).map fun row =>
      weight' row.1 row.2.identity).sum := by
    refine List.sum_nonneg fun value hvalue => ?_
    obtain ⟨row, hrow, rfl⟩ := List.mem_map.mp hvalue
    simp only [rowsOf, List.mem_flatMap, List.mem_map] at hrow
    obtain ⟨entry, hentry, account, -, rfl⟩ := hrow
    exact hpositive entry (hmore ▸ List.mem_append_right _ hentry) _
  suffices hall : ∀ entries : List LedgerEntry, (∀ entry ∈ entries, entry ∈ db.entries) →
      ((entries.flatMap (rowsOf db.accounts)).map fun row => weight row.1 row.2.identity).sum ≤
      ((entries.flatMap (rowsOf db'.accounts)).map fun row =>
        weight' row.1 row.2.identity).sum by
    have hfirst := hall db.entries fun _ h => h
    omega
  intro entries
  induction entries with
  | nil => intro _; exact le_refl _
  | cons entry entries ih =>
      intro hentries
      have hentry := hentries entry List.mem_cons_self
      obtain ⟨account, haccount, hid, -⟩ := ledger.placed entry hentry
      obtain ⟨account', haccount', hident⟩ := grows.survives Table.account haccount
      have hid' : account'.id = entry.accountId :=
        (congrArg AccountIdentity.id hident).trans hid
      have hrest := ih fun other hother => hentries other (List.mem_cons_of_mem _ hother)
      have hhere := hle entry hentry account.identity
      rw [List.flatMap_cons, List.flatMap_cons, rowsOf_eq unique haccount hid,
        rowsOf_eq unique' haccount' hid', List.map_append, List.map_append, List.sum_append,
        List.sum_append, List.map_singleton, List.map_singleton, List.sum_singleton,
        List.sum_singleton, show account'.identity = account.identity from hident]
      exact add_le_add hhere hrest

end PayzenoLedger
