import PayzenoLedger.Ledger.Posting

/-!
# Double entry over the whole ledger

`DoubleEntry` is the invariant of a database of balanced transactions.  A valid
posting keeps it, so every interleaving of transactions that call the poster
does, whatever their lines are and whoever conflicts with whom.
-/

set_option autoImplicit false

namespace PayzenoLedger

open Library Write

/-! ## Balanced transactions -/

def LedgerEntry.signedMinor (entry : LedgerEntry) : Int :=
  if entry.direction = .debit then entry.amountMinor else -entry.amountMinor

/-- The sum of the amounts on one side. -/
def entryTotal (direction : Direction) (entries : List LedgerEntry) : Int :=
  ((entries.filter fun entry => entry.direction = direction).map (·.amountMinor)).sum

def entriesOf (transactionId : String) (entries : List LedgerEntry) : List LedgerEntry :=
  entries.filter fun entry => entry.transactionId = transactionId

/-- The entries of one (currency, livemode) pair. -/
def entriesIn (currency : String) (livemode : Bool) (entries : List LedgerEntry) :
    List LedgerEntry :=
  entries.filter fun entry => entry.currency = currency ∧ entry.livemode = livemode

/-- Every transaction balances, and every entry carries its header's currency
and livemode and sits on an account of that currency and livemode. -/
structure DoubleEntry (db : Database) : Prop where
  two : ∀ transaction ∈ db.transactions, 2 ≤ (entriesOf transaction.id db.entries).length
  balance : ∀ transaction ∈ db.transactions,
    entryTotal .debit (entriesOf transaction.id db.entries) =
      entryTotal .credit (entriesOf transaction.id db.entries)
  positive : ∀ entry ∈ db.entries, 0 < entry.amountMinor
  headed : ∀ entry ∈ db.entries, ∃ transaction ∈ db.transactions,
    transaction.id = entry.transactionId ∧ transaction.currency = entry.currency ∧
      transaction.livemode = entry.livemode
  placed : ∀ entry ∈ db.entries, ∃ account ∈ db.accounts,
    account.id = entry.accountId ∧ account.currency = entry.currency ∧
      account.livemode = entry.livemode

/-- Debits less credits is the sum of the signed amounts. -/
theorem entryTotal_sub (entries : List LedgerEntry) :
    entryTotal .debit entries - entryTotal .credit entries =
      (entries.map LedgerEntry.signedMinor).sum := by
  induction entries with
  | nil => rfl
  | cons entry entries ih =>
      rw [List.map_cons, List.sum_cons, ← ih]
      cases hdirection : entry.direction <;>
        simp [entryTotal, LedgerEntry.signedMinor, hdirection] <;> omega

theorem entriesOf_append (transactionId : String) (first second : List LedgerEntry) :
    entriesOf transactionId (first ++ second) =
      entriesOf transactionId first ++ entriesOf transactionId second := by
  simp [entriesOf]

/-! ## Postings keep double entry -/

section Legs

variable {request : PostRequest} {transactionId : String} {db : Database}
  {lines : List PostingLine} {entries : List LedgerEntry}

/-- The entries of a posting total what its lines do. -/
theorem entryTotal_of_legs
    (legs : List.Forall₂ (Leg request transactionId db) lines entries)
    (direction : Direction) :
    entryTotal direction entries = sideTotal direction lines := by
  induction legs with
  | nil => rfl
  | cons leg _ ih =>
      simp only [entryTotal, sideTotal, List.filter_cons, leg.direction] at ih ⊢
      split <;> simp [ih, leg.amount]

/-- Each entry of a posting is the leg of one of its lines. -/
theorem exists_leg (legs : List.Forall₂ (Leg request transactionId db) lines entries)
    {entry : LedgerEntry} (hentry : entry ∈ entries) :
    ∃ line ∈ lines, Leg request transactionId db line entry := by
  induction legs with
  | nil => cases hentry
  | cons leg _ ih =>
      rcases List.mem_cons.mp hentry with rfl | hlater
      · exact ⟨_, List.mem_cons_self, leg⟩
      · obtain ⟨line, hline, hleg⟩ := ih hlater
        exact ⟨line, List.mem_cons_of_mem _ hline, hleg⟩

end Legs

namespace Posting

variable {posting : Posting} {db : Database}

/-- A posting's header has an identifier of its own. -/
theorem Valid.fresh (valid : posting.Valid db) :
    ∀ transaction ∈ db.transactions, transaction.id ≠ posting.header.id := by
  intro transaction htransaction hid
  have hrows : Table.rows .ledgerTransaction (applyAll posting.writes db) =
      db.transactions ++ [posting.header] := by
    rw [posting.applyAll_writes]; rfl
  have habsent := valid.unique.not_mem_of_append Table.ledgerTransaction hrows
    htransaction List.mem_cons_self (.transaction posting.header.id)
    (by simp [Table.keys])
  simp [Table.keys, hid] at habsent

theorem Valid.entriesOf_header (valid : posting.Valid db) (ledger : DoubleEntry db) :
    entriesOf posting.header.id (db.entries ++ posting.entries) = posting.entries := by
  have hold : entriesOf posting.header.id db.entries = [] := by
    refine List.filter_eq_nil_iff.mpr fun entry hentry => ?_
    obtain ⟨transaction, htransaction, hid, -⟩ := ledger.headed entry hentry
    simpa [← hid] using valid.fresh transaction htransaction
  have hnew : entriesOf posting.header.id posting.entries = posting.entries := by
    refine List.filter_eq_self.mpr fun entry hentry => ?_
    obtain ⟨line, -, leg⟩ := exists_leg valid.legs hentry
    simp [leg.transactionId]
  rw [entriesOf_append, hold, hnew, List.nil_append]

theorem Valid.entriesOf_other (valid : posting.Valid db) {transaction : LedgerTransaction}
    (htransaction : transaction ∈ db.transactions) :
    entriesOf transaction.id (db.entries ++ posting.entries) =
      entriesOf transaction.id db.entries := by
  have hnew : entriesOf transaction.id posting.entries = [] := by
    refine List.filter_eq_nil_iff.mpr fun entry hentry => ?_
    obtain ⟨line, -, leg⟩ := exists_leg valid.legs hentry
    simpa [leg.transactionId] using (valid.fresh transaction htransaction).symm
  rw [entriesOf_append, hnew, List.append_nil]

/-- A valid posting keeps double entry. -/
theorem Valid.doubleEntry (valid : posting.Valid db) (ledger : DoubleEntry db) :
    DoubleEntry (applyAll posting.writes db) := by
  have hheaderCurrency : posting.header.currency = posting.request.currency := by
    rw [valid.header]; rfl
  have hheaderLivemode : posting.header.livemode = posting.request.livemode := by
    rw [valid.header]; rfl
  have hleg (entry : LedgerEntry) (hentry : entry ∈ posting.entries) :=
    exists_leg valid.legs hentry
  rw [posting.applyAll_writes] at hleg ⊢
  refine ⟨fun transaction h => ?_, fun transaction h => ?_, fun entry h => ?_,
    fun entry h => ?_, fun entry h => ?_⟩ <;>
    rcases List.mem_append.mp h with hold | hnew
  · rw [valid.entriesOf_other hold]
    exact ledger.two transaction hold
  · rw [List.mem_singleton.mp hnew, valid.entriesOf_header ledger,
      ← valid.legs.length_eq]
    exact valid.balanced.two
  · rw [valid.entriesOf_other hold]
    exact ledger.balance transaction hold
  · rw [List.mem_singleton.mp hnew, valid.entriesOf_header ledger,
      entryTotal_of_legs valid.legs, entryTotal_of_legs valid.legs]
    exact valid.balanced.balance
  · exact ledger.positive entry hold
  · obtain ⟨line, hline, leg⟩ := hleg entry hnew
    rw [leg.amount]
    exact valid.balanced.positive line hline
  · obtain ⟨transaction, htransaction, hrest⟩ := ledger.headed entry hold
    exact ⟨transaction, List.mem_append_left _ htransaction, hrest⟩
  · obtain ⟨line, -, leg⟩ := hleg entry hnew
    exact ⟨posting.header, List.mem_append_right _ List.mem_cons_self,
      leg.transactionId.symm, hheaderCurrency.trans leg.currency.symm,
      hheaderLivemode.trans leg.livemode.symm⟩
  · obtain ⟨account, haccount, hrest⟩ := ledger.placed entry hold
    exact ⟨account, List.mem_append_left _ haccount, hrest⟩
  · obtain ⟨line, -, leg⟩ := hleg entry hnew
    obtain ⟨account, haccount, hident⟩ := leg.account
    have hfields := AccountIdentity.mk.inj hident
    exact ⟨account, haccount, hfields.1, hfields.2.2.2.1.trans leg.currency.symm,
      hfields.2.2.2.2.trans leg.livemode.symm⟩

end Posting

/-- The link to a reversed transaction is not part of the books. -/
theorem DoubleEntry.link {db : Database} (ledger : DoubleEntry db)
    (transactionId originalId : String) :
    DoubleEntry (applyAll (linkWrites transactionId originalId) db) := by
  let relink (row : LedgerTransaction) : LedgerTransaction :=
    if Key.transaction transactionId ∈ Table.ledgerTransaction.keys row then
      { row with reversesTransactionId := some originalId }
    else row
  have hafter : applyAll (linkWrites transactionId originalId) db =
      { db with transactions := db.transactions.map relink } := rfl
  have hkept (row : LedgerTransaction) : (relink row).id = row.id ∧
      (relink row).currency = row.currency ∧ (relink row).livemode = row.livemode := by
    dsimp only [relink]
    split <;> exact ⟨rfl, rfl, rfl⟩
  rw [hafter]
  refine ⟨fun transaction h => ?_, fun transaction h => ?_, ledger.positive,
    fun entry h => ?_, ledger.placed⟩
  · obtain ⟨row, hrow, rfl⟩ := List.mem_map.mp h
    rw [(hkept row).1]
    exact ledger.two row hrow
  · obtain ⟨row, hrow, rfl⟩ := List.mem_map.mp h
    rw [(hkept row).1]
    exact ledger.balance row hrow
  · obtain ⟨row, hrow, hid, hcurrency, hlivemode⟩ := ledger.headed entry h
    obtain ⟨hsameId, hsameCurrency, hsameLivemode⟩ := hkept row
    exact ⟨relink row, List.mem_map_of_mem hrow, hsameId.trans hid,
      hsameCurrency.trans hcurrency, hsameLivemode.trans hlivemode⟩

/-! ## Balance over the whole ledger -/

/-- A sum over all entries vanishes when it does over each transaction's. -/
theorem sum_entries_eq_zero (amount : LedgerEntry → Int) (entries : List LedgerEntry)
    (hzero : ∀ transactionId, ((entriesOf transactionId entries).map amount).sum = 0) :
    (entries.map amount).sum = 0 := by
  induction hlength : entries.length using Nat.strong_induction_on generalizing entries with
  | h n ih =>
    subst hlength
    cases entries with
    | nil => rfl
    | cons entry entries =>
      let rest := (entry :: entries).filter fun other =>
        !decide (other.transactionId = entry.transactionId)
      have hperm : (entriesOf entry.transactionId (entry :: entries) ++ rest).Perm
          (entry :: entries) := List.filter_append_perm _ _
      have hshorter : rest.length < (entry :: entries).length :=
        List.length_filter_lt_length_iff_exists.mpr ⟨entry, List.mem_cons_self, by simp⟩
      have hrest : (rest.map amount).sum = 0 := by
        refine ih _ hshorter rest (fun transactionId => ?_) rfl
        have hfilter := hzero transactionId
        by_cases hid : transactionId = entry.transactionId
        · have hnone : entriesOf transactionId rest = [] := by
            simp [entriesOf, rest, List.filter_filter, hid]
          rw [hnone]
          rfl
        · have hall : entriesOf transactionId rest =
              entriesOf transactionId (entry :: entries) := by
            rw [entriesOf, List.filter_filter]
            refine List.filter_congr fun other _ => ?_
            by_cases hother : other.transactionId = transactionId
            · simp [hother, hid]
            · simp [hother]
          rw [hall]
          exact hfilter
      rw [← (hperm.map amount).sum_eq, List.map_append, List.sum_append, hrest,
        hzero entry.transactionId]
      rfl

/-- For every currency and livemode, the debits of the whole ledger equal its
credits. -/
theorem DoubleEntry.total {db : Database} (ledger : DoubleEntry db)
    (unique : Schema.Unique (S := schema) db) (currency : String) (livemode : Bool) :
    entryTotal .debit (entriesIn currency livemode db.entries) =
      entryTotal .credit (entriesIn currency livemode db.entries) := by
  have hsum : ((entriesIn currency livemode db.entries).map LedgerEntry.signedMinor).sum =
      0 := by
    refine sum_entries_eq_zero _ _ fun transactionId => ?_
    have hswap : entriesOf transactionId (entriesIn currency livemode db.entries) =
        entriesIn currency livemode (entriesOf transactionId db.entries) := by
      simp only [entriesOf, entriesIn, List.filter_filter, Bool.and_comm]
    rw [hswap]
    by_cases hany : entriesIn currency livemode (entriesOf transactionId db.entries) = []
    · rw [hany]
      rfl
    -- One entry with this currency and livemode fixes those of the header, and
    -- the header those of all its entries.
    obtain ⟨entry, hentry⟩ := List.exists_mem_of_ne_nil _ hany
    obtain ⟨hentryOf, hpair⟩ := List.mem_filter.mp hentry
    obtain ⟨hentryIn, hentryId⟩ := List.mem_filter.mp hentryOf
    simp only [decide_eq_true_eq] at hpair hentryId
    obtain ⟨header, hheader, hid, hcurrency, hlivemode⟩ := ledger.headed entry hentryIn
    have hall : entriesIn currency livemode (entriesOf transactionId db.entries) =
        entriesOf transactionId db.entries := by
      refine List.filter_eq_self.mpr fun other hother => ?_
      obtain ⟨hotherIn, hotherId⟩ := List.mem_filter.mp hother
      simp only [decide_eq_true_eq] at hotherId
      obtain ⟨header', hheader', hid', hcurrency', hlivemode'⟩ :=
        ledger.headed other hotherIn
      have hsame : header' = header := unique.eq_of_key Table.ledgerTransaction
        (.transaction transactionId) hheader' hheader
        (by simp [Table.keys, hid', hotherId]) (by simp [Table.keys, hid, hentryId])
      subst hsame
      simp [← hcurrency', ← hlivemode', hcurrency, hlivemode, hpair]
    have hbalance := ledger.balance header hheader
    rw [hid, hentryId] at hbalance
    rw [hall, ← entryTotal_sub, hbalance, sub_self]
  have hdifference := entryTotal_sub (entriesIn currency livemode db.entries)
  omega

end PayzenoLedger
