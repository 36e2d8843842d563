import PayzenoLedger.Ledger.Reversals
import PayzenoLedger.Payouts.Books

/-!
# The law of the payouts, step by step

A transaction on a payout does not keep the law at each of its writes: the row and what is
posted for it go apart and come together again.  The law for all other payouts, with what is
posted so far for this one, leads from the first write to the last.
-/

set_option autoImplicit false

namespace PayzenoLedger

open Library Write

/-! ## Writes beside the books -/

/-- The two databases have the same transactions and entries, on the same accounts. -/
structure SameLedger (db db' : Database) : Prop where
  transactions : db'.transactions = db.transactions
  entries : db'.entries = db.entries
  accounts : db'.accounts = db.accounts

namespace SameLedger

variable {db db' : Database} (same : SameLedger db db') {payout : Payout}
include same

theorem doubleEntry (ledger : DoubleEntry db) : DoubleEntry db' := by
  constructor
  · rw [same.transactions, same.entries]
    exact ledger.two
  · rw [same.transactions, same.entries]
    exact ledger.balance
  · rw [same.entries]
    exact ledger.positive
  · rw [same.transactions, same.entries]
    exact ledger.headed
  · rw [same.accounts, same.entries]
    exact ledger.placed

theorem joined : LedgerEntryRepository.joined db' = LedgerEntryRepository.joined db := by
  rw [joined_eq, joined_eq, same.entries, same.accounts]

theorem legPosted {leg : PayoutLeg} {posted : Option String}
    (h : LegPosted payout leg db posted) : LegPosted payout leg db' posted := by
  have hunder : transactionsUnder (payout.key leg) db' =
      transactionsUnder (payout.key leg) db := by
    rw [transactionsUnder, same.transactions]
    rfl
  cases posted with
  | none => exact hunder.trans h
  | some id =>
      obtain ⟨transaction, htransaction, hid, carries⟩ := h
      refine ⟨transaction, hunder.trans htransaction, hid, carries.merchant, carries.currency,
        carries.livemode, ?_⟩
      rw [linesOf, same.joined]
      exact carries.lines

theorem accounted (h : Accounted payout db) : Accounted payout db' := by
  obtain ⟨named, complete, posted, hposted, linked⟩ := h
  exact ⟨named, complete, posted, fun leg => same.legPosted (hposted leg), linked⟩

theorem payableSum (direction : Direction) (merchantId currency : String) (livemode : Bool) :
    payableSum direction merchantId currency livemode db' =
      PayzenoLedger.payableSum direction merchantId currency livemode db := by
  rw [PayzenoLedger.payableSum, PayzenoLedger.payableSum, weigh, weigh, same.joined]

end SameLedger

/-- What the law says of a payout and a transaction is said of its terms. -/
theorem LegPosted.of_terms {row payout : Payout} (h : row.terms = payout.terms)
    {leg : PayoutLeg} {db : Database} {posted : Option String}
    (hposted : LegPosted row leg db posted) : LegPosted payout leg db posted := by
  have hterms (other : Payout) :
      LegPosted other.terms leg db posted ↔ LegPosted other leg db posted := by
    cases posted with
    | none => cases leg <;> exact Iff.rfl
    | some id =>
        have hcarries (transaction : LedgerTransaction) :
            Carries other.terms leg db transaction ↔ Carries other leg db transaction := by
          cases leg <;>
            exact ⟨fun h => ⟨h.merchant, h.currency, h.livemode, h.lines⟩,
              fun h => ⟨h.merchant, h.currency, h.livemode, h.lines⟩⟩
        refine exists_congr fun transaction => and_congr ?_ (and_congr Iff.rfl
          (hcarries transaction))
        cases leg <;> exact Iff.rfl
  exact (hterms payout).mp (h ▸ (hterms row).mpr hposted)

theorem payoutKey_mem {id : String} {row : Payout} :
    Key.payout id ∈ Table.payout.keys row ↔ row.id = id := by
  simp only [Table.keys, List.mem_cons, Key.payout.injEq]
  constructor
  · intro h
    rcases h with h | h
    · exact h.symm
    · split at h <;> simp at h
  · exact fun h => .inl h.symm

/-! ## The law and its drafts -/

section Drafts

variable {quiet : Prop} {payout : Payout} {posted : PayoutLeg → Option String} {db : Database}

/-- The law, seen from one payout on file. -/
theorem PayoutLaw.draft (law : PayoutLaw quiet db) {row : Payout} (hrow : row ∈ db.payouts)
    (hterms : row.terms = payout.terms) :
    ∃ posted, PayoutDraft quiet payout posted db ∧ Linked row posted := by
  obtain ⟨-, -, posted, hposted, linked⟩ := law.payouts row hrow
  refine ⟨posted, ⟨law.ledger, fun other hother _ => law.payouts other hother,
    fun _ leg => (hposted leg).of_terms hterms, ⟨row, hrow, hterms⟩, law.owned, ?_, ?_⟩, linked⟩
  · intro merchantId currency livemode
    rw [if_pos linked.booked, add_zero]
    exact law.covered merchantId currency livemode
  · intro hquiet merchantId currency livemode
    rw [if_pos linked.booked, add_zero]
    exact law.exact hquiet merchantId currency livemode

/-- The draft of a payout whose rows go with what is posted is the law. -/
theorem PayoutDraft.law (draft : PayoutDraft quiet payout posted db) (named : payout.Named)
    (complete : payout.isConverted = false → payout.sourceAmountMinor = none)
    (hrows : ∀ row ∈ db.payouts, row.id = payout.id →
      row.terms = payout.terms ∧ Linked row posted)
    (booked : (posted .balance).isSome) : PayoutLaw quiet db := by
  refine ⟨draft.ledger, fun row hrow => ?_, draft.owned, ?_, ?_⟩
  · by_cases hid : row.id = payout.id
    · obtain ⟨hterms, linked⟩ := hrows row hrow hid
      refine ⟨?_, ?_, posted, fun leg => (draft.own named leg).of_terms hterms.symm, linked⟩
      · have hnamed (other : Payout) : other.terms.Named ↔ other.Named := Iff.rfl
        exact (hnamed row).mp (hterms ▸ (hnamed payout).mpr named)
      · have hcomplete (other : Payout) :
            (other.terms.isConverted = false → other.terms.sourceAmountMinor = none) ↔
              (other.isConverted = false → other.sourceAmountMinor = none) := Iff.rfl
        exact (hcomplete row).mp (hterms ▸ (hcomplete payout).mpr complete)
    · exact draft.others row hrow hid
  · intro merchantId currency livemode
    have h := draft.covered merchantId currency livemode
    rwa [if_pos booked, add_zero] at h
  · intro hquiet merchantId currency livemode
    have h := draft.exact hquiet merchantId currency livemode
    rwa [if_pos booked, add_zero] at h

/-- A posting of the payout goes into its draft, and was not there before. -/
theorem PayoutDraft.post (draft : PayoutDraft quiet payout posted db) {posting : Posting}
    (valid : posting.Valid db) (named : payout.Named) {leg : PayoutLeg} {purpose : Purpose}
    {fingerprint : String}
    (hrequest : posting.request = PayoutService.postRequest payout purpose
      (payout.legCurrency leg) (payout.key leg) fingerprint (payout.lines leg)) :
    posted leg = none ∧
      PayoutDraft quiet payout (Function.update posted leg (some posting.header.id))
        (applyAll posting.writes db) := by
  have hkey : posting.request.idempotencyKey = payout.key leg := by rw [hrequest]; rfl
  have habsent : posted leg = none := by
    have hown := draft.own named leg
    cases hposted : posted leg with
    | none => rfl
    | some id =>
        rw [hposted] at hown
        obtain ⟨transaction, htransaction, -⟩ := hown
        have hnone := valid.unclaimed
        rw [hkey, htransaction] at hnone
        cases hnone
  have hpayouts : (applyAll posting.writes db : Database).payouts = db.payouts := by
    rw [posting.applyAll_writes]
  have hdrawn (merchantId currency : String) (livemode : Bool) :
      PayzenoLedger.drawn merchantId currency livemode (applyAll posting.writes db) =
        PayzenoLedger.drawn merchantId currency livemode db := by
    rw [PayzenoLedger.drawn, PayzenoLedger.drawn, hpayouts]
  -- The one line that debits the balance is that of the first transaction.
  have hdebits (merchantId currency : String) (livemode : Bool) :
      payableSum .debit merchantId currency livemode (applyAll posting.writes db) +
          (if (Function.update posted leg (some posting.header.id) .balance).isSome then 0
            else payout.share merchantId currency livemode) =
        payableSum .debit merchantId currency livemode db +
          if (posted .balance).isSome then 0 else payout.share merchantId currency livemode := by
    rw [valid.payableSum_writes draft.ledger, payableValue_lines hrequest]
    by_cases hleg : leg = .balance
    · subst hleg
      simp [habsent]
    · rw [if_neg hleg, Function.update_of_ne (Ne.symm hleg), add_zero]
  refine ⟨habsent, valid.doubleEntry draft.ledger, fun other hother hid => ?_,
    fun named' other => ?_, ?_, ?_, fun merchantId currency livemode => ?_,
    fun hquiet merchantId currency livemode => ?_⟩
  · rw [hpayouts] at hother
    have accounted := draft.others other hother hid
    refine accounted.post valid draft.ledger fun other' hsame => hid ?_
    rw [hkey] at hsame
    exact (Payout.key_injective named accounted.named hsame).2.2.symm
  · by_cases hleg : other = leg
    · subst hleg
      rw [Function.update_self]
      exact LegPosted.claimed valid draft.ledger hrequest
    · rw [Function.update_of_ne hleg]
      refine (draft.own named other).post valid draft.ledger fun hsame => hleg ?_
      rw [hkey] at hsame
      exact (Payout.key_injective named named hsame).1.symm
  · rw [hpayouts]
    exact draft.onFile
  · intro transaction htransaction other merchantId id hother
    rw [hpayouts]
    rw [posting.applyAll_writes] at htransaction
    rcases List.mem_append.mp htransaction with hold | hnew
    · exact draft.owned transaction hold other merchantId id hother
    · rw [List.mem_singleton.mp hnew, valid.headerKey, hkey] at hother
      obtain ⟨-, hmerchant, hid⟩ := ledgerKey_injective (named leg) hother
      obtain ⟨row, hrow, hterms⟩ := draft.onFile
      refine ⟨row, hrow, ?_, ?_⟩
      · exact (Payout.of_terms hterms Payout.merchantId fun _ => rfl).trans hmerchant
      · exact (Payout.of_terms hterms Payout.id fun _ => rfl).trans hid
  · rw [hdrawn, hdebits]
    exact draft.covered merchantId currency livemode
  · rw [hdrawn, hdebits]
    exact draft.exact hquiet merchantId currency livemode

end Drafts

/-! ## The steps of the law -/

section Steps

variable {quiet : Prop} {payout : Payout} {posted : PayoutLeg → Option String} {db db' : Database}

/-- Another table changes. -/
theorem PayoutLaw.same (law : PayoutLaw quiet db) (same : SameLedger db db')
    (hpayouts : db'.payouts = db.payouts) : PayoutLaw quiet db' := by
  refine ⟨same.doubleEntry law.ledger, ?_, ?_, ?_, ?_⟩
  · rw [hpayouts]
    exact fun payout hpayout => same.accounted (law.payouts payout hpayout)
  · intro transaction htransaction
    rw [hpayouts]
    rw [same.transactions] at htransaction
    exact law.owned transaction htransaction
  · intro merchantId currency livemode
    rw [drawn, hpayouts, same.payableSum]
    exact law.covered merchantId currency livemode
  · intro hquiet merchantId currency livemode
    rw [drawn, hpayouts, same.payableSum]
    exact law.exact hquiet merchantId currency livemode

/-- A posting under a key that is no payout's. -/
theorem PayoutLaw.post (law : PayoutLaw quiet db) {posting : Posting} (valid : posting.Valid db)
    (hkey : ∀ (leg : PayoutLeg) merchantId id,
      ledgerKey leg.keyPurpose merchantId id ≠ .ok posting.request.idempotencyKey)
    (hquiet : quiet → ∀ line ∈ posting.request.lines,
      line.accountType = .merchantPayable → line.direction ≠ .debit) :
    PayoutLaw quiet (applyAll posting.writes db) := by
  have hpayouts : (applyAll posting.writes db : Database).payouts = db.payouts := by
    rw [posting.applyAll_writes]
  refine ⟨valid.doubleEntry law.ledger, fun payout hpayout => ?_, ?_, ?_, ?_⟩
  · rw [hpayouts] at hpayout
    have accounted := law.payouts payout hpayout
    refine accounted.post valid law.ledger fun leg hsame => ?_
    exact hkey leg payout.merchantId payout.id (hsame ▸ accounted.named leg)
  · intro transaction htransaction leg merchantId id hown
    rw [hpayouts]
    rw [posting.applyAll_writes] at htransaction
    rcases List.mem_append.mp htransaction with hold | hnew
    · exact law.owned transaction hold leg merchantId id hown
    · rw [List.mem_singleton.mp hnew, valid.headerKey] at hown
      exact absurd hown (hkey leg merchantId id)
  · intro merchantId currency livemode
    rw [drawn, hpayouts]
    exact (law.covered merchantId currency livemode).trans (valid.payableSum_le law.ledger)
  · intro h merchantId currency livemode
    rw [drawn, hpayouts, valid.payableSum_writes law.ledger, payableValue_eq_zero (hquiet h),
      add_zero]
    exact law.exact h merchantId currency livemode

/-- The link of a reversal is not part of the law. -/
theorem PayoutLaw.link (law : PayoutLaw quiet db) (transactionId originalId : String) :
    PayoutLaw quiet (applyAll (linkWrites transactionId originalId) db) := by
  have ledger := law.ledger.link transactionId originalId
  rw [applyAll_linkWrites] at ledger ⊢
  have hkept := relinked_kept transactionId originalId
  refine ⟨ledger, fun payout hpayout => ?_, ?_, law.covered, law.exact⟩
  · obtain ⟨named, complete, posted, hposted, linked⟩ := law.payouts payout hpayout
    refine ⟨named, complete, posted, fun leg => ?_, linked⟩
    have hunder : transactionsUnder (payout.key leg)
          { db with transactions := db.transactions.map (relinked transactionId originalId) } =
        (transactionsUnder (payout.key leg) db).map (relinked transactionId originalId) := by
      rw [transactionsUnder, transactionsUnder, List.filter_map]
      refine congrArg _ (List.filter_congr fun transaction _ => ?_)
      simp only [Function.comp, (hkept transaction).2.1]
    have hleg := hposted leg
    cases hid : posted leg with
    | none =>
        rw [hid] at hleg
        exact hunder.trans (by rw [show transactionsUnder _ db = [] from hleg]; rfl)
    | some id =>
        rw [hid] at hleg
        obtain ⟨transaction, htransaction, hsame, carries⟩ := hleg
        obtain ⟨hkeptId, -, hmerchant, hcurrency, hlivemode⟩ := hkept transaction
        refine ⟨relinked transactionId originalId transaction,
          by rw [hunder, htransaction, List.map_singleton], hkeptId.trans hsame,
          hmerchant.trans carries.merchant, hcurrency.trans carries.currency,
          hlivemode.trans carries.livemode, ?_⟩
        rw [hkeptId]
        exact carries.lines
  · intro transaction htransaction leg merchantId id hown
    obtain ⟨row, hrow, rfl⟩ := List.mem_map.mp htransaction
    rw [(hkept row).2.1] at hown
    exact law.owned row hrow leg merchantId id hown

/-- The rows after a change of one payout. -/
def rewritten (id : String) (change : Payout → Payout) (rows : List Payout) : List Payout :=
  rows.map fun row => if row.id = id then change row else row

theorem applyAll_rewritten (id : String) {change : Payout → Payout}
    (immutable : ∀ row, Table.payout.identity (change row) = Table.payout.identity row)
    (db : Database) :
    applyAll [Write.update (S := schema) Table.payout (.payout id) change immutable] db =
      { db with payouts := rewritten id change db.payouts } := by
  have hrows : (db.payouts.map fun row =>
      if Key.payout id ∈ Table.payout.keys row then change row else row) =
        rewritten id change db.payouts := by
    refine List.map_congr_left fun row _ => ?_
    simp only [payoutKey_mem]
  rw [← hrows]
  rfl

theorem mem_rewritten {id : String} {change : Payout → Payout} {rows : List Payout}
    {row : Payout} (h : row ∈ rewritten id change rows) :
    (∃ old ∈ rows, old.id = id ∧ row = change old) ∨ (row ∈ rows ∧ row.id ≠ id) := by
  obtain ⟨old, hold, rfl⟩ := List.mem_map.mp h
  by_cases hid : old.id = id
  · exact .inl ⟨old, hold, hid, if_pos hid⟩
  · simp only [if_neg hid]
    exact .inr ⟨hold, hid⟩

/-- A change of one payout keeps the terms of all. -/
theorem terms_rewritten (id : String) {change : Payout → Payout}
    (hterms : ∀ row, (change row).terms = row.terms) (rows : List Payout) :
    (rewritten id change rows).map Payout.terms = rows.map Payout.terms := by
  rw [rewritten, List.map_map]
  refine List.map_congr_left fun row _ => ?_
  simp only [Function.comp]
  split
  · exact hterms row
  · rfl

/-- What is drawn is drawn by the terms. -/
theorem drawn_of_terms {merchantId currency : String} {livemode : Bool}
    (h : db'.payouts.map Payout.terms = db.payouts.map Payout.terms) :
    drawn merchantId currency livemode db' = drawn merchantId currency livemode db := by
  have hshare (rows : List Payout) : rows.map (Payout.share merchantId currency livemode) =
      (rows.map Payout.terms).map (Payout.share merchantId currency livemode) := by
    rw [List.map_map]
    rfl
  rw [drawn, drawn, hshare db'.payouts, hshare db.payouts, h]

/-- The terms of a table that only grew or was rewritten are still there. -/
theorem exists_terms {rows rows' : List Payout}
    (h : rows'.map Payout.terms = rows.map Payout.terms) {row : Payout} (hrow : row ∈ rows) :
    ∃ row' ∈ rows', row'.terms = row.terms := by
  have hmem := List.mem_map_of_mem (f := Payout.terms) hrow
  rw [← h] at hmem
  exact List.mem_map.mp hmem

theorem Owned.of_terms (owned : Owned db) (htransactions : db'.transactions = db.transactions)
    (h : db'.payouts.map Payout.terms = db.payouts.map Payout.terms) : Owned db' := by
  intro transaction htransaction leg merchantId id hown
  rw [htransactions] at htransaction
  obtain ⟨row, hrow, hmerchant, hid⟩ := owned transaction htransaction leg merchantId id hown
  obtain ⟨row', hrow', hterms⟩ := exists_terms h hrow
  exact ⟨row', hrow', (Payout.of_terms hterms Payout.merchantId fun _ => rfl).trans hmerchant,
    (Payout.of_terms hterms Payout.id fun _ => rfl).trans hid⟩

/-- A change of the payout's row stays within its draft. -/
theorem PayoutDraft.rewrite (draft : PayoutDraft quiet payout posted db) {change : Payout → Payout}
    (hterms : ∀ row, (change row).terms = row.terms) :
    PayoutDraft quiet payout posted
      { db with payouts := rewritten payout.id change db.payouts } := by
  have same : SameLedger db { db with payouts := rewritten payout.id change db.payouts } :=
    ⟨rfl, rfl, rfl⟩
  have hrows := terms_rewritten payout.id hterms db.payouts
  refine ⟨same.doubleEntry draft.ledger, fun other hother hid => ?_,
    fun named leg => same.legPosted (draft.own named leg), ?_, ?_, ?_, ?_⟩
  · rcases mem_rewritten hother with ⟨old, -, hold, rfl⟩ | ⟨hold, -⟩
    · exact absurd ((Payout.of_terms (hterms old) Payout.id fun _ => rfl).trans hold) hid
    · exact same.accounted (draft.others other hold hid)
  · obtain ⟨row, hrow, hrowTerms⟩ := draft.onFile
    obtain ⟨row', hrow', h⟩ := exists_terms hrows hrow
    exact ⟨row', hrow', h.trans hrowTerms⟩
  · exact draft.owned.of_terms rfl hrows
  · intro merchantId currency livemode
    rw [drawn_of_terms hrows, same.payableSum]
    exact draft.covered merchantId currency livemode
  · intro hquiet merchantId currency livemode
    rw [drawn_of_terms hrows, same.payableSum]
    exact draft.exact hquiet merchantId currency livemode

/-- A change of a payout that moves it on, without touching its links. -/
theorem PayoutLaw.rewrite (law : PayoutLaw quiet db) {id : String} {change : Payout → Payout}
    (hterms : ∀ row, (change row).terms = row.terms)
    (hlinks : ∀ row, (change row).ledgerTransactionId = row.ledgerTransactionId ∧
      (change row).reversalTransactionId = row.reversalTransactionId)
    (hstatus : ∀ row, (change row).status.isReversed = false) :
    PayoutLaw quiet { db with payouts := rewritten id change db.payouts } := by
  have same : SameLedger db { db with payouts := rewritten id change db.payouts } :=
    ⟨rfl, rfl, rfl⟩
  have hrows := terms_rewritten id hterms db.payouts
  refine ⟨same.doubleEntry law.ledger, fun payout hpayout => ?_, law.owned.of_terms rfl hrows,
    ?_, ?_⟩
  · rcases mem_rewritten hpayout with ⟨old, hold, -, rfl⟩ | ⟨hold, -⟩
    · obtain ⟨named, complete, posted, hposted, linked⟩ := law.payouts old hold
      have hconverted := Payout.of_terms (hterms old) Payout.isConverted fun _ => rfl
      refine ⟨?_, ?_, posted, fun leg => ?_, linked.booked, ?_, ?_, ?_, ?_, ?_⟩
      · have hnamed (other : Payout) : other.terms.Named ↔ other.Named := Iff.rfl
        exact (hnamed _).mp (hterms old ▸ (hnamed old).mpr named)
      · rw [hconverted, Payout.of_terms (hterms old) Payout.sourceAmountMinor fun _ => rfl]
        exact complete
      · exact same.legPosted ((hposted leg).of_terms (hterms old).symm)
      · rw [(hlinks old).1]
        exact linked.balance
      · rw [hconverted]
        exact linked.bank
      · rw [(hlinks old).2]
        exact linked.reversal
      · rw [hconverted, (hlinks old).2]
        exact linked.bankReversal
      · intro h
        rw [hstatus old] at h
        cases h
    · exact same.accounted (law.payouts payout hold)
  · intro merchantId currency livemode
    rw [drawn_of_terms hrows, same.payableSum]
    exact law.covered merchantId currency livemode
  · intro hquiet merchantId currency livemode
    rw [drawn_of_terms hrows, same.payableSum]
    exact law.exact hquiet merchantId currency livemode

/-- A new payout, before anything is posted for it. -/
theorem PayoutLaw.create (law : PayoutLaw quiet db)
    (hfresh : ∀ other ∈ db.payouts, other.id ≠ payout.id) :
    PayoutDraft quiet payout (fun _ => none) { db with payouts := db.payouts ++ [payout] } := by
  have same : SameLedger db { db with payouts := db.payouts ++ [payout] } := ⟨rfl, rfl, rfl⟩
  have hdrawn (merchantId currency : String) (livemode : Bool) :
      drawn merchantId currency livemode { db with payouts := db.payouts ++ [payout] } =
        drawn merchantId currency livemode db + payout.share merchantId currency livemode := by
    simp [drawn]
  refine ⟨same.doubleEntry law.ledger, fun other hother hid => ?_, fun named leg => ?_, ?_, ?_,
    ?_, ?_⟩
  · rcases List.mem_append.mp hother with hold | hnew
    · exact same.accounted (law.payouts other hold)
    · exact absurd (congrArg Payout.id (List.mem_singleton.mp hnew)) hid
  · -- A transaction under one of its keys would belong to a payout with its identifier.
    refine List.filter_eq_nil_iff.mpr fun transaction htransaction hkey => ?_
    simp only [decide_eq_true_eq] at hkey
    obtain ⟨other, hother, -, hid⟩ := law.owned transaction htransaction leg payout.merchantId
      payout.id (hkey ▸ named leg)
    exact hfresh other hother hid
  · exact ⟨payout, List.mem_append_right _ (List.mem_singleton_self _), rfl⟩
  · intro transaction htransaction leg merchantId id hown
    obtain ⟨row, hrow, h⟩ := law.owned transaction htransaction leg merchantId id hown
    exact ⟨row, List.mem_append_left _ hrow, h⟩
  · intro merchantId currency livemode
    have h := law.covered merchantId currency livemode
    rw [hdrawn, same.payableSum]
    simp only [Option.isSome_none, Bool.false_eq_true, if_false]
    omega
  · intro hquiet merchantId currency livemode
    have h := law.exact hquiet merchantId currency livemode
    rw [hdrawn, same.payableSum]
    simp only [Option.isSome_none, Bool.false_eq_true, if_false]
    omega

end Steps

end PayzenoLedger
