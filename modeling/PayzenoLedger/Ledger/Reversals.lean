import PayzenoLedger.Ledger.BalanceCache

/-!
# Reversals

A reversal is a posting of its own, under a key that its caller chooses, with
the mirror image of the original's entries.  It always cancels the original on
every account and every cached bucket.  That there is only one rests on the key
alone: nothing else of a reversal is unique, and nobody looks whether the
original has been reversed before.
-/

set_option autoImplicit false

namespace PayzenoLedger

open Library Write

/-! ## Calls -/

/-- `POST /transactions/{transaction_id}/reverse`. -/
def reverseTransaction (transactionId idempotencyKey : String) : Async PostResult := do
  let original ← LedgerTransactionRepository.getOrRaise transactionId
  match original.reversesTransactionId with
  | some reverses =>
      throw (ledgerError .validationError "cannot reverse a reversal"
        [("transaction_id", .text transactionId), ("reverses", .text reverses)])
  | none => LedgerPoster.reverse original idempotencyKey .admin

/-- A posting, a reversal through the API, or a reversal by a service that loads
the transaction first. -/
inductive TransactionCall where
  | post (request : PostRequest)
  | route (transactionId idempotencyKey : String)
  | service (transactionId idempotencyKey : String) (createdBy : Actor)

namespace TransactionCall

def run : TransactionCall → Async PostResult
  | .post request => LedgerPoster.post request
  | .route transactionId idempotencyKey => reverseTransaction transactionId idempotencyKey
  | .service transactionId idempotencyKey createdBy => do
      let original ← LedgerTransactionRepository.getOrRaise transactionId
      LedgerPoster.reverse original idempotencyKey createdBy

def runAll : List TransactionCall → Async (List PostResult)
  | [] => pure []
  | call :: calls => do
      let result ← call.run
      let results ← runAll calls
      pure (result :: results)

def transaction (calls : List TransactionCall) : Async (List PostResult) :=
  Async.withSession .ledgerCalls (runAll calls)

/-- The call reverses a transaction under the key that is kept for it. -/
def UnderKey (keyOf : String → String) : TransactionCall → Prop
  | .post _ => True
  | .route transactionId idempotencyKey => idempotencyKey = keyOf transactionId
  | .service transactionId idempotencyKey _ => idempotencyKey = keyOf transactionId

end TransactionCall

def transactionWorkers (transactions : List (List TransactionCall)) :
    List (Program system (Except Exception (List PostResult))) :=
  transactions.map fun calls => (TransactionCall.transaction calls).run

/-! ## A transaction and its reversal -/

/-- The other side of an entry, on the same account. -/
structure LedgerEntry.Opposes (entry reversed : LedgerEntry) : Prop where
  accountId : reversed.accountId = entry.accountId
  direction : reversed.direction = entry.direction.flip
  amount : reversed.amountMinor = entry.amountMinor
  currency : reversed.currency = entry.currency
  livemode : reversed.livemode = entry.livemode

/-- The second list has the other side of each entry of the first. -/
def Cancels (entries reversed : List LedgerEntry) : Prop :=
  ∃ listed, List.Perm listed entries ∧ List.Forall₂ LedgerEntry.Opposes listed reversed

/-- A weight that changes its sign with the side sums to nothing over both lists. -/
theorem Cancels.sum_eq_zero {entries reversed : List LedgerEntry}
    (cancels : Cancels entries reversed) (weight : LedgerEntry → Int)
    (hweight : ∀ entry other : LedgerEntry, entry.Opposes other →
      weight other = -weight entry) :
    (entries.map weight).sum + (reversed.map weight).sum = 0 := by
  obtain ⟨listed, hperm, hopposes⟩ := cancels
  rw [← (hperm.map weight).sum_eq]
  clear hperm
  induction hopposes with
  | nil => rfl
  | cons hopposes _ ih =>
      simp only [List.map_cons, List.sum_cons, hweight _ _ hopposes]
      omega

/-- The entry sits on the account that its header's merchant, currency and livemode
give for some type. -/
structure LedgerEntry.Fits (entry : LedgerEntry) (header : LedgerTransaction)
    (db : Database) : Prop where
  currency : entry.currency = header.currency
  livemode : entry.livemode = header.livemode
  account : ∃ type : AccountType, HasAccount
    ⟨entry.accountId, if type.isPlatform then none else header.merchantId, type,
      header.currency, header.livemode⟩ db

/-- The books, with every reversal the mirror image of what it reverses, under the
key that is kept for it. -/
structure Reversed (keyOf : String → String) (db : Database) : Prop where
  ledger : FaithfulLedger db
  fits : ∀ entry ∈ db.entries, ∀ header ∈ db.transactions,
    header.id = entry.transactionId → entry.Fits header db
  mirrors : ∀ reversal ∈ db.transactions, ∀ originalId,
    reversal.reversesTransactionId = some originalId →
      originalId ≠ reversal.id ∧ (∃ original ∈ db.transactions, original.id = originalId) ∧
        Cancels (entriesOf originalId db.entries) (entriesOf reversal.id db.entries)
  keyed : ∀ reversal ∈ db.transactions, ∀ originalId,
    reversal.reversesTransactionId = some originalId →
      reversal.idempotencyKey = keyOf originalId

section Steps

variable {keyOf : String → String} {posting : Posting} {db : Database}

theorem Posting.entries_writes (posting : Posting) (db : Database) :
    (applyAll posting.writes db : Database).entries = db.entries ++ posting.entries := by
  rw [posting.applyAll_writes]

theorem Posting.transactions_writes (posting : Posting) (db : Database) :
    (applyAll posting.writes db : Database).transactions =
      db.transactions ++ [posting.header] := by
  rw [posting.applyAll_writes]

theorem LedgerEntry.Fits.applyAll {entry : LedgerEntry} {header : LedgerTransaction}
    (fits : entry.Fits header db) (writes : List (Write schema)) :
    entry.Fits header (applyAll writes db) where
  currency := fits.currency
  livemode := fits.livemode
  account := fits.account.imp fun _ has => has.applyAll writes

/-- A valid posting that reverses nothing keeps the books. -/
theorem Reversed.post (reversed : Reversed keyOf db) (valid : posting.Valid db) :
    Reversed keyOf (applyAll posting.writes db) := by
  have hheader : posting.header.reversesTransactionId = none := by
    rw [valid.header]
    rfl
  have hcurrency : posting.header.currency = posting.request.currency := by
    rw [valid.header]
    rfl
  have hlivemode : posting.header.livemode = posting.request.livemode := by
    rw [valid.header]
    rfl
  have hmerchant : posting.header.merchantId = posting.request.merchantId := by
    rw [valid.header]
    rfl
  refine ⟨valid.faithfulLedger reversed.ledger, ?_, ?_, ?_⟩
  · intro entry hentry header hmem hid
    rw [posting.entries_writes] at hentry
    rw [posting.transactions_writes] at hmem
    rcases List.mem_append.mp hentry with hold | hnew
    · rcases List.mem_append.mp hmem with hmem | hmem
      · exact (reversed.fits entry hold header hmem hid).applyAll _
      · obtain ⟨other, hother, hotherId, -⟩ :=
          reversed.ledger.doubleEntry.headed entry hold
        rw [List.mem_singleton.mp hmem] at hid
        exact absurd (hotherId.trans hid.symm) (valid.fresh other hother)
    · obtain ⟨line, -, leg⟩ := exists_leg valid.legs hnew
      rcases List.mem_append.mp hmem with hmem | hmem
      · exact absurd (hid.trans leg.transactionId) (valid.fresh header hmem)
      · rw [List.mem_singleton.mp hmem]
        refine ⟨leg.currency.trans hcurrency.symm, leg.livemode.trans hlivemode.symm,
          line.accountType, ?_⟩
        rw [hcurrency, hlivemode, hmerchant]
        exact leg.account
  · intro reversal hmem originalId hreverses
    rw [posting.transactions_writes] at hmem
    rcases List.mem_append.mp hmem with hmem | hmem
    · obtain ⟨hne, ⟨original, horiginal, rfl⟩, hcancels⟩ :=
        reversed.mirrors reversal hmem originalId hreverses
      rw [posting.transactions_writes, posting.entries_writes,
        valid.entriesOf_other horiginal, valid.entriesOf_other hmem]
      exact ⟨hne, ⟨original, List.mem_append_left _ horiginal, rfl⟩, hcancels⟩
    · rw [List.mem_singleton.mp hmem, hheader] at hreverses
      cases hreverses
  · intro reversal hmem originalId hreverses
    rw [posting.transactions_writes] at hmem
    rcases List.mem_append.mp hmem with hmem | hmem
    · exact reversed.keyed reversal hmem originalId hreverses
    · rw [List.mem_singleton.mp hmem, hheader] at hreverses
      cases hreverses

theorem Undoes.applyAll {entry : LedgerEntry} {line : PostingLine}
    (undoes : Undoes db entry line) (writes : List (Write schema)) :
    Undoes (applyAll writes db) entry line :=
  { undoes with
    account := undoes.account.imp fun _ ⟨hid, htype, has⟩ => ⟨hid, htype, has.applyAll writes⟩ }

/-- The leg of a line that undoes an entry is on the entry's account. -/
theorem Leg.opposes {request : PostRequest} {original : LedgerTransaction}
    {transactionId : String} {entry leg : LedgerEntry} {line : PostingLine}
    (unique : Schema.Unique (S := schema) db)
    (hmerchant : request.merchantId = original.merchantId)
    (hcurrency : request.currency = original.currency)
    (hlivemode : request.livemode = original.livemode)
    (fits : entry.Fits original db) (undoes : Undoes db entry line)
    (hleg : Leg request transactionId db line leg) : entry.Opposes leg := by
  obtain ⟨type, account, haccount, hident⟩ := fits.account
  obtain ⟨hid, haccountMerchant, htype, haccountCurrency, haccountLivemode⟩ :=
    AccountIdentity.mk.inj hident
  obtain ⟨identity, hidentityId, hidentityType, read, hread, rfl⟩ := undoes.account
  have hsame : read = account := unique.eq_of_key Table.account (.account entry.accountId)
    hread haccount (by simp [Table.keys, ← hidentityId, Account.identity])
    (by simp [Table.keys, hid])
  subst hsame
  have hlineType : line.accountType = type := hidentityType.symm.trans htype
  obtain ⟨booked, hbooked, hbookedIdent⟩ := hleg.account
  obtain ⟨hbookedId, hbookedMerchant, hbookedType, hbookedCurrency, hbookedLivemode⟩ :=
    AccountIdentity.mk.inj hbookedIdent
  have hbookedSame : booked = read := unique.eq_of_key Table.account
    (.accountNatural read.merchantId read.type read.currency read.livemode) hbooked haccount
    (by simp [Table.keys, hbookedMerchant, hbookedType, hbookedCurrency, hbookedLivemode,
      haccountMerchant, htype, haccountCurrency, haccountLivemode, hlineType, hmerchant,
      hcurrency, hlivemode])
    (by simp [Table.keys])
  subst hbookedSame
  exact
    { accountId := hbookedId.symm.trans hid
      direction := hleg.direction.trans undoes.direction
      amount := hleg.amount.trans undoes.amount
      currency := hleg.currency.trans (hcurrency.trans fits.currency.symm)
      livemode := hleg.livemode.trans (hlivemode.trans fits.livemode.symm) }

theorem Posting.Valid.opposes {original : LedgerTransaction} {listed : List LedgerEntry}
    (valid : posting.Valid db)
    (hmerchant : posting.request.merchantId = original.merchantId)
    (hcurrency : posting.request.currency = original.currency)
    (hlivemode : posting.request.livemode = original.livemode)
    (fits : ∀ entry ∈ listed, entry.Fits original db)
    (hundoes : List.Forall₂ (Undoes db) listed posting.request.lines) :
    List.Forall₂ LedgerEntry.Opposes listed posting.entries := by
  have hlegs := valid.legs
  have hunique := valid.unique
  generalize posting.request.lines = lines at hlegs hundoes
  generalize posting.entries = entries at hlegs
  induction hundoes generalizing entries with
  | nil =>
      cases hlegs
      exact .nil
  | @cons entry line listed lines undoes _ ih =>
      cases hlegs with
      | cons leg legs =>
          refine .cons ?_ (ih (fun other h => fits other (List.mem_cons_of_mem _ h)) _ legs)
          exact leg.opposes hunique hmerchant hcurrency hlivemode
            ((fits entry List.mem_cons_self).applyAll _) (undoes.applyAll _)

/-- A header with the link of a reversal. -/
def relinked (transactionId originalId : String) (row : LedgerTransaction) :
    LedgerTransaction :=
  if Key.transaction transactionId ∈ Table.ledgerTransaction.keys row then
    { row with reversesTransactionId := some originalId }
  else row

theorem applyAll_linkWrites (transactionId originalId : String) (db : Database) :
    applyAll (linkWrites transactionId originalId) db =
      { db with transactions := db.transactions.map (relinked transactionId originalId) } :=
  rfl

/-- The link changes nothing else of a header. -/
theorem relinked_cases (transactionId originalId : String) (row : LedgerTransaction) :
    row.id = transactionId ∧ relinked transactionId originalId row =
        { row with reversesTransactionId := some originalId } ∨
      row.id ≠ transactionId ∧ relinked transactionId originalId row = row := by
  unfold relinked
  by_cases hid : row.id = transactionId
  · exact .inl ⟨hid, by simp [Table.keys, hid]⟩
  · exact .inr ⟨hid, by simp [Table.keys, Ne.symm hid]⟩

theorem relinked_kept (transactionId originalId : String) (row : LedgerTransaction) :
    (relinked transactionId originalId row).id = row.id ∧
      (relinked transactionId originalId row).idempotencyKey = row.idempotencyKey ∧
      (relinked transactionId originalId row).merchantId = row.merchantId ∧
      (relinked transactionId originalId row).currency = row.currency ∧
      (relinked transactionId originalId row).livemode = row.livemode := by
  rcases relinked_cases transactionId originalId row with ⟨-, h⟩ | ⟨-, h⟩ <;>
    rw [h] <;> exact ⟨rfl, rfl, rfl, rfl, rfl⟩

/-- A mirrored posting with its link keeps the books, under the key that is kept for the
original. -/
theorem Reversed.reverse {original : LedgerTransaction} {listed : List LedgerEntry}
    (reversed : Reversed keyOf db) (valid : posting.Valid db)
    (horiginal : original ∈ db.transactions)
    (hmerchant : posting.request.merchantId = original.merchantId)
    (hcurrency : posting.request.currency = original.currency)
    (hlivemode : posting.request.livemode = original.livemode)
    (hkey : posting.request.idempotencyKey = keyOf original.id)
    (hlisted : List.Perm listed (entriesOf original.id db.entries))
    (hundoes : List.Forall₂ (Undoes db) listed posting.request.lines) :
    Reversed keyOf
      (applyAll (posting.writes ++ linkWrites posting.header.id original.id) db) := by
  have hposted := reversed.post valid
  have hunique := valid.unique
  have hfresh := valid.fresh original horiginal
  have hheader : posting.header ∈ (applyAll posting.writes db : Database).transactions := by
    rw [posting.transactions_writes]
    exact List.mem_append_right _ List.mem_cons_self
  have horiginal' : original ∈ (applyAll posting.writes db : Database).transactions := by
    rw [posting.transactions_writes]
    exact List.mem_append_left _ horiginal
  have hcancels : Cancels
      (entriesOf original.id (applyAll posting.writes db : Database).entries)
      (entriesOf posting.header.id (applyAll posting.writes db : Database).entries) := by
    rw [posting.entries_writes, valid.entriesOf_other horiginal,
      valid.entriesOf_header reversed.ledger.doubleEntry]
    refine ⟨listed, hlisted, valid.opposes hmerchant hcurrency hlivemode (fun entry h => ?_)
      hundoes⟩
    obtain ⟨hentry, hid⟩ := List.mem_filter.mp (hlisted.subset h)
    exact reversed.fits entry hentry original horiginal (of_decide_eq_true hid).symm
  rw [applyAll_append]
  generalize (applyAll posting.writes db : Database) = posted at *
  have hkept := relinked_kept posting.header.id original.id
  refine ⟨faithfulLedger_ledgerInvariant.link _ _ _ hposted.ledger, ?_, ?_, ?_⟩ <;>
    rw [applyAll_linkWrites]
  · intro entry hentry header hmem hid
    obtain ⟨row, hrow, rfl⟩ := List.mem_map.mp hmem
    obtain ⟨hsameId, -, hsameMerchant, hsameCurrency, hsameLivemode⟩ := hkept row
    have fits := hposted.fits entry hentry row hrow (hsameId.symm.trans hid)
    refine ⟨fits.currency.trans hsameCurrency.symm, fits.livemode.trans hsameLivemode.symm, ?_⟩
    rw [hsameMerchant, hsameCurrency, hsameLivemode]
    exact fits.account
  · intro reversal hmem originalId hreverses
    obtain ⟨row, hrow, rfl⟩ := List.mem_map.mp hmem
    rw [(hkept row).1]
    rcases relinked_cases posting.header.id original.id row with ⟨hid, hrelinked⟩ | ⟨-, hsame⟩
    · rw [hrelinked] at hreverses
      cases hreverses
      rw [hid]
      exact ⟨hfresh, ⟨_, List.mem_map_of_mem horiginal', (hkept original).1⟩, hcancels⟩
    · rw [hsame] at hreverses
      obtain ⟨hne, ⟨other, hother, hotherId⟩, hother'⟩ :=
        hposted.mirrors row hrow originalId hreverses
      exact ⟨hne, ⟨_, List.mem_map_of_mem hother, (hkept other).1.trans hotherId⟩, hother'⟩
  · intro reversal hmem originalId hreverses
    obtain ⟨row, hrow, rfl⟩ := List.mem_map.mp hmem
    rw [(hkept row).2.1]
    rcases relinked_cases posting.header.id original.id row with ⟨hid, hrelinked⟩ | ⟨-, hsame⟩
    · rw [hrelinked] at hreverses
      cases hreverses
      have hrowHeader : row = posting.header := hunique.eq_of_key Table.ledgerTransaction
        (.transaction posting.header.id) hrow hheader (by simp [Table.keys, hid])
        (by simp [Table.keys])
      rw [hrowHeader, valid.header]
      exact hkey
    · rw [hsame] at hreverses
      exact hposted.keyed row hrow originalId hreverses

end Steps

/-! ## The discipline -/

/-- The entries of a transaction that is there are all its entries. -/
def Frozen (db db' : Database) : Prop :=
  ∀ transaction ∈ db.transactions,
    entriesOf transaction.id db'.entries = entriesOf transaction.id db.entries

theorem Frozen.refl (db : Database) : Frozen db db := fun _ _ => rfl

theorem Frozen.trans {first second third : Database} (left : Frozen first second)
    (right : Frozen second third)
    (hkept : ∀ transaction ∈ first.transactions,
      ∃ other ∈ second.transactions, other.id = transaction.id) : Frozen first third := by
  intro transaction htransaction
  obtain ⟨other, hother, hid⟩ := hkept transaction htransaction
  have hright := right other hother
  rw [hid] at hright
  exact hright.trans (left transaction htransaction)

/-- The books stay as they should be, and no transaction gets further entries. -/
def reversalDiscipline (keyOf : String → String) : Discipline system where
  permits := anyMove
  guarantee _ _ shared shared' := Frozen shared.committed shared'.committed
  invariant shared := Reversed keyOf shared.committed
  required _ := none
  meaning _ _ := True
  meaning_extends _ _ _ _ h := h
  drift_sound _ _ _ h _ := h
  enter_sound _ _ _ _ h _ := ⟨Frozen.refl _, h⟩
  rollback_sound _ _ _ _ h _ := ⟨Frozen.refl _, h⟩
  crash_sound _ _ _ h _ := ⟨Frozen.refl _, h⟩

section Calls

variable {keyOf : String → String} {worker : Nat}
  {error : Exception → List (Session system) → Shared system → Prop}
  {top : Session system} {rest : List (Session system)} {shared shared' : Shared system}

/-- What the session has written keeps the books whenever it is committed. -/
structure Drafted (keyOf : String → String) (worker : Nat) (rest : List (Session system))
    (top : Session system) (shared : Shared system) : Prop where
  added : ∃ entries, ∀ db : Database,
    (applyAll top.writes db : Database).entries = db.entries ++ entries
  books : ∀ shared', (reversalDiscipline keyOf).Rely worker (Held (top :: rest)) shared shared' →
    Reversed keyOf (applyAll top.writes shared'.committed) ∧
      Frozen shared'.committed (applyAll top.writes shared'.committed)

/-- Nothing that others do takes it away. -/
theorem Drafted.rely (drafted : Drafted keyOf worker rest top shared)
    (rely : (reversalDiscipline keyOf).Rely worker (Held (top :: rest)) shared shared') :
    Drafted keyOf worker rest top shared' where
  added := drafted.added
  books later hlater := drafted.books later (rely.trans hlater)

theorem Drafted.start {name : SessionName} (good : (reversalDiscipline keyOf).Good shared) :
    Drafted keyOf worker rest (Session.fresh name) shared where
  added := ⟨[], fun _ => (List.append_nil _).symm⟩
  books _ rely := ⟨(rely.good good).2, Frozen.refl _⟩

theorem LedgerTransaction.same_of_identity {row original : LedgerTransaction}
    (hident : Table.ledgerTransaction.identity row = Table.ledgerTransaction.identity original) :
    row.id = original.id ∧ row.merchantId = original.merchantId ∧
      row.currency = original.currency ∧ row.livemode = original.livemode := by
  have hsame : ({ row with reversesTransactionId := none } : LedgerTransaction) =
      { original with reversesTransactionId := none } := hident
  obtain ⟨hid, -, -, -, hmerchant, hcurrency, hlivemode, -⟩ := LedgerTransaction.mk.inj hsame
  exact ⟨hid, hmerchant, hcurrency, hlivemode⟩

/-- A committed transaction has the same entries later. -/
theorem entriesOf_rely {held : Lock system → Prop} (good : (reversalDiscipline keyOf).Good shared)
    (rely : (reversalDiscipline keyOf).Rely worker held shared shared')
    {row : LedgerTransaction} (hrow : row ∈ (shared.committed : Database).transactions) :
    entriesOf row.id (shared'.committed : Database).entries =
      entriesOf row.id (shared.committed : Database).entries := by
  refine (rely.preserves good (fun later =>
    (∃ other ∈ (later.committed : Database).transactions, other.id = row.id) ∧
      entriesOf row.id (later.committed : Database).entries =
        entriesOf row.id (shared.committed : Database).entries)
    (fun before after _ step => ?_) ⟨⟨row, hrow, rfl⟩, rfl⟩).2
  rintro ⟨⟨other, hother, hotherId⟩, hsame⟩
  constructor
  · obtain ⟨kept, hkept, hident⟩ := step.later.grows.survives Table.ledgerTransaction hother
    exact ⟨kept, hkept, (LedgerTransaction.same_of_identity hident).1.trans hotherId⟩
  · rcases step.cause with ⟨_, _, _, rfl⟩ | ⟨_, _, _, _, hguarantee, _⟩
    · exact hsame
    · have hkept : entriesOf other.id _ = entriesOf other.id _ := hguarantee other hother
      rw [hotherId] at hkept
      exact hkept.trans hsame

/-- There are no entries of a transaction that is not there. -/
theorem Reversed.entriesOf_absent {db : Database} (books : Reversed keyOf db)
    {transactionId : String} (habsent : ∀ row ∈ db.transactions, row.id ≠ transactionId) :
    entriesOf transactionId db.entries = [] := by
  refine List.filter_eq_nil_iff.mpr fun entry hentry => ?_
  obtain ⟨header, hheader, hid, -⟩ := books.ledger.doubleEntry.headed entry hentry
  simpa [← hid] using habsent header hheader

/-- The entries of a transaction that the session sees are the same whenever it looks. -/
theorem Drafted.entriesOf_view (drafted : Drafted keyOf worker rest top shared)
    (good : (reversalDiscipline keyOf).Good shared)
    (foot : Footprint top.keys top.writes shared.committed)
    (rely : (reversalDiscipline keyOf).Rely worker (Held (top :: rest)) shared shared')
    {transaction : LedgerTransaction}
    (htransaction : transaction ∈ (top.view shared.committed : Database).transactions) :
    entriesOf transaction.id (applyAll top.writes shared'.committed : Database).entries =
      entriesOf transaction.id (top.view shared.committed : Database).entries := by
  obtain ⟨entries, hadded⟩ := drafted.added
  rw [Session.view, hadded, hadded, entriesOf_append, entriesOf_append]
  congr 1
  by_cases hthere : ∃ row ∈ (shared.committed : Database).transactions, row.id = transaction.id
  · -- It was committed before, and nobody adds entries to it.
    obtain ⟨row, hrow, hid⟩ := hthere
    rw [← hid]
    exact entriesOf_rely good rely hrow
  · -- The session made it, and holds its identifier against all others.
    have habsent : ∀ row ∈ (shared.committed : Database).transactions,
        row.id ≠ transaction.id := fun row hrow hid => hthere ⟨row, hrow, hid⟩
    have hlocked : top.keys (.transaction transaction.id) := by
      by_contra hfree
      have hframe := foot.frame shared.committed (Schema.Agree.refl _ _) good.1
        Table.ledgerTransaction _ hfree
      have hholder : transaction ∈ Schema.holders (S := schema) Table.ledgerTransaction
          (.transaction transaction.id) (applyAll top.writes shared.committed) :=
        Schema.mem_holders.mpr ⟨htransaction, by simp [Table.keys]⟩
      rw [hframe] at hholder
      exact habsent transaction (Schema.mem_holders.mp hholder).1 rfl
    have hlater : Schema.Later top.keys shared.committed shared'.committed :=
      (rely.later good).mono fun _ hkey => held_cons.mpr (.inl hkey)
    have habsent' : ∀ row ∈ (shared'.committed : Database).transactions,
        row.id ≠ transaction.id := by
      intro row hrow hid
      have hholder : row ∈ Schema.holders (S := schema) Table.ledgerTransaction
          (.transaction transaction.id) shared'.committed :=
        Schema.mem_holders.mpr ⟨hrow, by simp [Table.keys, hid]⟩
      rw [← hlater.agree Table.ledgerTransaction _ hlocked] at hholder
      exact habsent row (Schema.mem_holders.mp hholder).1 hid
    rw [Reversed.entriesOf_absent (rely.good good).2 habsent',
      Reversed.entriesOf_absent good.2 habsent]

theorem Posting.Valid.frozen {posting : Posting} {db : Database} (valid : posting.Valid db) :
    Frozen db (applyAll posting.writes db) := by
  intro transaction htransaction
  rw [posting.entries_writes, valid.entriesOf_other htransaction]

/-- Further writes that append entries and keep the books where the session commits. -/
theorem Drafted.append {top' : Session system} {more : List (Write schema)}
    (drafted : Drafted keyOf worker rest top shared)
    (progress : Progress (reversalDiscipline keyOf) worker rest top shared top' shared')
    (hwrites : top'.writes = top.writes ++ more)
    (hadded : ∃ entries, ∀ db : Database,
      (applyAll more db : Database).entries = db.entries ++ entries)
    (hbooks : ∀ later, (reversalDiscipline keyOf).Rely worker (Held (top' :: rest)) shared' later →
      Reversed keyOf (applyAll top.writes later.committed) →
      Reversed keyOf (applyAll more (applyAll top.writes later.committed)) ∧
        Frozen (applyAll top.writes later.committed)
          (applyAll more (applyAll top.writes later.committed))) :
    Drafted keyOf worker rest top' shared' where
  added := by
    obtain ⟨before, hbefore⟩ := drafted.added
    obtain ⟨after, hafter⟩ := hadded
    refine ⟨before ++ after, fun db => ?_⟩
    rw [hwrites, applyAll_append, hafter, hbefore, List.append_assoc]
  books later rely := by
    obtain ⟨hbefore, hfrozen⟩ :=
      drafted.books later (progress.rely.trans (rely.mono fun _ => progress.held))
    obtain ⟨hafter, hfrozen'⟩ := hbooks later rely hbefore
    rw [hwrites, applyAll_append]
    refine ⟨hafter, hfrozen.trans hfrozen' fun transaction htransaction => ?_⟩
    obtain ⟨kept, hkept, hident⟩ :=
      (applyAll_extends top.writes _).survives Table.ledgerTransaction htransaction
    exact ⟨kept, hkept, (LedgerTransaction.same_of_identity hident).1⟩

/-- What the session holds now, it holds of every later database. -/
theorem later_of_rely {top : Session system} (good : (reversalDiscipline keyOf).Good shared)
    (rely : (reversalDiscipline keyOf).Rely worker (Held (top :: rest)) shared shared') :
    Schema.Later top.keys shared.committed shared'.committed :=
  (rely.later good).mono fun _ hkey => held_cons.mpr (.inl hkey)

variable {ok : PostResult → List (Session system) → Shared system → Prop}

/-- A reversal of a transaction that the session sees, under its key. -/
theorem Drafted.wpr_reverse {original : LedgerTransaction} {idempotencyKey : String}
    {createdBy : Actor} (drafted : Drafted keyOf worker rest top shared)
    (start : Progress (reversalDiscipline keyOf) worker rest top shared top shared)
    (horiginal : original ∈ (top.view shared.committed : Database).transactions)
    (hkey : idempotencyKey = keyOf original.id)
    (hok : ∀ shared' top' result,
      Progress (reversalDiscipline keyOf) worker rest top shared top' shared' →
      Drafted keyOf worker rest top' shared' → ok result (top' :: rest) shared')
    (herror : ∀ shared' top' raised,
      Progress (reversalDiscipline keyOf) worker rest top shared top' shared' →
      error raised (top' :: rest) shared') :
    wpr (reversalDiscipline keyOf) worker
      (LedgerPoster.reverse original idempotencyKey createdBy) ok error (top :: rest) shared := by
  refine LedgerPoster.wpr_reverse (fun shared₁ shared₂ top₂ posting listed progress₁ progress₂
    hlisted hundoes hrequest hwrites hvalid => ?_) herror
  have progress := progress₁.trans progress₂
  refine hok shared₂ top₂ _ progress (drafted.append progress (by rw [hwrites, List.append_assoc])
    ⟨posting.entries, fun db => by rw [applyAll_append]; exact posting.entries_writes db⟩
    fun later rely books => ?_)
  have hlater := later_of_rely progress.good rely
  have hrely := progress.rely.trans (rely.mono fun _ => progress.held)
  have valid := hvalid _ hlater
  have hseen : Seen top.keys top.writes _ _ :=
    Seen.identity (Y := system) Table.ledgerTransaction horiginal
  obtain ⟨row, hrow, hident⟩ := hseen _ (later_of_rely start.good hrely)
  obtain ⟨hid, hmerchant, hcurrency, hlivemode⟩ := LedgerTransaction.same_of_identity hident
  have hread := drafted.entriesOf_view start.good start.foot progress₁.rely horiginal
  have hnow := drafted.entriesOf_view start.good start.foot hrely horiginal
  constructor
  · rw [← hid]
    refine books.reverse valid hrow ?_ ?_ ?_ ?_ ?_ (hundoes _ hlater)
    · rw [hrequest, hmerchant]
      rfl
    · rw [hrequest, hcurrency]
      rfl
    · rw [hrequest, hlivemode]
      rfl
    · rw [hrequest, hid]
      exact hkey
    · rw [hid, hnow, ← hread]
      exact hlisted
  · rw [applyAll_append]
    exact valid.frozen

theorem TransactionCall.wpr_run {call : TransactionCall} (hkey : call.UnderKey keyOf)
    (drafted : Drafted keyOf worker rest top shared)
    (start : Progress (reversalDiscipline keyOf) worker rest top shared top shared)
    (hok : ∀ shared' top' result,
      Progress (reversalDiscipline keyOf) worker rest top shared top' shared' →
      Drafted keyOf worker rest top' shared' → ok result (top' :: rest) shared')
    (herror : ∀ shared' top' raised,
      Progress (reversalDiscipline keyOf) worker rest top shared top' shared' →
      error raised (top' :: rest) shared') :
    wpr (reversalDiscipline keyOf) worker call.run ok error (top :: rest) shared := by
  have hpost (request : PostRequest) :
      wpr (reversalDiscipline keyOf) worker (LedgerPoster.post request) ok error (top :: rest)
        shared := by
    refine LedgerPoster.wpr_post
      (fun shared₁ top₁ posting progress _ hwrites hvalid _ => ?_)
      (fun shared₁ existing progress _ _ _ => ?_) herror start
    · refine hok shared₁ top₁ _ progress (drafted.append progress hwrites
        ⟨posting.entries, posting.entries_writes⟩ fun later rely books => ?_)
      have valid := hvalid _ (later_of_rely progress.good rely)
      exact ⟨books.post valid, valid.frozen⟩
    · exact hok shared₁ top _ progress (drafted.rely progress.rely)
  have hreverse (transactionId idempotencyKey : String) (createdBy : Actor)
      (hkey : idempotencyKey = keyOf transactionId) {shared₁ : Shared system}
      {original : LedgerTransaction}
      (progress₁ : Progress (reversalDiscipline keyOf) worker rest top shared top shared₁)
      (horiginal : original ∈ Schema.holders (S := schema) Table.ledgerTransaction
        (.transaction transactionId) (top.view shared₁.committed)) :
      wpr (reversalDiscipline keyOf) worker
        (LedgerPoster.reverse original idempotencyKey createdBy) ok error (top :: rest)
        shared₁ := by
    obtain ⟨hmem, hholds⟩ := Schema.mem_holders.mp horiginal
    have hid : transactionId = original.id := by simpa [Table.keys] using hholds
    exact (drafted.rely progress₁.rely).wpr_reverse progress₁.here hmem (hid ▸ hkey)
      (fun shared₂ top₂ result progress₂ => hok shared₂ top₂ result (progress₁.trans progress₂))
      (fun shared₂ top₂ raised progress₂ =>
        herror shared₂ top₂ raised (progress₁.trans progress₂))
  cases call with
  | post request => exact hpost request
  | route transactionId idempotencyKey =>
      change wpr _ _ (reverseTransaction transactionId idempotencyKey) _ _ _ _
      unfold reverseTransaction
      rw [wpr_bind]
      refine Async.wpr_getOrRaise (fun shared₁ original progress₁ horiginal => ?_)
        fun shared₁ progress₁ _ => herror shared₁ top _ progress₁
      cases original.reversesTransactionId with
      | some reverses => exact herror shared₁ top _ progress₁
      | none => exact hreverse transactionId idempotencyKey .admin hkey progress₁ horiginal
  | service transactionId idempotencyKey createdBy =>
      change wpr _ _ (_ >>= _) _ _ _ _
      rw [wpr_bind]
      refine Async.wpr_getOrRaise (fun shared₁ original progress₁ horiginal => ?_)
        fun shared₁ progress₁ _ => herror shared₁ top _ progress₁
      exact hreverse transactionId idempotencyKey createdBy hkey progress₁ horiginal

theorem TransactionCall.wpr_runAll {calls : List TransactionCall}
    (hkeys : ∀ call ∈ calls, call.UnderKey keyOf)
    (drafted : Drafted keyOf worker rest top shared)
    (start : Progress (reversalDiscipline keyOf) worker rest top shared top shared)
    {ok : List PostResult → List (Session system) → Shared system → Prop}
    (hok : ∀ shared' top' results,
      Progress (reversalDiscipline keyOf) worker rest top shared top' shared' →
      Drafted keyOf worker rest top' shared' → ok results (top' :: rest) shared')
    (herror : ∀ shared' top' raised,
      Progress (reversalDiscipline keyOf) worker rest top shared top' shared' →
      error raised (top' :: rest) shared') :
    wpr (reversalDiscipline keyOf) worker (runAll calls) ok error (top :: rest) shared := by
  induction calls generalizing top shared ok with
  | nil => exact hok shared top [] start drafted
  | cons call calls ih =>
      unfold runAll
      rw [wpr_bind]
      refine TransactionCall.wpr_run (hkeys call List.mem_cons_self) drafted start
        (fun shared₁ top₁ result progress₁ drafted₁ => ?_) herror
      rw [wpr_bind]
      refine ih (fun other h => hkeys other (List.mem_cons_of_mem _ h)) drafted₁ progress₁.here
        (fun shared₂ top₂ results progress₂ drafted₂ => ?_)
        (fun shared₂ top₂ raised progress₂ =>
          herror shared₂ top₂ raised (progress₁.trans progress₂))
      exact hok shared₂ top₂ _ (progress₁.trans progress₂) drafted₂

end Calls

theorem TransactionCall.wp_transaction {keyOf : String → String} (worker : Nat)
    {calls : List TransactionCall} (hkeys : ∀ call ∈ calls, call.UnderKey keyOf)
    {shared : Shared system} :
    wp (reversalDiscipline keyOf) worker (TransactionCall.transaction calls).run
      (fun _ _ _ => True) [] shared := by
  have hending : wpr (reversalDiscipline keyOf) worker (TransactionCall.transaction calls)
      (fun _ _ _ => True) (fun _ _ _ => True) [] shared := by
    refine wpr_withSession fun shared₁ _ _ _ good₁ => ?_
    refine TransactionCall.wpr_runAll hkeys (Drafted.start good₁) (Progress.start good₁)
      (fun shared₂ top results progress drafted => ?_)
      fun shared₂ top raised progress => ⟨top, rfl, fun _ _ _ _ => trivial⟩
    refine ⟨top, rfl, fun shared₃ rely₃ _ _ _ => ?_⟩
    obtain ⟨books, frozen⟩ := drafted.books shared₃ rely₃
    exact ⟨frozen, books, trivial⟩
  exact wp_mono hending fun _ _ _ _ => trivial

section Weights

variable {entry other : LedgerEntry}

end Weights

namespace ReversalSample

/-- The steps of a worker that posts `samplePosting`. -/
def posted : List (Action system) :=
  advances 0 [.plain, .id "1", .instant 3, .plain, .plain, .plain, .id "2", .plain, .id "3",
    .instant 3, .plain, .id "4", .plain, .id "5", .instant 3, .plain, .plain, .plain, .plain,
    .id "6", .plain, .plain]

/-- The steps of a reversal through the API that goes through. -/
def undone (worker : Nat) (header debited credited event : String) : List (Action system) :=
  advances worker [.plain, .plain, .plain, .plain, .plain, .id header, .instant 3, .plain,
    .plain, .plain, .id debited, .instant 3, .plain, .id credited, .instant 3, .plain, .plain,
    .plain, .plain, .plain, .id event, .plain, .plain, .plain]

/-- The steps of one that finds its key taken. -/
def refused (worker : Nat) (header : String) : List (Action system) :=
  advances worker [.plain, .plain, .plain, .plain, .plain, .id header, .instant 3, .plain,
    .plain, .plain, .plain]

def start (first second : String) : Config system (Except Exception (List PostResult)) :=
  Config.start ({} : Database) ({ clock := 10 } : World)
    (transactionWorkers [[.post samplePosting], [.route "txn_1" first], [.route "txn_1" second]])

end ReversalSample

end PayzenoLedger
