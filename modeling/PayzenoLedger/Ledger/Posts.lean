import PayzenoLedger.LoneRuns
import PayzenoLedger.Services.Transactions

/-!
# Postings that go through

A balanced request on accounts that are open posts, or finds its key posted before, when
its caller runs alone.
-/

set_option autoImplicit false

namespace PayzenoLedger

open Library

variable {fair : Assumption system} {past : List Choice} {view view' : Database}

/-! ## Helpers -/

/-- Every entry has its transaction: the foreign key. -/
def Headed (db : Database) : Prop :=
  ∀ entry ∈ db.entries, ∃ transaction ∈ db.transactions, transaction.id = entry.transactionId

theorem Headed.of_eq (headed : Headed view) (hentries : view'.entries = view.entries)
    (htransactions : view'.transactions = view.transactions) : Headed view' := by
  unfold Headed
  rw [hentries, htransactions]
  exact headed

/-- A transaction that is not there has no entries. -/
theorem Headed.entrySequence_free (headed : Headed view) {id : String}
    (hnew : Schema.holders (S := schema) Table.ledgerTransaction (.transaction id) view = [])
    (sequence : Nat) :
    Schema.holders (S := schema) Table.ledgerEntry (.entrySequence id sequence) view = [] := by
  rw [Schema.holders_eq_nil_iff] at hnew ⊢
  intro other hother hsame
  obtain ⟨existing, hexisting, hheader⟩ := headed other hother
  have hkeys : Key.entrySequence id sequence ∈
    [Key.entry other.id, Key.entrySequence other.transactionId other.sequence] := hsame
  simp only [List.mem_cons, reduceCtorEq, Key.entrySequence.injEq, List.not_mem_nil,
    or_false, false_or] at hkeys
  refine hnew existing hexisting ?_
  rw [hkeys.1, ← hheader]
  exact List.mem_cons_self

/-- A transaction goes in with its entries. -/
theorem Headed.posted (headed : Headed view) {header : LedgerTransaction}
    {entries : List LedgerEntry} (hentries : view'.entries = view.entries ++ entries)
    (htransactions : view'.transactions = view.transactions ++ [header])
    (hown : ∀ entry ∈ entries, entry.transactionId = header.id) : Headed view' := by
  intro entry hentry
  rw [hentries] at hentry
  rw [htransactions]
  rcases List.mem_append.mp hentry with hold | hnew
  · obtain ⟨existing, hexisting, hheader⟩ := headed entry hold
    exact ⟨existing, List.mem_append_left _ hexisting, hheader⟩
  · exact ⟨header, List.mem_append_right _ (List.mem_singleton.mpr rfl), (hown entry hnew).symm⟩

/-- One account is debited and another credited. -/
theorem balanced_transfer {debited credited : AccountType} {amountMinor : Int} :
    Balanced [debit debited amountMinor, credit credited amountMinor] ↔ 0 < amountMinor := by
  constructor
  · intro balanced
    exact balanced.positive _ List.mem_cons_self
  · intro hpositive
    constructor
    · exact Nat.le_refl 2
    · simp [sideTotal, debit, credit]
    · intro line hline
      simp only [List.mem_cons, List.not_mem_nil, or_false] at hline
      rcases hline with rfl | rfl <;> exact hpositive

/-- Rows whose keys are free, and apart from each other, all go in. -/
theorem Async.attains_addAll (orderly : Orderly fair) {table : Table} {rows : List table.Row}
    {ok : Unit → List Choice → Database → Prop} {error : Exception → List Choice → Database → Prop}
    (hfree : ∀ row ∈ rows, ∀ key ∈ table.keys row,
      Schema.holders (S := schema) table key view = [])
    (hapart : rows.Pairwise fun first second => ∀ key ∈ table.keys second,
      key ∉ table.keys first)
    (h : ∀ past', ok () past' (Write.applyAll (inserts table rows) view)) :
    attains (Y := system) fair (addAll table rows) ok error past view := by
  induction rows generalizing past view with
  | nil => exact attains_pure (h past)
  | cons row rows ih =>
      rw [List.pairwise_cons] at hapart
      refine attains_bind (attains_add orderly (hfree row List.mem_cons_self) fun choice => ?_)
      refine ih (fun other hother key hkey => ?_) hapart.2 h
      have hholders := Write.holders_insert (S := schema) table row key view
      rw [hholders, hfree other (List.mem_cons_of_mem _ hother) key hkey,
        if_neg (hapart.1 other hother key hkey)]
      rfl

/-- One event staged under a new identifier. -/
theorem OutboxPublisher.attains_publish (orderly : Orderly fair) {type correlationId : String}
    {payload : List (String × Json)} {merchantId : Option String} {livemode : Bool}
    {ok : Unit → List Choice → Database → Prop} {error : Exception → List Choice → Database → Prop}
    (h : ∀ past' view', view'.entries = view.entries → view'.transactions = view.transactions →
      ok () past' view') :
    attains (Y := system) fair (publish type payload merchantId correlationId livemode) ok error
      past view := by
  refine attains_bind (Async.attains_newId orderly fun body _ hunused => ?_)
  refine Async.attains_add orderly (fun key hkey => ?_) fun choice => h _ _ rfl rfl
  cases List.mem_singleton.mp hkey
  exact hunused.holders rfl Table.eventOutbox

/-! ## Accounts -/

/-- The account of a line, if there is one, takes postings. -/
def AccountOpen (merchantId : Option String) (type : AccountType) (currency : String)
    (livemode : Bool) (view : Database) : Prop :=
  ∀ account ∈ view.accounts, account.merchantId = merchantId → account.type = type →
    account.currency = currency → account.livemode = livemode →
    ¬ (account.status = .frozen ∨ account.status = .closed)

/-- Only open accounts were added. -/
def Opened (view view' : Database) : Prop :=
  ∃ added : List Account, (∀ account ∈ added, account.status = .active) ∧
    view' = { view with accounts := view.accounts ++ added }

theorem Opened.refl (view : Database) : Opened view view :=
  ⟨[], nofun, by simp⟩

theorem Opened.trans {view'' : Database} (first : Opened view view')
    (second : Opened view' view'') : Opened view view'' := by
  obtain ⟨added, hactive, rfl⟩ := first
  obtain ⟨more, hmore, rfl⟩ := second
  refine ⟨added ++ more, fun account haccount => ?_, by simp⟩
  rcases List.mem_append.mp haccount with hfirst | hsecond
  · exact hactive account hfirst
  · exact hmore account hsecond

/-- Accounts are all that differs. -/
theorem Opened.holders (opened : Opened view view') {table : Table} (htable : table ≠ .account)
    (key : Key) :
    Schema.holders (S := schema) table key view' = Schema.holders (S := schema) table key view := by
  obtain ⟨added, -, rfl⟩ := opened
  cases table with
  | account => exact absurd rfl htable
  | _ => rfl

theorem AccountOpen.opened {merchantId : Option String} {type : AccountType} {currency : String}
    {livemode : Bool} (hopen : AccountOpen merchantId type currency livemode view)
    (opened : Opened view view') : AccountOpen merchantId type currency livemode view' := by
  obtain ⟨added, hactive, rfl⟩ := opened
  intro account haccount hmerchant htype hcurrency hlivemode
  rcases List.mem_append.mp haccount with hold | hnew
  · exact hopen account hold hmerchant htype hcurrency hlivemode
  · rw [hactive account hnew]
    simp

/-- The account that a line finds is closed or frozen. -/
def AccountShut (merchantId : Option String) (type : AccountType) (currency : String)
    (livemode : Bool) (view : Database) : Prop :=
  ∃ account, (Schema.holders (S := schema) Table.account
      (.accountNatural merchantId type currency livemode) view).head? = some account ∧
    (account.status = .frozen ∨ account.status = .closed)

theorem AccountShut.opened {merchantId : Option String} {type : AccountType} {currency : String}
    {livemode : Bool} (shut : AccountShut merchantId type currency livemode view)
    (opened : Opened view view') : AccountShut merchantId type currency livemode view' := by
  obtain ⟨added, -, rfl⟩ := opened
  obtain ⟨account, hhead, hstatus⟩ := shut
  refine ⟨account, ?_, hstatus⟩
  have hrows : schema.rows Table.account
      { view with accounts := view.accounts ++ added } = view.accounts ++ added := rfl
  unfold Schema.holders at hhead ⊢
  rw [hrows, List.filter_append, List.head?_append]
  change (view.accounts.filter _).head? = some account at hhead
  rw [hhead]
  rfl

theorem AccountOpen.of_not_shut {merchantId : Option String} {type : AccountType}
    {currency : String} {livemode : Bool} (unique : Schema.Unique (S := schema) view)
    (h : ¬ AccountShut merchantId type currency livemode view) :
    AccountOpen merchantId type currency livemode view := by
  intro account haccount hmerchant htype hcurrency hlivemode hstatus
  refine h ⟨account, ?_, hstatus⟩
  have hkey : Key.accountNatural merchantId type currency livemode ∈
      Table.account.keys account := by
    rw [← hmerchant, ← htype, ← hcurrency, ← hlivemode]
    change _ ∈ [Key.account account.id, Key.accountNatural account.merchantId account.type
      account.currency account.livemode]
    simp
  rw [unique.holders_eq (Schema.mem_holders.mpr ⟨haccount, hkey⟩)]
  rfl

/-- An account of a known type is the one found, or a new one that is active. -/
theorem AccountResolver.attains_getOrCreate_found (orderly : Orderly fair)
    {merchantId : Option String} {type : AccountType} {currency : String} {livemode : Bool}
    {ok : Account → List Choice → Database → Prop}
    {error : Exception → List Choice → Database → Prop}
    (hknown : type.normalBalance ≠ none)
    (h : ∀ account past' view', past ⊆ past' → Opened view view' →
      ((Schema.holders (S := schema) Table.account
          (.accountNatural merchantId type currency livemode) view).head? = some account ∨
        ((Schema.holders (S := schema) Table.account
          (.accountNatural merchantId type currency livemode) view).head? = none ∧
          account.status = .active)) →
      ok account past' view') :
    attains (Y := system) fair (getOrCreate merchantId type currency livemode) ok error
      past view := by
  unfold getOrCreate
  cases hbalance : type.normalBalance with
  | none => exact absurd hbalance hknown
  | some normalBalance =>
      refine attains_bind (Async.attains_get orderly fun choice => ?_)
      cases hhead : (Schema.holders (S := schema) Table.account
          (.accountNatural merchantId type currency livemode) view).head? with
      | some existing =>
          exact attains_pure (h existing _ _ (List.subset_append_left _ _) (.refl view)
            (.inl hhead))
      | none =>
          have hnone := List.head?_eq_none_iff.mp hhead
          refine attains_bind (Async.attains_newId orderly fun body _ hunused => ?_)
          refine attains_bind (attains_insert orderly.live (fun key hkey => ?_) fun choice' => ?_)
          · have hkeys : key ∈ [Key.account ("acct" ++ "_" ++ body),
              Key.accountNatural merchantId type currency livemode] := hkey
            simp only [List.mem_cons, List.not_mem_nil, or_false] at hkeys
            rcases hkeys with rfl | rfl
            · exact hunused.holders rfl Table.account
            · exact hnone
          · refine attains_pure (h _ _ _ ?_ ⟨[_], ?_, rfl⟩ (.inr ⟨hhead, rfl⟩))
            · intro before hbefore
              simp [hbefore]
            · intro account haccount
              rw [List.mem_singleton.mp haccount]

/-- An account that is open, where it exists, is found or opened. -/
theorem AccountResolver.attains_getOrCreate (orderly : Orderly fair)
    {merchantId : Option String} {type : AccountType} {currency : String} {livemode : Bool}
    {ok : Account → List Choice → Database → Prop}
    {error : Exception → List Choice → Database → Prop}
    (hknown : type.normalBalance ≠ none)
    (hopen : AccountOpen merchantId type currency livemode view)
    (h : ∀ account past' view', ¬ (account.status = .frozen ∨ account.status = .closed) →
      past ⊆ past' → Opened view view' → ok account past' view') :
    attains (Y := system) fair (getOrCreate merchantId type currency livemode) ok error
      past view := by
  refine attains_getOrCreate_found orderly hknown
    fun account past' view' hpast opened hfound => h account past' view' ?_ hpast opened
  rcases hfound with hhead | ⟨-, hactive⟩
  · obtain ⟨hrow, hkey⟩ := Schema.mem_holders.mp (List.mem_of_head? hhead)
    have hkeys : Key.accountNatural merchantId type currency livemode ∈
      [Key.account account.id, Key.accountNatural account.merchantId account.type
        account.currency account.livemode] := hkey
    simp only [List.mem_cons, reduceCtorEq, Key.accountNatural.injEq, List.not_mem_nil,
      or_false, false_or] at hkeys
    exact hopen account hrow hkeys.1.symm hkeys.2.1.symm hkeys.2.2.1.symm hkeys.2.2.2.symm
  · rw [hactive]
    simp

/-! ## Entries -/

namespace LedgerPoster

/-- Entries that the database has room for: new identifiers, apart from each other, and
sequences counted from one on. -/
structure Minted (transactionId : String) (sequence : Nat) (past : List Choice) (view : Database)
    (entries : List LedgerEntry) : Prop where
  new : ∀ entry ∈ entries, (∃ body, entry.id = "le" ++ "_" ++ body ∧ Choice.id body ∉ past) ∧
    Schema.holders (S := schema) Table.ledgerEntry (.entry entry.id) view = []
  own : ∀ entry ∈ entries, entry.transactionId = transactionId ∧ sequence ≤ entry.sequence
  apart : entries.Pairwise fun first second =>
    first.id ≠ second.id ∧ first.sequence ≠ second.sequence

/-- Two of them share no key. -/
theorem Minted.keys_apart {transactionId : String} {sequence : Nat} {entries : List LedgerEntry}
    (minted : Minted transactionId sequence past view entries) :
    entries.Pairwise fun first second => ∀ key ∈ Table.ledgerEntry.keys second,
      key ∉ Table.ledgerEntry.keys first := by
  refine minted.apart.imp fun {first second} happart key hsecond hfirst => ?_
  have hsecond' : key ∈ [Key.entry second.id, Key.entrySequence second.transactionId
    second.sequence] := hsecond
  have hfirst' : key ∈ [Key.entry first.id, Key.entrySequence first.transactionId
    first.sequence] := hfirst
  simp only [List.mem_cons, List.not_mem_nil, or_false] at hsecond' hfirst'
  rcases hsecond' with rfl | rfl
  · rcases hfirst' with hsame | hsame
    · exact happart.1 (Key.entry.inj hsame).symm
    · cases hsame
  · rcases hfirst' with hsame | hsame
    · cases hsame
    · exact happart.2 (Key.entrySequence.inj hsame).2.symm

theorem Minted.cons {transactionId : String} {sequence : Nat} {past past' : List Choice}
    {entries : List LedgerEntry} {entry : LedgerEntry} {body : String}
    (minted : Minted transactionId (sequence + 1) past' view entries)
    (hid : entry.id = "le" ++ "_" ++ body) (hnew : Choice.id body ∉ past)
    (hpast : past ⊆ past') (hused : Choice.id body ∈ past')
    (hfree : Schema.holders (S := schema) Table.ledgerEntry (.entry entry.id) view = [])
    (htransaction : entry.transactionId = transactionId) (hsequence : entry.sequence = sequence) :
    Minted transactionId sequence past view (entry :: entries) where
  new := by
    intro other hother
    rcases List.mem_cons.mp hother with rfl | hmem
    · exact ⟨⟨body, hid, hnew⟩, hfree⟩
    · obtain ⟨⟨other', hother', hnew'⟩, hfree'⟩ := minted.new other hmem
      exact ⟨⟨other', hother', fun hbefore => hnew' (hpast hbefore)⟩, hfree'⟩
  own := by
    intro other hother
    rcases List.mem_cons.mp hother with rfl | hmem
    · exact ⟨htransaction, hsequence.ge⟩
    · obtain ⟨hsame, hlater⟩ := minted.own other hmem
      exact ⟨hsame, by omega⟩
  apart := by
    refine List.pairwise_cons.mpr ⟨fun other hmem => ⟨fun hsame => ?_, ?_⟩, minted.apart⟩
    · obtain ⟨⟨other', hother', hnew'⟩, -⟩ := minted.new other hmem
      rw [hid, hother', String.append_right_inj] at hsame
      exact hnew' (hsame ▸ hused)
    · obtain ⟨-, hlater⟩ := minted.own other hmem
      omega

/-- Every line finds or opens its account. -/
theorem attains_materialiseEntries (orderly : Orderly fair) {transactionId : String}
    {request : PostRequest} {sequence : Nat} {lines : List PostingLine}
    {ok : List LedgerEntry → List Choice → Database → Prop}
    {error : Exception → List Choice → Database → Prop}
    (hknown : ∀ line ∈ lines, line.accountType.normalBalance ≠ none)
    (hopen : ∀ line ∈ lines,
      AccountOpen (if line.accountType.isPlatform then none else request.merchantId)
        line.accountType request.currency request.livemode view)
    (h : ∀ entries past' view', Opened view view' →
      Minted transactionId sequence past view entries → ok entries past' view') :
    attains (Y := system) fair (materialiseEntries transactionId request sequence lines) ok error
      past view := by
  induction lines generalizing sequence past view ok with
  | nil => exact attains_pure (h [] past view (.refl view) ⟨nofun, nofun, .nil⟩)
  | cons line lines ih =>
      unfold materialiseEntries
      refine attains_bind (AccountResolver.attains_getOrCreate orderly
        (hknown line List.mem_cons_self) (hopen line List.mem_cons_self)
        fun account past₁ view₁ hactive hpast₁ opened₁ => ?_)
      rw [if_neg hactive]
      refine attains_bind (Async.attains_newId orderly fun body hnew hunused => ?_)
      refine attains_bind (Async.attains_transactionTime orderly fun choice createdAt => ?_)
      refine attains_bind (ih (fun other hother => hknown other (List.mem_cons_of_mem _ hother))
        (fun other hother => (hopen other (List.mem_cons_of_mem _ hother)).opened opened₁)
        fun entries past₂ view₂ opened₂ minted => ?_)
      refine attains_pure (h _ _ _ (opened₁.trans opened₂) ?_)
      have minted' : Minted transactionId (sequence + 1) (past₁ ++ [.id body] ++ [choice]) view
          entries :=
        { minted with
          new := fun entry hentry => by
            rw [← opened₁.holders (by decide)]
            exact minted.new entry hentry }
      refine minted'.cons rfl (fun hbefore => hnew (hpast₁ hbefore)) ?_ ?_ ?_ rfl rfl
      · intro before hbefore
        simp [hpast₁ hbefore]
      · simp
      · rw [← opened₁.holders (by decide)]
        exact hunused.holders rfl Table.ledgerEntry

/-- A line whose account is shut is refused. -/
theorem attains_materialiseEntries_shut (orderly : Orderly fair) {transactionId : String}
    {request : PostRequest} {sequence : Nat} {lines : List PostingLine}
    {ok : List LedgerEntry → List Choice → Database → Prop}
    {error : Exception → List Choice → Database → Prop}
    (hknown : ∀ line ∈ lines, line.accountType.normalBalance ≠ none)
    (hshut : ∃ line ∈ lines,
      AccountShut (if line.accountType.isPlatform then none else request.merchantId)
        line.accountType request.currency request.livemode view)
    (herror : ∀ raised past' view', error raised past' view') :
    attains (Y := system) fair (materialiseEntries transactionId request sequence lines) ok error
      past view := by
  induction lines generalizing sequence past view ok with
  | nil =>
      obtain ⟨line, hline, -⟩ := hshut
      cases hline
  | cons line lines ih =>
      unfold materialiseEntries
      refine attains_bind (AccountResolver.attains_getOrCreate_found orderly
        (hknown line List.mem_cons_self) fun account past₁ view₁ _ opened hfound => ?_)
      split
      · exact attains_throw (herror _ _ _)
      · next hactive =>
          have hlater : ∃ line ∈ lines,
              AccountShut (if line.accountType.isPlatform then none else request.merchantId)
                line.accountType request.currency request.livemode view₁ := by
            obtain ⟨other, hother, shut⟩ := hshut
            rcases List.mem_cons.mp hother with rfl | hmem
            · obtain ⟨existing, hhead, hstatus⟩ := shut
              rcases hfound with hsame | ⟨hnone, -⟩
              · rw [hhead] at hsame
                cases hsame
                exact absurd hstatus hactive
              · rw [hhead] at hnone
                cases hnone
            · exact ⟨other, hmem, shut.opened opened⟩
          refine attains_bind (Async.attains_newId orderly fun body _ _ => ?_)
          refine attains_bind (Async.attains_transactionTime orderly fun choice createdAt => ?_)
          exact attains_bind (ih (fun other hother =>
            hknown other (List.mem_cons_of_mem _ hother)) hlater)

/-- The cached balance takes any delta. -/
theorem attains_applyBalanceDelta (orderly : Orderly fair) {request : PostRequest}
    {transactionId : String} {ok : Unit → List Choice → Database → Prop}
    {error : Exception → List Choice → Database → Prop}
    (h : ∀ past' view', view'.entries = view.entries → view'.transactions = view.transactions →
      ok () past' view') :
    attains (Y := system) fair (applyBalanceDelta request transactionId) ok error past view := by
  unfold applyBalanceDelta
  cases request.merchantId with
  | none => exact attains_pure (h past view rfl rfl)
  | some merchantId =>
      dsimp only
      split
      · exact attains_pure (h past view rfl rfl)
      · refine attains_bind (Async.attains_now orderly fun choice world _ => ?_)
        let delta := BalanceDelta.ofLines request.lines
        let row := MerchantBalanceCacheRepository.fresh merchantId request.currency
          request.livemode delta transactionId world.clock
        let key := Key.balance merchantId request.currency request.livemode
        have hkeys : Table.merchantBalanceCache.keys row = [key] := rfl
        cases hhead : (Schema.holders (S := schema) Table.merchantBalanceCache key view).head? with
        | none =>
            have hnone := List.head?_eq_none_iff.mp hhead
            refine attains_bind (attains_insert orderly.live (fun other hother => ?_)
              fun choice' => attains_pure (h _ _ rfl rfl))
            rw [show other = key from List.mem_singleton.mp hother]
            exact hnone
        | some existing =>
            have hheld : Schema.holders (S := schema) Table.merchantBalanceCache key view ≠ [] := by
              intro hnone
              rw [hnone] at hhead
              cases hhead
            refine attains_bind (attains_insert_taken orderly.live (List.mem_singleton.mpr rfl)
              hheld fun choice' taken htaken => ?_)
            have htaken' : key ∈ taken := (htaken key).mpr ⟨List.mem_singleton.mpr rfl, hheld⟩
            cases taken with
            | nil => cases htaken'
            | cons first others =>
                refine attains_bind (attains_update orderly.live hhead rfl fun choice'' => ?_)
                exact attains_pure (h _ _ rfl rfl)

/-! ## The posting -/

/-- What a posting needs of its request and of the accounts. -/
structure Postable (request : PostRequest) (view : Database) : Prop where
  balanced : Balanced request.lines
  known : ∀ line ∈ request.lines, line.accountType.normalBalance ≠ none
  accounts : ∀ line ∈ request.lines,
    AccountOpen (if line.accountType.isPlatform then none else request.merchantId)
      line.accountType request.currency request.livemode view
  headed : Headed view

/-- A free key is claimed by a new header, and a taken one is found with the header it has. -/
theorem attains_claimIdempotencyKey (orderly : Orderly fair) {request : PostRequest}
    {ok : IdempotencyClaim → List Choice → Database → Prop}
    {error : Exception → List Choice → Database → Prop}
    (hclaimed : ∀ id postedAt past',
      Schema.holders (S := schema) Table.ledgerTransaction (.transaction id) view = [] →
      Schema.holders (S := schema) Table.ledgerTransaction
        (.idempotency request.idempotencyKey) view = [] →
      ok { transactionId := id, created := true } past'
        ((Write.insert (S := schema) Table.ledgerTransaction
          (LedgerTransactionRepository.header request id postedAt)).apply view))
    (hheld : ∀ existing matching past', existing ∈ view.transactions →
      Schema.holders (S := schema) Table.ledgerTransaction
        (.idempotency request.idempotencyKey) view ≠ [] →
      ok { transactionId := existing.id, created := false, fingerprintMatches := matching }
        past' view) :
    attains (Y := system) fair (LedgerTransactionRepository.claimIdempotencyKey request) ok error
      past view := by
  unfold LedgerTransactionRepository.claimIdempotencyKey
  refine attains_bind (Async.attains_newId orderly fun body _ hunused => ?_)
  refine attains_bind (Async.attains_transactionTime orderly fun choice postedAt => ?_)
  have hnew : Schema.holders (S := schema) Table.ledgerTransaction
      (.transaction ("txn" ++ "_" ++ body)) view = [] :=
    hunused.holders rfl Table.ledgerTransaction
  have hkeys (key : Key) (hkey : key ∈ Table.ledgerTransaction.keys
      (LedgerTransactionRepository.header request ("txn" ++ "_" ++ body) postedAt)) :
      key = .transaction ("txn" ++ "_" ++ body) ∨ key = .idempotency request.idempotencyKey := by
    have hmem : key ∈ [Key.transaction ("txn" ++ "_" ++ body),
      Key.idempotency request.idempotencyKey] := hkey
    simpa using hmem
  cases hhead : (Schema.holders (S := schema) Table.ledgerTransaction
      (.idempotency request.idempotencyKey) view).head? with
  | none =>
      have hnone := List.head?_eq_none_iff.mp hhead
      refine attains_bind (attains_insert orderly.live (fun key hkey => ?_) fun choice' => ?_)
      · rcases hkeys key hkey with rfl | rfl
        · exact hnew
        · exact hnone
      · exact attains_pure (hclaimed _ _ _ hnew hnone)
  | some existing =>
      have hheld' : Schema.holders (S := schema) Table.ledgerTransaction
          (.idempotency request.idempotencyKey) view ≠ [] := by
        intro hnone
        rw [hnone] at hhead
        cases hhead
      have hown : Key.idempotency request.idempotencyKey ∈ Table.ledgerTransaction.keys
          (LedgerTransactionRepository.header request ("txn" ++ "_" ++ body) postedAt) := by
        change _ ∈ [Key.transaction _, Key.idempotency request.idempotencyKey]
        simp
      refine attains_bind (attains_insert_taken orderly.live hown hheld'
        fun choice' taken htaken => ?_)
      have hmem : Key.idempotency request.idempotencyKey ∈ taken :=
        (htaken _).mpr ⟨hown, hheld'⟩
      rw [if_neg (List.ne_nil_of_mem hmem), if_pos hmem]
      refine attains_bind (Async.attains_get orderly fun choice'' => ?_)
      rw [hhead]
      exact attains_pure
        (hheld existing _ _ (Schema.mem_holders.mp (List.mem_of_head? hhead)).1 hheld')

/-- A request posts on open accounts, or finds its key posted and does not mind. -/
theorem attains_post_of (orderly : Orderly fair) {request : PostRequest}
    (hconflict : request.onConflict = .returnExisting ∨
      Schema.holders (S := schema) Table.ledgerTransaction
        (.idempotency request.idempotencyKey) view = [])
    (postable : Postable request view) {ok : PostResult → List Choice → Database → Prop}
    {error : Exception → List Choice → Database → Prop}
    (h : ∀ posted past' view', Headed view' → ok posted past' view') :
    attains (Y := system) fair (post request) ok error past view := by
  unfold post
  refine attains_bind (Async.attains_check ((assertInvariants_ok_iff _).mpr postable.balanced) ?_)
  refine attains_bind (attains_claimIdempotencyKey orderly (fun id postedAt past₁ hnew _ => ?_)
    fun existing matching past₁ hexisting hposted => ?_)
  · rw [if_pos rfl]
    let header := LedgerTransactionRepository.header request id postedAt
    have hrows : (Write.insert (S := schema) Table.ledgerTransaction header).apply view =
        { view with transactions := view.transactions ++ [header] } := rfl
    rw [hrows]
    refine attains_bind (Async.attains_getOrRaise orderly ⟨header, ?_, ?_⟩
      fun choice transaction _ hkey => ?_)
    · exact List.mem_append_right _ (List.mem_singleton.mpr rfl)
    · exact List.mem_cons_self
    have hid : transaction.id = id := by
      have hmem : Key.transaction id ∈
        [Key.transaction transaction.id, Key.idempotency transaction.idempotencyKey] := hkey
      simpa [eq_comm] using hmem
    refine attains_bind (attains_materialiseEntries orderly postable.known ?_
      fun entries past₂ view₂ opened minted => ?_)
    · intro line hline
      exact postable.accounts line hline
    refine attains_bind (Async.attains_addAll orderly ?_ ?_ fun past₃ => ?_)
    · intro entry hentry key hkey
      rw [opened.holders (by decide)]
      have hmem : key ∈ [Key.entry entry.id, Key.entrySequence entry.transactionId
        entry.sequence] := hkey
      simp only [List.mem_cons, List.not_mem_nil, or_false] at hmem
      rcases hmem with rfl | rfl
      · exact (minted.new entry hentry).2
      · rw [(minted.own entry hentry).1, hid]
        exact postable.headed.entrySequence_free hnew _
    · exact minted.keys_apart
    have headed : Headed (Write.applyAll (inserts .ledgerEntry entries) view₂) := by
      obtain ⟨added, -, rfl⟩ := opened
      rw [applyAll_inserts]
      exact postable.headed.posted rfl rfl fun entry hentry => (minted.own entry hentry).1.trans hid
    refine attains_bind (attains_applyBalanceDelta orderly
      fun past₄ view₄ hentries₄ hheaders₄ => ?_)
    refine attains_bind (OutboxPublisher.attains_publish orderly
      fun past₅ view₅ hentries₅ hheaders₅ => ?_)
    exact attains_pure (h _ _ _ ((headed.of_eq hentries₄ hheaders₄).of_eq hentries₅ hheaders₅))
  · rw [if_neg Bool.false_ne_true]
    refine attains_bind (Async.attains_getOrRaise orderly ⟨existing, hexisting, ?_⟩
      fun choice transaction _ _ => ?_)
    · exact List.mem_cons_self
    rcases hconflict with hreturns | hunposted
    · rw [hreturns]
      exact attains_pure (h _ _ _ postable.headed)
    · exact absurd hunposted hposted

/-- The request posts, or its key has been posted. -/
theorem attains_post (orderly : Orderly fair) {request : PostRequest}
    (hconflict : request.onConflict = .returnExisting) (postable : Postable request view)
    {ok : PostResult → List Choice → Database → Prop}
    {error : Exception → List Choice → Database → Prop}
    (h : ∀ posted past' view', ok posted past' view') :
    attains (Y := system) fair (post request) ok error past view :=
  attains_post_of orderly (.inl hconflict) postable fun posted past' view' _ => h posted past' view'

/-- A request that is not balanced is refused. -/
theorem attains_post_unbalanced {request : PostRequest} (hbalanced : ¬ Balanced request.lines)
    {ok : PostResult → List Choice → Database → Prop}
    {error : Exception → List Choice → Database → Prop}
    (herror : ∀ raised past' view', error raised past' view') :
    attains (Y := system) fair (post request) ok error past view := by
  unfold post
  cases hchecked : assertInvariants request.lines with
  | ok _ => exact absurd ((assertInvariants_ok_iff _).mp hchecked) hbalanced
  | error raised => exact attains_bind (Async.attains_check_error rfl (herror _ _ _))

/-- A request that minds is refused when its key has been posted. -/
theorem attains_post_taken (orderly : Orderly fair) {request : PostRequest}
    (hconflict : request.onConflict = .raise)
    (hposted : Schema.holders (S := schema) Table.ledgerTransaction
      (.idempotency request.idempotencyKey) view ≠ [])
    {ok : PostResult → List Choice → Database → Prop}
    {error : Exception → List Choice → Database → Prop}
    (herror : ∀ raised past' view', error raised past' view') :
    attains (Y := system) fair (post request) ok error past view := by
  by_cases hbalanced : Balanced request.lines
  · unfold post
    refine attains_bind (Async.attains_check ((assertInvariants_ok_iff _).mpr hbalanced) ?_)
    refine attains_bind (attains_claimIdempotencyKey orderly
      (fun id postedAt past₁ _ hunposted => absurd hunposted hposted)
      fun existing matching past₁ hexisting _ => ?_)
    rw [if_neg Bool.false_ne_true]
    refine attains_bind (Async.attains_getOrRaise orderly ⟨existing, hexisting, ?_⟩
      fun choice transaction _ _ => ?_)
    · exact List.mem_cons_self
    rw [hconflict]
    exact attains_throw (herror _ _ _)
  · exact attains_post_unbalanced hbalanced herror

/-- A request whose key is free is refused when an account of it is shut. -/
theorem attains_post_shut (orderly : Orderly fair) {request : PostRequest}
    (hunposted : Schema.holders (S := schema) Table.ledgerTransaction
      (.idempotency request.idempotencyKey) view = [])
    (hknown : ∀ line ∈ request.lines, line.accountType.normalBalance ≠ none)
    (hshut : ∃ line ∈ request.lines,
      AccountShut (if line.accountType.isPlatform then none else request.merchantId)
        line.accountType request.currency request.livemode view)
    {ok : PostResult → List Choice → Database → Prop}
    {error : Exception → List Choice → Database → Prop}
    (herror : ∀ raised past' view', error raised past' view') :
    attains (Y := system) fair (post request) ok error past view := by
  by_cases hbalanced : Balanced request.lines
  · unfold post
    refine attains_bind (Async.attains_check ((assertInvariants_ok_iff _).mpr hbalanced) ?_)
    refine attains_bind (attains_claimIdempotencyKey orderly
      (fun id postedAt past₁ _ _ => ?_) fun existing matching past₁ _ hposted => ?_)
    · rw [if_pos rfl]
      let header := LedgerTransactionRepository.header request id postedAt
      have hrows : (Write.insert (S := schema) Table.ledgerTransaction header).apply view =
          { view with transactions := view.transactions ++ [header] } := rfl
      rw [hrows]
      refine attains_bind (Async.attains_getOrRaise orderly ⟨header, ?_, ?_⟩
        fun choice transaction _ _ => ?_)
      · exact List.mem_append_right _ (List.mem_singleton.mpr rfl)
      · exact List.mem_cons_self
      exact attains_bind (attains_materialiseEntries_shut orderly hknown hshut herror)
    · exact absurd hunposted hposted
  · exact attains_post_unbalanced hbalanced herror

end LedgerPoster

end PayzenoLedger
