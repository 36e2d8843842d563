import PayzenoLedger.Ledger.History
import Mathlib.Algebra.BigOperators.Ring.List
import Mathlib.Algebra.Ring.Int.Defs

/-!
# The balance cache is a fold of the entries

The cache moves by the signed totals of a posting's lines; the audit sums the
entries of a merchant's accounts.  Both agree in every database that
transactions of ledger calls reach.
-/

set_option autoImplicit false

namespace PayzenoLedger

open Library Write

/-! ## The two readings of a balance -/

/-- The cached amount of a bucket; a missing row counts as zero. -/
def cachedAmount (merchantId currency : String) (livemode : Bool) (db : Database)
    (bucket : Bucket) : Int :=
  match (Schema.holders (S := schema) Table.merchantBalanceCache
      (.balance merchantId currency livemode) db).head? with
  | none => 0
  | some row => row.amount bucket

/-- The cache holds what the entries sum to. -/
structure FaithfulCache (db : Database) : Prop where
  amounts : ∀ merchantId currency livemode bucket,
    cachedAmount merchantId currency livemode db bucket =
      LedgerEntryRepository.sumBuckets merchantId currency livemode none db bucket
  negative : ∀ row ∈ db.balances,
    row.negativeBalanceMinor = max 0 (-row.availableMinor)

section Sums

variable (merchantId currency : String) (livemode : Bool) (bucket : Bucket)

/-- What one entry on an account adds to a bucket. -/
def bucketWeight (entry : LedgerEntry) (account : Account) : Int :=
  if account.merchantId = some merchantId ∧ entry.currency = currency ∧
      entry.livemode = livemode ∧ account.type = bucket.accountType then
    if some entry.direction = bucket.accountType.normalBalance then entry.amountMinor
    else -entry.amountMinor
  else 0

/-- What one entry adds to a bucket, over the accounts that it joins. -/
def entryWeight (accounts : List Account) (entry : LedgerEntry) : Int :=
  ((accounts.filter fun account => account.id = entry.accountId).map
    (bucketWeight merchantId currency livemode bucket entry)).sum

/-- A group's credits less its debits, as one sum over all rows. -/
theorem creditPositive_filter (accountType : AccountType)
    (selected : LedgerEntry × Account → Bool) (rows : List (LedgerEntry × Account)) :
    LedgerEntryRepository.creditPositive accountType (rows.filter selected) =
      (rows.map fun row =>
        if selected row ∧ row.2.type = accountType then
          if row.1.direction = .credit then row.1.amountMinor else -row.1.amountMinor
        else 0).sum := by
  unfold LedgerEntryRepository.creditPositive
  dsimp only
  induction rows with
  | nil => rfl
  | cons row rows ih =>
      rw [List.map_cons, List.sum_cons, ← ih, List.filter_cons]
      by_cases hselected : selected row = true
      · rw [if_pos hselected, List.filter_cons]
        by_cases htype : row.2.type = accountType
        · cases hdirection : row.1.direction <;>
            simp only [hselected, htype, decide_true, if_true, List.map_cons, List.sum_cons,
              hdirection, reduceCtorEq, if_false, and_self] <;> omega
        · simp [htype]
      · simp [hselected]

/-- The audit's sum, entry by entry. -/
theorem sumBuckets_eq (db : Database) :
    LedgerEntryRepository.sumBuckets merchantId currency livemode none db bucket =
      (db.entries.map
        (entryWeight merchantId currency livemode bucket db.accounts)).sum := by
  have hjoined : (db.entries.map
      (entryWeight merchantId currency livemode bucket db.accounts)).sum =
        ((LedgerEntryRepository.joined db).map fun row =>
          bucketWeight merchantId currency livemode bucket row.1 row.2).sum := by
    unfold LedgerEntryRepository.joined entryWeight
    induction db.entries with
    | nil => rfl
    | cons entry entries ih =>
        rw [List.map_cons, List.sum_cons, ih, List.flatMap_cons, List.map_append,
          List.sum_append, List.map_map]
        rfl
  rw [hjoined]
  unfold LedgerEntryRepository.sumBuckets LedgerEntryRepository.bucketRows
  dsimp only
  rw [creditPositive_filter]
  let sign : Int := if bucket.accountType.normalBalance = some .debit then -1 else 1
  have hrow (row : LedgerEntry × Account) :
      bucketWeight merchantId currency livemode bucket row.1 row.2 =
        sign * (if decide (row.2.merchantId = some merchantId ∧ row.1.currency = currency ∧
            row.1.livemode = livemode ∧ row.2.type.bucket.isSome ∧
            ∀ instant ∈ (none : Option Instant), row.1.createdAt ≤ instant) = true ∧
            row.2.type = bucket.accountType then
          if row.1.direction = .credit then row.1.amountMinor else -row.1.amountMinor
        else 0) := by
    have hbucket : bucket.accountType.bucket.isSome :=
      Option.isSome_iff_exists.mpr ⟨bucket, AccountType.bucket_eq_some_iff.mpr rfl⟩
    unfold bucketWeight
    by_cases hcase : row.2.merchantId = some merchantId ∧ row.1.currency = currency ∧
        row.1.livemode = livemode ∧ row.2.type = bucket.accountType
    · obtain ⟨hmerchant, hcurrency, hlivemode, htype⟩ := hcase
      simp only [hmerchant, hcurrency, hlivemode, htype, hbucket, Option.not_mem_none,
        false_imp_iff, implies_true, and_self, decide_true, if_true]
      cases row.1.direction <;> cases bucket <;>
        simp [sign, Bucket.accountType, AccountType.normalBalance]
    · rw [if_neg hcase, if_neg fun h => hcase ?_, mul_zero]
      obtain ⟨hselected, htype⟩ := h
      simp only [decide_eq_true_eq] at hselected
      exact ⟨hselected.1, hselected.2.1, hselected.2.2.1, htype⟩
  simp only [hrow, List.sum_map_mul_left]
  split
  · next hdebit => simp only [sign, if_pos hdebit, neg_one_mul]
  · next hcredit => simp only [sign, if_neg hcredit, one_mul]

end Sums

/-! ## What a posting adds to each reading -/

/-- What a request moves on a bucket of one merchant's balance. -/
def PostRequest.moves (request : PostRequest) (merchantId currency : String)
    (livemode : Bool) (bucket : Bucket) : Int :=
  if request.merchantId = some merchantId ∧ request.currency = currency ∧
      request.livemode = livemode then
    signedTotal request.lines bucket
  else 0

section Audit

variable {merchantId currency : String} {livemode : Bool} {bucket : Bucket}

/-- An entry joins the one account with its account's identifier. -/
theorem entryWeight_of_account {db : Database} (unique : Schema.Unique (S := schema) db)
    {account : Account} (haccount : account ∈ db.accounts) {entry : LedgerEntry}
    (hid : account.id = entry.accountId) :
    entryWeight merchantId currency livemode bucket db.accounts entry =
      bucketWeight merchantId currency livemode bucket entry account := by
  have hholder : account ∈ Schema.holders (S := schema) Table.account
      (.account entry.accountId) db :=
    Schema.mem_holders.mpr ⟨haccount, by simp [Table.keys, hid]⟩
  have hholders := unique.holders_eq hholder
  have hfilter : (db.accounts.filter fun row => row.id = entry.accountId) = [account] := by
    rw [← hholders]
    refine List.filter_congr fun row _ => ?_
    simp [Table.keys, eq_comm]
  simp [entryWeight, hfilter]

/-- The leg of a line weighs on its bucket what the line moves. -/
theorem bucketWeight_of_leg {request : PostRequest} {transactionId : String} {db : Database}
    {line : PostingLine} {entry : LedgerEntry} (leg : Leg request transactionId db line entry)
    {account : Account} (hident : account.identity = request.accountOf line entry.accountId) :
    bucketWeight merchantId currency livemode bucket entry account =
      if request.merchantId = some merchantId ∧ request.currency = currency ∧
          request.livemode = livemode then
        signedTotal [line] bucket
      else 0 := by
  obtain ⟨-, hmerchant, htype, -, -⟩ := AccountIdentity.mk.inj hident
  unfold bucketWeight
  rw [hmerchant, htype, leg.currency, leg.livemode, leg.direction, leg.amount]
  simp only [signedTotal, List.map_cons, List.map_nil, List.sum_cons, List.sum_nil, add_zero,
    AccountType.bucket_eq_some_iff]
  by_cases hbucket : line.accountType = bucket.accountType
  · have hplatform : bucket.accountType.isPlatform = false :=
      AccountType.isPlatform_of_bucket (AccountType.bucket_eq_some_iff.mpr rfl)
    rw [hbucket, hplatform]
    by_cases hrequest : request.merchantId = some merchantId ∧
        request.currency = currency ∧ request.livemode = livemode
    · cases bucket <;> cases line.direction <;>
        simp [hrequest, Bucket.accountType, AccountType.normalBalance]
    · rw [if_neg hrequest, if_neg fun h => hrequest ⟨h.1, h.2.1, h.2.2.1⟩]
  · simp [hbucket]

/-- The entries of a posting weigh on a bucket what its lines move. -/
theorem sum_entryWeight_of_legs (merchantId currency : String) (livemode : Bool)
    (bucket : Bucket) {request : PostRequest} {transactionId : String}
    {db : Database} (unique : Schema.Unique (S := schema) db) {lines : List PostingLine}
    {entries : List LedgerEntry}
    (legs : List.Forall₂ (Leg request transactionId db) lines entries) :
    (entries.map (entryWeight merchantId currency livemode bucket db.accounts)).sum =
      if request.merchantId = some merchantId ∧ request.currency = currency ∧
          request.livemode = livemode then
        signedTotal lines bucket
      else 0 := by
  induction legs with
  | nil => simp [signedTotal]
  | cons leg _ ih =>
      obtain ⟨account, haccount, hident⟩ := leg.account
      have hid : account.id = _ := congrArg AccountIdentity.id hident
      rw [List.map_cons, List.sum_cons, ih, entryWeight_of_account unique haccount hid,
        bucketWeight_of_leg leg hident]
      split <;> simp [signedTotal]

/-- The audit sees a posting as the movement of its lines. -/
theorem Posting.Valid.sumBuckets_eq {posting : Posting} {db : Database}
    (valid : posting.Valid db) (ledger : DoubleEntry db) :
    LedgerEntryRepository.sumBuckets merchantId currency livemode none
        (applyAll posting.writes db) bucket =
      LedgerEntryRepository.sumBuckets merchantId currency livemode none db bucket +
        posting.request.moves merchantId currency livemode bucket := by
  have hnew := sum_entryWeight_of_legs merchantId currency livemode bucket valid.unique
    valid.legs
  have hunique := valid.unique
  rw [PayzenoLedger.sumBuckets_eq, PayzenoLedger.sumBuckets_eq]
  rw [posting.applyAll_writes] at hnew hunique ⊢
  rw [List.map_append, List.sum_append, hnew]
  congr 2
  refine List.map_congr_left fun entry hentry => ?_
  obtain ⟨account, haccount, hid, -⟩ := ledger.placed entry hentry
  have hcreated : (posting.created.filter fun row => row.id = entry.accountId) = [] := by
    refine List.filter_eq_nil_iff.mpr fun row hrow hsame => ?_
    simp only [decide_eq_true_eq] at hsame
    have hrows : Table.rows .account
        { db with
          transactions := db.transactions ++ [posting.header]
          accounts := db.accounts ++ posting.created
          entries := db.entries ++ posting.entries
          balances := posting.move.balances posting.request posting.header.id db.balances
          outbox := db.outbox ++ [posting.event] } = db.accounts ++ posting.created := rfl
    have habsent := hunique.not_mem_of_append Table.account hrows haccount hrow
      (.account row.id) (by simp [Table.keys])
    simp [Table.keys, hid, hsame] at habsent
  simp [entryWeight, List.filter_append, hcreated]

end Audit

section Cache

variable {merchantId currency : String} {livemode : Bool} {bucket : Bucket}

/-- The cache row of one merchant, currency and livemode. -/
def balanceRows (merchantId currency : String) (livemode : Bool)
    (rows : List MerchantBalanceCache) : List MerchantBalanceCache :=
  rows.filter fun row =>
    decide (Key.balance merchantId currency livemode ∈ Table.merchantBalanceCache.keys row)

/-- What a list of cache rows holds for a bucket. -/
def amountIn (merchantId currency : String) (livemode : Bool)
    (rows : List MerchantBalanceCache) (bucket : Bucket) : Int :=
  match (balanceRows merchantId currency livemode rows).head? with
  | none => 0
  | some row => row.amount bucket

theorem addDelta_amount (delta : BalanceDelta) (transactionId : String) (stamp : Instant)
    (row : MerchantBalanceCache) :
    (MerchantBalanceCacheRepository.addDelta delta transactionId stamp row).amount bucket =
      row.amount bucket +
        (MerchantBalanceCacheRepository.fresh row.merchantId row.currency row.livemode delta
          transactionId stamp).amount bucket := by
  cases bucket <;> rfl

theorem firstBalance_amount (request : PostRequest) (transactionId : String)
    (stamp : Instant) :
    (request.firstBalance merchantId transactionId stamp).amount bucket =
      signedTotal request.lines bucket := by
  cases bucket <;> rfl

theorem balanceRows_append (first second : List MerchantBalanceCache) :
    balanceRows merchantId currency livemode (first ++ second) =
      balanceRows merchantId currency livemode first ++
        balanceRows merchantId currency livemode second := by
  simp [balanceRows]

theorem balanceRows_singleton (row : MerchantBalanceCache) :
    balanceRows merchantId currency livemode [row] =
      if row.merchantId = merchantId ∧ row.currency = currency ∧ row.livemode = livemode
      then [row] else [] := by
  unfold balanceRows
  rw [List.filter_cons]
  simp only [Table.keys, List.mem_singleton, Key.balance.injEq, decide_eq_true_eq,
    List.filter_nil]
  exact if_congr ⟨fun h => ⟨h.1.symm, h.2.1.symm, h.2.2.symm⟩,
    fun h => ⟨h.1.symm, h.2.1.symm, h.2.2.symm⟩⟩ rfl rfl

/-- An update that keeps the key of a row keeps it where it is filed. -/
theorem balanceRows_map (change : MerchantBalanceCache → MerchantBalanceCache)
    (hkeys : ∀ row, Table.merchantBalanceCache.keys (change row) =
      Table.merchantBalanceCache.keys row) (rows : List MerchantBalanceCache) :
    balanceRows merchantId currency livemode (rows.map change) =
      (balanceRows merchantId currency livemode rows).map change := by
  unfold balanceRows
  rw [List.filter_map]
  congr 1
  refine List.filter_congr fun row _ => ?_
  simp only [Function.comp_apply, hkeys]

/-- A move with nothing to add adds nothing. -/
theorem moves_of_unchanged {request : PostRequest}
    (h : request.merchantId = none ∨ request.delta = ⟨0, 0, 0, 0⟩) :
    request.moves merchantId currency livemode bucket = 0 := by
  unfold PostRequest.moves
  rcases h with hnone | hzero
  · simp [hnone]
  · obtain ⟨havailable, hpending, hreserved, hdisputed⟩ := BalanceDelta.mk.inj hzero
    have htotal : signedTotal request.lines bucket = 0 := by cases bucket <;> assumption
    simp [htotal]

/-- A merchant's first cache row holds what the lines move. -/
theorem amount_first {request : PostRequest} {merchant transactionId : String}
    {stamp : Instant} {rows : List MerchantBalanceCache}
    (hmerchant : request.merchantId = some merchant)
    (hfree : ∀ row ∈ rows,
      request.balanceKey merchant ∉ Table.merchantBalanceCache.keys row) :
    amountIn merchantId currency livemode
        (rows ++ [request.firstBalance merchant transactionId stamp]) bucket =
      amountIn merchantId currency livemode rows bucket +
        request.moves merchantId currency livemode bucket := by
  unfold amountIn
  by_cases hkey : merchant = merchantId ∧ request.currency = currency ∧
      request.livemode = livemode
  · obtain ⟨rfl, rfl, rfl⟩ := hkey
    have hnone : balanceRows merchant request.currency request.livemode rows = [] :=
      List.filter_eq_nil_iff.mpr fun row hrow h => hfree row hrow (of_decide_eq_true h)
    have hsingle : balanceRows merchant request.currency request.livemode
        [request.firstBalance merchant transactionId stamp] =
          [request.firstBalance merchant transactionId stamp] :=
      (balanceRows_singleton _).trans (if_pos ⟨rfl, rfl, rfl⟩)
    rw [balanceRows_append, hnone, hsingle]
    simp [firstBalance_amount, PostRequest.moves, hmerchant]
  · have hzero : request.moves merchantId currency livemode bucket = 0 :=
      if_neg fun h => hkey ⟨Option.some.inj (hmerchant.symm.trans h.1), h.2⟩
    have hsingle : balanceRows merchantId currency livemode
        [request.firstBalance merchant transactionId stamp] = [] :=
      (balanceRows_singleton _).trans (if_neg hkey)
    rw [balanceRows_append, hsingle, List.append_nil, hzero, add_zero]

/-- The `DO UPDATE` arm adds what the lines move to the merchant's row. -/
theorem amount_added {request : PostRequest} {merchant transactionId : String}
    {stamp : Instant} {rows : List MerchantBalanceCache}
    (hmerchant : request.merchantId = some merchant)
    (hpresent : ∃ row ∈ rows,
      request.balanceKey merchant ∈ Table.merchantBalanceCache.keys row) :
    amountIn merchantId currency livemode
        (BalanceMove.balances request transactionId rows (.added merchant stamp)) bucket =
      amountIn merchantId currency livemode rows bucket +
        request.moves merchantId currency livemode bucket := by
  unfold amountIn BalanceMove.balances
  rw [balanceRows_map _ fun row => by split <;> rfl]
  by_cases hkey : merchant = merchantId ∧ request.currency = currency ∧
      request.livemode = livemode
  · obtain ⟨rfl, rfl, rfl⟩ := hkey
    obtain ⟨present, hpresent, hpresentKey⟩ := hpresent
    have hmem : present ∈ balanceRows merchant request.currency request.livemode rows :=
      List.mem_filter.mpr ⟨hpresent, decide_eq_true hpresentKey⟩
    obtain ⟨row, others, hrows⟩ := List.exists_cons_of_ne_nil (List.ne_nil_of_mem hmem)
    have hrow : row ∈ balanceRows merchant request.currency request.livemode rows :=
      hrows ▸ List.mem_cons_self
    have hrowKey : request.balanceKey merchant ∈ Table.merchantBalanceCache.keys row :=
      of_decide_eq_true (List.mem_filter.mp hrow).2
    rw [hrows, List.map_cons, List.head?_cons, List.head?_cons, if_pos hrowKey]
    simp only [PostRequest.addBalance, addDelta_amount, PostRequest.moves, hmerchant,
      and_self, if_true]
    cases bucket <;> rfl
  · have hzero : request.moves merchantId currency livemode bucket = 0 :=
      if_neg fun h => hkey ⟨Option.some.inj (hmerchant.symm.trans h.1), h.2⟩
    have hkept : (balanceRows merchantId currency livemode rows).map
        (fun row => if request.balanceKey merchant ∈ Table.merchantBalanceCache.keys row then
          request.addBalance transactionId stamp row else row) =
        balanceRows merchantId currency livemode rows := by
      conv_rhs => rw [← List.map_id (balanceRows merchantId currency livemode rows)]
      refine List.map_congr_left fun row hrow => if_neg fun hother => hkey ?_
      have hquery := of_decide_eq_true (List.mem_filter.mp hrow).2
      simp only [Table.keys, List.mem_singleton, Key.balance.injEq,
        PostRequest.balanceKey] at hquery hother
      exact ⟨hother.1.trans hquery.1.symm, hother.2.1.trans hquery.2.1.symm,
        hother.2.2.trans hquery.2.2.symm⟩
    rw [hkept, hzero, add_zero]

/-- The cache moves by what the lines move. -/
theorem Posting.Valid.cachedAmount_eq {posting : Posting} {db : Database}
    (valid : posting.Valid db) :
    cachedAmount merchantId currency livemode (applyAll posting.writes db) bucket =
      cachedAmount merchantId currency livemode db bucket +
        posting.request.moves merchantId currency livemode bucket := by
  have hunique := valid.unique
  have hmove := valid.move
  rw [posting.applyAll_writes] at hunique ⊢
  change amountIn _ _ _ (BalanceMove.balances _ _ _ _) _ = amountIn _ _ _ db.balances _ + _
  cases hcase : posting.move with
  | unchanged =>
      rw [hcase] at hmove
      rw [moves_of_unchanged hmove, add_zero]
      rfl
  | first merchant stamp =>
      rw [hcase] at hmove hunique
      refine amount_first hmove fun row hrow => ?_
      exact hunique.not_mem_of_append Table.merchantBalanceCache rfl hrow
        List.mem_cons_self _ (List.mem_singleton.mpr rfl)
  | added merchant stamp =>
      rw [hcase] at hmove
      exact amount_added hmove.1 hmove.2

/-- Each row keeps `negative_balance_minor` beside the amount it is computed from. -/
theorem Posting.negative_balances {posting : Posting} {db : Database}
    (h : ∀ row ∈ db.balances, row.negativeBalanceMinor = max 0 (-row.availableMinor)) :
    ∀ row ∈ (applyAll posting.writes db : Database).balances,
      row.negativeBalanceMinor = max 0 (-row.availableMinor) := by
  rw [posting.applyAll_writes]
  intro row hrow
  cases hcase : posting.move with
  | unchanged => exact h row (by simpa [hcase, BalanceMove.balances] using hrow)
  | first merchant stamp =>
      simp only [hcase, BalanceMove.balances, List.mem_append, List.mem_singleton] at hrow
      rcases hrow with hold | rfl
      · exact h row hold
      · rfl
  | added merchant stamp =>
      simp only [hcase, BalanceMove.balances, List.mem_map] at hrow
      obtain ⟨old, hold, rfl⟩ := hrow
      split
      · rfl
      · exact h old hold

end Cache

/-! ## The cache in every reachable ledger -/

/-- Double entry with a faithful cache: what ledger calls keep. -/
structure FaithfulLedger (db : Database) : Prop where
  doubleEntry : DoubleEntry db
  cache : FaithfulCache db

theorem Posting.Valid.faithfulLedger {posting : Posting} {db : Database}
    (valid : posting.Valid db) (ledger : FaithfulLedger db) :
    FaithfulLedger (applyAll posting.writes db) where
  doubleEntry := valid.doubleEntry ledger.doubleEntry
  cache :=
    { amounts merchantId currency livemode bucket := by
        rw [valid.cachedAmount_eq, valid.sumBuckets_eq ledger.doubleEntry,
          ledger.cache.amounts]
      negative := Posting.negative_balances ledger.cache.negative }

theorem faithfulLedger_ledgerInvariant : LedgerInvariant FaithfulLedger where
  post _ _ valid ledger := valid.faithfulLedger ledger
  link _ transactionId originalId ledger :=
    ⟨ledger.doubleEntry.link transactionId originalId, ledger.cache.amounts,
      ledger.cache.negative⟩

/-- Whatever transactions of ledger calls are interleaved and in whatever order
they commit, the cache of every merchant, currency and livemode holds what the
audit sums from the entries. -/
theorem faithfulCache_of_ledger_calls {db : Database} {world : World}
    (unique : Schema.Unique (S := schema) db) (ledger : DoubleEntry db)
    (cache : FaithfulCache db) (transactions : List (List LedgerCall))
    {config : Config system (Except Exception (List PostResult))}
    (hrun : Config.Run anyMove (Config.start db world (ledgerWorkers transactions)) config) :
    (∀ merchantId currency livemode bucket,
      cachedAmount merchantId currency livemode config.shared.committed bucket =
        LedgerEntryRepository.sumBuckets merchantId currency livemode none
          config.shared.committed bucket) ∧
      ∀ row ∈ (config.shared.committed : Database).balances,
        row.negativeBalanceMinor = max 0 (-row.availableMinor) := by
  obtain ⟨sound, -⟩ :=
    ledger_run faithfulLedger_ledgerInvariant unique ⟨ledger, cache⟩ transactions hrun
  exact ⟨sound.good.2.cache.amounts, sound.good.2.cache.negative⟩

/-- A second posting on the merchant of `samplePosting`, to its reserve. -/
def sampleReserve : PostRequest :=
  { samplePosting with
    idempotencyKey := "reserve:mer_1:rh_1"
    purpose := .adjustment
    lines := [debit .merchantPayable 200, credit .reserve 200] }

/-- The first worker begins to post, the second posts and commits, and then the
first goes on. -/
def interleavedSchedule : List (Action system) :=
  advances 0 [.plain, .id "1", .instant 3] ++
  advances 1 [.plain, .id "2", .instant 3, .plain, .plain, .plain, .id "3", .plain,
    .id "3", .instant 3, .plain, .id "4", .plain, .id "4", .instant 3, .plain, .plain,
    .plain, .plain, .id "2", .plain, .plain] ++
  advances 0 [.plain, .plain, .plain, .id "1", .plain, .id "1", .instant 3, .plain,
    .id "2", .instant 3, .plain, .plain, .plain, .plain, .plain, .id "1", .plain, .plain]

theorem faithfulCache_of_ledger_calls_interleaved :
    ∃ config : Config system (Except Exception (List PostResult)),
      Config.Run anyMove
        (Config.start ({} : Database) ({ clock := 10 } : World)
          (ledgerWorkers [[.post samplePosting], [.post sampleReserve]])) config ∧
      cachedAmount "mer_1" "EUR" true config.shared.committed .merchantPayable = 300 ∧
      LedgerEntryRepository.sumBuckets "mer_1" "EUR" true none config.shared.committed
        .merchantPayable = 300 := by
  have hschedule : ((Config.start (Y := system) ({} : Database) ({ clock := 10 } : World)
      (ledgerWorkers [[.post samplePosting], [.post sampleReserve]])).schedule anyMove
        interleavedSchedule).map (fun config => cachedAmount "mer_1" "EUR" true
          config.shared.committed .merchantPayable) = some 300 := by
    decide +kernel
  obtain ⟨config, hconfig, hcached⟩ := Option.map_eq_some_iff.mp hschedule
  have hrun := Config.run_of_schedule hconfig
  refine ⟨config, hrun, hcached, ?_⟩
  rw [← (faithfulCache_of_ledger_calls unique_empty
    ⟨by simp, by simp, by simp, by simp, by simp⟩
    ⟨fun _ _ _ bucket => by cases bucket <;> rfl, by simp⟩ _ hrun).1]
  exact hcached

end PayzenoLedger
