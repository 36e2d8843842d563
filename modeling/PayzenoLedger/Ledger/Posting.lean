import PayzenoLedger.Coroutines
import PayzenoLedger.Services.Transactions
import Mathlib.Data.List.Forall2

/-!
# What one posting writes

`Posting` is everything that a call of `LedgerPoster.post` adds to its caller's
transaction, and `Posting.Valid` what holds of it on any database on which the
transaction may still commit.  `LedgerPoster.wpr_post` is the one rule by which
callers reason about a posting.
-/

set_option autoImplicit false

namespace PayzenoLedger

open Library Write

/-! ## Rows that survive -/

/-- Some account has these immutable columns. -/
def HasAccount (identity : AccountIdentity) (db : Database) : Prop :=
  ∃ account ∈ db.accounts, account.identity = identity

theorem HasAccount.applyAll {identity : AccountIdentity} {db : Database}
    (has : HasAccount identity db) (writes : List (Write schema)) :
    HasAccount identity (applyAll writes db) := by
  obtain ⟨account, haccount, rfl⟩ := has
  exact (applyAll_extends writes db).survives Table.account haccount

/-- The lines of a transaction, read back from its entries. -/
def linesOf (transactionId : String) (db : Database) : List PostingLine :=
  ((LedgerEntryRepository.joined db).filter fun row =>
    row.1.transactionId = transactionId).map fun row =>
      { accountType := row.2.type, direction := row.1.direction, amountMinor := row.1.amountMinor }

/-! ## The writes of a posting -/

/-- The account on which a line of a request is entered. -/
def PostRequest.accountOf (request : PostRequest) (line : PostingLine) (accountId : String) :
    AccountIdentity where
  id := accountId
  merchantId := if line.accountType.isPlatform then none else request.merchantId
  type := line.accountType
  currency := request.currency
  livemode := request.livemode

/-- How a posting touches the balance cache. -/
inductive BalanceMove where
  | unchanged
  | first (merchantId : String) (stamp : Instant)
  | added (merchantId : String) (stamp : Instant)

namespace PostRequest

variable (request : PostRequest)

def delta : BalanceDelta := BalanceDelta.ofLines request.lines

/-- The cache row that the first posting of a merchant inserts. -/
def firstBalance (merchantId transactionId : String) (stamp : Instant) :
    MerchantBalanceCache :=
  MerchantBalanceCacheRepository.fresh merchantId request.currency request.livemode
    request.delta transactionId stamp

def addBalance (transactionId : String) (stamp : Instant) :
    MerchantBalanceCache → MerchantBalanceCache :=
  MerchantBalanceCacheRepository.addDelta request.delta transactionId stamp

def balanceKey (merchantId : String) : Key :=
  .balance merchantId request.currency request.livemode

end PostRequest

namespace BalanceMove

variable (request : PostRequest) (transactionId : String)

def writes : BalanceMove → List (Write schema)
  | .unchanged => []
  | .first merchantId stamp =>
      [.insert Table.merchantBalanceCache
        (request.firstBalance merchantId transactionId stamp)]
  | .added merchantId stamp =>
      [.update Table.merchantBalanceCache (request.balanceKey merchantId)
        (request.addBalance transactionId stamp) fun _ => rfl]

/-- The cache after the move. -/
def balances (rows : List MerchantBalanceCache) : BalanceMove → List MerchantBalanceCache
  | .unchanged => rows
  | .first merchantId stamp => rows ++ [request.firstBalance merchantId transactionId stamp]
  | .added merchantId stamp =>
      rows.map fun row =>
        if request.balanceKey merchantId ∈ Table.merchantBalanceCache.keys row then
          request.addBalance transactionId stamp row
        else row

theorem applyAll_writes (move : BalanceMove) (db : Database) :
    applyAll (move.writes request transactionId) db =
      { db with balances := move.balances request transactionId db.balances } := by
  cases move <;> rfl

/-- The move is the one that the request asks for on these cache rows. -/
def Valid (rows : List MerchantBalanceCache) : BalanceMove → Prop
  | .unchanged => request.merchantId = none ∨ request.delta = ⟨0, 0, 0, 0⟩
  | .first merchantId _ => request.merchantId = some merchantId
  | .added merchantId _ =>
      request.merchantId = some merchantId ∧
        ∃ row ∈ rows,
          request.balanceKey merchantId ∈ Table.merchantBalanceCache.keys row

end BalanceMove

structure Posting where
  request : PostRequest
  header : LedgerTransaction
  created : List Account
  entries : List LedgerEntry
  move : BalanceMove
  event : EventOutbox

namespace Posting

variable (posting : Posting)

/-- What is written before the balance moves. -/
def bookWrites : List (Write schema) :=
  inserts .ledgerTransaction [posting.header] ++ inserts .account posting.created ++
    inserts .ledgerEntry posting.entries

def writes : List (Write schema) :=
  posting.bookWrites ++ posting.move.writes posting.request posting.header.id ++
    inserts .eventOutbox [posting.event]

/-- The database after a posting. -/
theorem applyAll_writes (db : Database) :
    applyAll posting.writes db =
      { db with
        transactions := db.transactions ++ [posting.header]
        accounts := db.accounts ++ posting.created
        entries := db.entries ++ posting.entries
        balances := posting.move.balances posting.request posting.header.id db.balances
        outbox := db.outbox ++ [posting.event] } := by
  simp only [writes, bookWrites, applyAll_append, applyAll_inserts,
    BalanceMove.applyAll_writes]
  rfl

theorem balances_bookWrites (db : Database) :
    (applyAll posting.bookWrites db : Database).balances = db.balances := by
  simp only [bookWrites, applyAll_append, applyAll_inserts]
  rfl

end Posting

/-- An entry made from a line of a request, on an account of that line. -/
structure Leg (request : PostRequest) (transactionId : String) (db : Database)
    (line : PostingLine) (entry : LedgerEntry) : Prop where
  transactionId : entry.transactionId = transactionId
  direction : entry.direction = line.direction
  amount : entry.amountMinor = line.amountMinor
  currency : entry.currency = request.currency
  livemode : entry.livemode = request.livemode
  account : HasAccount (request.accountOf line entry.accountId) db

/-- What holds of a posting on a database on which it may be committed. -/
structure Posting.Valid (posting : Posting) (db : Database) : Prop where
  balanced : Balanced posting.request.lines
  header : posting.header = LedgerTransactionRepository.header posting.request
    posting.header.id posting.header.postedAt
  legs : List.Forall₂ (Leg posting.request posting.header.id (applyAll posting.writes db))
    posting.request.lines posting.entries
  move : posting.move.Valid posting.request db.balances
  announced : posting.event.type = "ledger.transaction_posted"
  unique : Schema.Unique (S := schema) (applyAll posting.writes db)

theorem Leg.applyAll {request : PostRequest} {transactionId : String} {db : Database}
    {line : PostingLine} {entry : LedgerEntry} (leg : Leg request transactionId db line entry)
    (writes : List (Write schema)) :
    Leg request transactionId (applyAll writes db) line entry :=
  { leg with account := leg.account.applyAll writes }

/-! ## The rules of the poster -/

section Rules

variable {D : Discipline system} {worker : Nat}
  {error : Exception → List (Session system) → Shared system → Prop}
  {top : Session system} {rest : List (Session system)} {shared : Shared system}

/-- A server timestamp was taken at or before now. -/
def Stamped (D : Discipline system) (worker : Nat) (held : Lock system → Prop)
    (instant : Instant) (shared : Shared system) : Prop :=
  ∃ before, D.Rely worker held before shared ∧ instant ≤ before.world.clock

theorem Stamped.progress {instant : Instant} {top' : Session system}
    {shared' : Shared system} {held : Lock system → Prop}
    (stamped : Stamped D worker held instant shared)
    (progress : Progress D worker rest top shared top' shared')
    (sub : ∀ lock, held lock → Held (top :: rest) lock) :
    Stamped D worker held instant shared' := by
  obtain ⟨before, rely, hle⟩ := stamped
  exact ⟨before, rely.trans (progress.rely.mono sub), hle⟩

/-- An account that the session saw is there whenever its writes commit. -/
theorem seen_account {account : Account} {locked : Key → Prop}
    {writes : List (Write schema)}
    (haccount : account ∈ (applyAll writes shared.committed : Database).accounts) :
    Seen locked writes shared (HasAccount account.identity) :=
  Seen.identity (Y := system) Table.account haccount

theorem OutboxPublisher.wpr_stage {id type : String} {payload : List (String × Json)}
    {merchantId : Option String} {correlationId : String} {livemode : Bool}
    {ok : Unit → List (Session system) → Shared system → Prop}
    (hdone : ∀ shared' event, event.type = type → event.payload = payload →
      Progress D worker rest top shared (top.insert Table.eventOutbox event) shared' →
      ok () (top.insert Table.eventOutbox event :: rest) shared')
    (herror : ∀ shared', Progress D worker rest top shared top shared' →
      (∃ event ∈ (top.view shared'.committed : Database).outbox, event.id = id) →
      error .integrityError (top :: rest) shared') :
    wpr D worker (OutboxPublisher.stage id type payload merchantId correlationId livemode)
      ok error (top :: rest) shared := by
  refine Async.wpr_add (fun shared₂ _ _ progress₂ => hdone shared₂ _ rfl rfl progress₂)
    fun shared₂ progress₂ htaken => herror shared₂ progress₂ ?_
  obtain ⟨key, hkey, hheld⟩ := htaken
  obtain ⟨event, hevent⟩ := List.exists_mem_of_ne_nil _ hheld
  obtain ⟨hrow, hevent⟩ := Schema.mem_holders.mp hevent
  refine ⟨event, hrow, ?_⟩
  simp only [Table.keys, List.mem_singleton] at hkey hevent
  subst hkey
  exact (Key.outbox.inj hevent).symm

theorem OutboxPublisher.wpr_publish {type : String} {payload : List (String × Json)}
    {merchantId : Option String} {correlationId : String} {livemode : Bool}
    {ok : Unit → List (Session system) → Shared system → Prop}
    (hdone : ∀ shared' event, event.type = type → event.payload = payload →
      Progress D worker rest top shared (top.insert Table.eventOutbox event) shared' →
      ok () (top.insert Table.eventOutbox event :: rest) shared')
    (herror : ∀ shared', Progress D worker rest top shared top shared' →
      error .integrityError (top :: rest) shared') :
    wpr D worker (OutboxPublisher.publish type payload merchantId correlationId livemode)
      ok error (top :: rest) shared := by
  unfold OutboxPublisher.publish
  rw [wpr_bind]
  refine Async.wpr_newId fun shared₁ body progress₁ => ?_
  exact OutboxPublisher.wpr_stage
    (fun shared₂ event htype hpayload progress₂ =>
      hdone shared₂ event htype hpayload (progress₁.trans progress₂))
    fun shared₂ progress₂ _ => herror shared₂ (progress₁.trans progress₂)

/-- The account found or created is the one of the natural key. -/
theorem AccountResolver.wpr_getOrCreate {merchantId : Option String} {type : AccountType}
    {currency : String} {livemode : Bool}
    {ok : Account → List (Session system) → Shared system → Prop}
    (hok : ∀ shared' top' account created,
      Progress D worker rest top shared top' shared' →
      top'.writes = top.writes ++ inserts .account created →
      Seen top'.keys top'.writes shared'
        (HasAccount ⟨account.id, merchantId, type, currency, livemode⟩) →
      ok account (top' :: rest) shared')
    (herror : ∀ shared' raised, Progress D worker rest top shared top shared' →
      error raised (top :: rest) shared')
    (start : Progress D worker rest top shared top shared) :
    wpr D worker (AccountResolver.getOrCreate merchantId type currency livemode)
      ok error (top :: rest) shared := by
  have hfound (shared' : Shared system) (account : Account)
      (progress : Progress D worker rest top shared top shared')
      (hmem : account ∈ Schema.holders (S := schema) Table.account
        (.accountNatural merchantId type currency livemode) (top.view shared'.committed)) :
      ok account (top :: rest) shared' := by
    obtain ⟨hrow, hkey⟩ := Schema.mem_holders.mp hmem
    have hident : account.identity =
        ⟨account.id, merchantId, type, currency, livemode⟩ := by
      simp only [Table.keys, List.mem_cons, reduceCtorEq, Key.accountNatural.injEq,
        List.not_mem_nil, or_false, false_or] at hkey
      obtain ⟨rfl, rfl, rfl, rfl⟩ := hkey
      rfl
    refine hok shared' top account [] progress (by simp [inserts]) ?_
    rw [← hident]
    exact seen_account hrow
  unfold AccountResolver.getOrCreate
  cases type.normalBalance with
  | none => exact herror shared _ start
  | some normalBalance =>
      rw [wpr_bind]
      refine Async.wpr_get (fun shared₁ account progress₁ hmem =>
        hfound shared₁ account progress₁ hmem) fun shared₁ progress₁ _ => ?_
      rw [wpr_bind]
      refine Async.wpr_newId fun shared₂ body progress₂ => ?_
      rw [wpr_bind]
      refine Async.wpr_tryInsert (fun shared₃ _ _ progress₃ => ?_)
        fun shared₃ taken progress₃ htaken _ => ?_
      · refine hok shared₃ _ _ [_] (progress₁.trans (progress₂.trans progress₃)) rfl ?_
        refine seen_account ?_
        simp [Session.insert, Write.apply, Table.setRows, Table.rows]
      · have progress := progress₁.trans (progress₂.trans progress₃)
        cases taken with
        | nil => exact absurd rfl htaken
        | cons key keys =>
            rw [wpr_bind]
            exact Async.wpr_get
              (fun shared₄ account progress₄ hmem =>
                hfound shared₄ account (progress.trans progress₄) hmem)
              fun shared₄ progress₄ _ => herror shared₄ _ (progress.trans progress₄)

/-- A claim inserts the header, or finds the transaction that holds the key. -/
theorem LedgerTransactionRepository.wpr_claimIdempotencyKey {request : PostRequest}
    {ok : IdempotencyClaim → List (Session system) → Shared system → Prop}
    (hcreated : ∀ shared' header,
      Progress D worker rest top shared (top.insert Table.ledgerTransaction header) shared' →
      header = LedgerTransactionRepository.header request header.id header.postedAt →
      ok { transactionId := header.id, created := true }
        (top.insert Table.ledgerTransaction header :: rest) shared')
    (htaken : ∀ shared' existing, Progress D worker rest top shared top shared' →
      existing ∈ (top.view shared'.committed : Database).transactions →
      existing.idempotencyKey = request.idempotencyKey →
      ok { transactionId := existing.id, created := false,
           fingerprintMatches :=
             decide (existing.requestFingerprint = request.requestFingerprint) }
        (top :: rest) shared')
    (herror : ∀ shared' raised, Progress D worker rest top shared top shared' →
      error raised (top :: rest) shared') :
    wpr D worker (LedgerTransactionRepository.claimIdempotencyKey request)
      ok error (top :: rest) shared := by
  unfold LedgerTransactionRepository.claimIdempotencyKey
  rw [wpr_bind]
  refine Async.wpr_newId fun shared₁ body progress₁ => ?_
  rw [wpr_bind]
  refine Async.wpr_transactionTime fun shared₂ postedAt progress₂ _ => ?_
  rw [wpr_bind]
  have progress := progress₁.trans progress₂
  refine Async.wpr_tryInsert (fun shared₃ _ _ progress₃ => ?_)
    fun shared₃ taken progress₃ hne _ => ?_
  · exact hcreated shared₃ _ (progress.trans progress₃) rfl
  · have progress := progress.trans progress₃
    rw [if_neg hne]
    split
    · rw [wpr_bind]
      refine Async.wpr_get (fun shared₄ existing progress₄ hmem => ?_)
        fun shared₄ progress₄ _ => herror shared₄ _ (progress.trans progress₄)
      obtain ⟨hrow, hkey⟩ := Schema.mem_holders.mp hmem
      exact htaken shared₄ existing (progress.trans progress₄) hrow
        (by simpa [Table.keys, eq_comm] using hkey)
    · exact herror shared₃ _ progress

/-- The transaction found by its identifier is the one with these columns. -/
theorem LedgerTransactionRepository.wpr_getOrRaise (transaction : LedgerTransaction)
    {ok : LedgerTransaction → List (Session system) → Shared system → Prop}
    (hok : ∀ shared' found, Progress D worker rest top shared top shared' →
      found ∈ (top.view shared'.committed : Database).transactions →
      Table.ledgerTransaction.identity found =
        Table.ledgerTransaction.identity transaction →
      ok found (top :: rest) shared')
    (herror : ∀ shared' raised, Progress D worker rest top shared top shared' →
      error raised (top :: rest) shared')
    (good : D.Good shared)
    (hmem : transaction ∈ (top.view shared.committed : Database).transactions) :
    wpr D worker (LedgerTransactionRepository.getOrRaise transaction.id)
      ok error (top :: rest) shared := by
  refine Async.wpr_getOrRaise (fun shared₁ found progress hfound => ?_)
    fun shared₁ progress _ => herror shared₁ _ progress
  obtain ⟨hrow, hkey⟩ := Schema.mem_holders.mp hfound
  have hid : found.id = transaction.id := by
    simpa [Table.keys, eq_comm] using hkey
  obtain ⟨same, hsame, hident⟩ :=
    Seen.identity (Y := system) Table.ledgerTransaction hmem _ (progress.later good)
  have hsameId : same.id = transaction.id := by
    have hids := congrArg LedgerTransaction.id hident
    exact hids
  have heq : found = same := progress.unique.eq_of_key Table.ledgerTransaction
    (.transaction transaction.id) hrow hsame
    (by simp [Table.keys, hid]) (by simp [Table.keys, hsameId])
  exact hok shared₁ found progress hrow (heq ▸ hident)

/-- Every line gets one entry on its own account, numbered in order. -/
theorem LedgerPoster.wpr_materialiseEntries {transactionId : String} {request : PostRequest}
    {sequence : Nat} {lines : List PostingLine}
    {ok : List LedgerEntry → List (Session system) → Shared system → Prop}
    (hok : ∀ shared' top' entries created,
      Progress D worker rest top shared top' shared' →
      top'.writes = top.writes ++ inserts .account created →
      Seen top'.keys top'.writes shared'
        (fun db => List.Forall₂ (Leg request transactionId db) lines entries) →
      (∀ entry ∈ entries, Stamped D worker (Held (top :: rest)) entry.createdAt shared') →
      ok entries (top' :: rest) shared')
    (herror : ∀ shared' top' raised, Progress D worker rest top shared top' shared' →
      error raised (top' :: rest) shared')
    (start : Progress D worker rest top shared top shared) :
    wpr D worker (LedgerPoster.materialiseEntries transactionId request sequence lines)
      ok error (top :: rest) shared := by
  induction lines generalizing sequence top shared ok with
  | nil =>
      exact hok shared top [] [] start (by simp [inserts])
        (fun _ _ => List.Forall₂.nil) (by simp)
  | cons line lines ih =>
      unfold LedgerPoster.materialiseEntries
      rw [wpr_bind]
      refine AccountResolver.wpr_getOrCreate (fun shared₁ top₁ account created progress₁
        hwrites₁ hseen₁ => ?_) (fun shared₁ raised progress₁ =>
          herror shared₁ top raised progress₁) start
      split
      · exact herror shared₁ top₁ _ progress₁
      rw [wpr_bind]
      refine Async.wpr_newId fun shared₂ body progress₂ => ?_
      rw [wpr_bind]
      refine Async.wpr_transactionTime fun shared₃ createdAt progress₃ hclock => ?_
      have progress₂₃ := progress₂.trans progress₃
      have progress₁₃ := progress₁.trans progress₂₃
      rw [wpr_bind]
      refine ih (fun shared₄ top₄ entries more progress₄ hwrites₄ hseen₄ hstamps => ?_)
        (fun shared₄ top₄ raised progress₄ =>
          herror shared₄ top₄ raised (progress₁₃.trans progress₄))
        progress₁₃.here
      refine hok shared₄ top₄ _ (created ++ more) (progress₁₃.trans progress₄) ?_ ?_ ?_
      · simp [hwrites₄, hwrites₁, inserts]
      · have haccount := hseen₁.progress progress₁.good (progress₂₃.trans progress₄)
          hwrites₄ (fun db h => h.applyAll _)
        exact (haccount.and hseen₄).imp fun db h =>
          List.Forall₂.cons ⟨rfl, rfl, rfl, rfl, rfl, h.1⟩ h.2
      · intro entry hentry
        rcases List.mem_cons.mp hentry with rfl | hlater
        · have hheld (lock : Lock system) (hlock : Held (top :: rest) lock) :
              Held (top₁ :: rest) lock := progress₁.held hlock
          exact Stamped.progress ⟨shared₃, Discipline.Rely.refl _ _ _, hclock⟩ progress₄
            hheld
        · obtain ⟨before, rely, hle⟩ := hstamps entry hlater
          exact ⟨before, rely.mono fun lock hlock => progress₁₃.held hlock, hle⟩

/-- The upsert adds the delta to the merchant's row, or begins one. -/
theorem LedgerPoster.wpr_applyBalanceDelta {request : PostRequest} {transactionId : String}
    {ok : Unit → List (Session system) → Shared system → Prop}
    (hok : ∀ shared' top' move, Progress D worker rest top shared top' shared' →
      top'.writes = top.writes ++ BalanceMove.writes request transactionId move →
      Seen top'.keys top.writes shared'
        (fun db : Database => move.Valid request db.balances) →
      ok () (top' :: rest) shared')
    (herror : ∀ shared' top' raised, Progress D worker rest top shared top' shared' →
      error raised (top' :: rest) shared')
    (start : Progress D worker rest top shared top shared) :
    wpr D worker (LedgerPoster.applyBalanceDelta request transactionId)
      ok error (top :: rest) shared := by
  have hunchanged (h : request.merchantId = none ∨ request.delta = ⟨0, 0, 0, 0⟩) :
      ok () (top :: rest) shared :=
    hok shared top .unchanged start (by simp [BalanceMove.writes]) fun _ _ => h
  unfold LedgerPoster.applyBalanceDelta
  cases hmerchant : request.merchantId with
  | none => exact hunchanged (.inl hmerchant)
  | some merchantId =>
      dsimp only
      split
      · next hzero => exact hunchanged (.inr hzero)
      rw [wpr_bind]
      refine Async.wpr_now fun shared₁ progress₁ => ?_
      unfold MerchantBalanceCacheRepository.applyDelta
      rw [wpr_bind]
      refine Async.wpr_tryInsert (fun shared₂ _ _ progress₂ => ?_)
        fun shared₂ taken progress₂ hne htaken => ?_
      · exact hok shared₂ _ (.first merchantId shared₁.world.clock)
          (progress₁.trans progress₂) rfl fun _ _ => hmerchant
      have progress₁₂ := progress₁.trans progress₂
      obtain ⟨key, keys, rfl⟩ := List.exists_cons_of_ne_nil hne
      have hpresent : Seen top.keys top.writes shared₂ (fun db : Database =>
          ∃ row ∈ db.balances,
            request.balanceKey merchantId ∈ Table.merchantBalanceCache.keys row) := by
        obtain ⟨hkey, hholders⟩ := (htaken key).mp List.mem_cons_self
        obtain ⟨row, hrow⟩ := List.exists_mem_of_ne_nil _ hholders
        obtain ⟨hrow, hrowKey⟩ := Schema.mem_holders.mp hrow
        refine (Seen.identity (Y := system) Table.merchantBalanceCache hrow).imp fun db hdb => ?_
        obtain ⟨row', hrow', hident⟩ := hdb
        refine ⟨row', hrow', ?_⟩
        simp only [Table.identity, Table.keys, List.mem_singleton,
          MerchantBalanceCacheRepository.fresh, Prod.mk.injEq] at hident hkey hrowKey ⊢
        rw [hkey, Key.balance.injEq] at hrowKey
        unfold PostRequest.balanceKey
        rw [Key.balance.injEq]
        obtain ⟨hmerchant', hcurrency, hlivemode⟩ := hident
        exact ⟨hrowKey.1.trans hmerchant'.symm, hrowKey.2.1.trans hcurrency.symm,
          hrowKey.2.2.trans hlivemode.symm⟩
      refine Async.wpr_update (fun shared₃ row progress₃ _ progress₃' => ?_)
        (fun shared₃ progress₃ hnone => ?_) (fun shared₃ row progress₃ _ hclash => ?_)
      · refine hok shared₃ _ (.added merchantId shared₁.world.clock)
          (progress₁₂.trans progress₃') rfl ?_
        exact (hpresent.later (progress₃.later progress₂.good) progress₃'.keys).imp
          fun db hdb => ⟨hmerchant, hdb⟩
      · obtain ⟨row, hrow, hkey⟩ := hpresent _ (progress₃.later progress₂.good)
        exact absurd hkey (Schema.holders_eq_nil_iff.mp hnone row hrow)
      · exact herror shared₃ _ _ (progress₁₂.trans progress₃)

/-- A posting adds a valid `Posting` to its caller's transaction, or returns the
transaction that holds the key and adds nothing, or raises. -/
theorem LedgerPoster.wpr_post {request : PostRequest}
    {ok : PostResult → List (Session system) → Shared system → Prop}
    (hcreated : ∀ shared' top' (posting : Posting),
      Progress D worker rest top shared top' shared' →
      posting.request = request → top'.writes = top.writes ++ posting.writes →
      Seen top'.keys top.writes shared' posting.Valid →
      (∀ entry ∈ posting.entries,
        Stamped D worker (Held (top :: rest)) entry.createdAt shared') →
      ok ⟨posting.header, true⟩ (top' :: rest) shared')
    (hexisting : ∀ shared' existing, Progress D worker rest top shared top shared' →
      request.onConflict = .returnExisting →
      existing ∈ (top.view shared'.committed : Database).transactions →
      existing.idempotencyKey = request.idempotencyKey →
      ok ⟨existing, false⟩ (top :: rest) shared')
    (herror : ∀ shared' top' raised, Progress D worker rest top shared top' shared' →
      error raised (top' :: rest) shared')
    (start : Progress D worker rest top shared top shared) :
    wpr D worker (LedgerPoster.post request) ok error (top :: rest) shared := by
  unfold LedgerPoster.post
  rw [wpr_bind]
  refine Async.wpr_check (fun _ hchecked => ?_) fun raised _ => herror shared top raised start
  have hbalanced : Balanced request.lines := (assertInvariants_ok_iff _).mp hchecked
  rw [wpr_bind]
  refine LedgerTransactionRepository.wpr_claimIdempotencyKey
    (fun shared₁ header progress₁ hheader => ?_)
    (fun shared₁ existing progress₁ hmem hkey => ?_)
    fun shared₁ raised progress₁ => herror shared₁ top raised progress₁
  · rw [if_pos rfl, wpr_bind]
    have hheaderIn (db : Database) : header ∈
        ((top.insert Table.ledgerTransaction header).view db : Database).transactions := by
      simp [Session.insert, Session.view, Write.apply, Table.setRows, Table.rows]
    refine LedgerTransactionRepository.wpr_getOrRaise header
      (fun shared₂ found progress₂ hfound hident => ?_)
      (fun shared₂ raised progress₂ => herror shared₂ _ raised (progress₁.trans progress₂))
      progress₁.good (hheaderIn _)
    have hids := congrArg LedgerTransaction.id hident
    change found.id = header.id at hids
    have heq : found = header := progress₂.unique.eq_of_key
      Table.ledgerTransaction (.transaction header.id) hfound (hheaderIn _)
        (by simp [Table.keys, hids]) (by simp [Table.keys])
    subst heq
    have progress₁₂ := progress₁.trans progress₂
    rw [wpr_bind]
    refine LedgerPoster.wpr_materialiseEntries
      (fun shared₃ top₃ entries created progress₃ hwrites₃ hlegs hstamps => ?_)
      (fun shared₃ top₃ raised progress₃ =>
        herror shared₃ top₃ raised (progress₁₂.trans progress₃)) progress₂.here
    have progress₁₃ := progress₁₂.trans progress₃
    rw [wpr_bind]
    refine Async.wpr_addAll (fun shared₄ top₄ progress₄ hwrites₄ => ?_)
      (fun shared₄ top₄ _ _ _ progress₄ _ _ _ =>
        herror shared₄ top₄ _ (progress₁₃.trans progress₄))
      progress₃.here
    have progress₁₄ := progress₁₃.trans progress₄
    rw [wpr_bind]
    refine LedgerPoster.wpr_applyBalanceDelta
      (fun shared₅ top₅ move progress₅ hwrites₅ hmove => ?_)
      (fun shared₅ top₅ raised progress₅ =>
        herror shared₅ top₅ raised (progress₁₄.trans progress₅)) progress₄.here
    have progress₁₅ := progress₁₄.trans progress₅
    rw [wpr_bind]
    refine OutboxPublisher.wpr_publish (fun shared₆ event htype _ progress₆ => ?_)
      (fun shared₆ progress₆ => herror shared₆ top₅ _ (progress₁₅.trans progress₆))
    have progress := progress₁₅.trans progress₆
    let posting : Posting := ⟨request, found, created, entries, move, event⟩
    have hbook : top₄.writes = top.writes ++ posting.bookWrites := by
      simp [hwrites₄, hwrites₃, Session.insert, Posting.bookWrites, inserts, posting]
    have hwrites : (top₅.insert Table.eventOutbox event).writes =
        top.writes ++ posting.writes := by
      simp [Session.insert, hwrites₅, hbook, Posting.writes, inserts, posting]
    have tail := (progress₄.trans progress₅).trans progress₆
    refine hcreated shared₆ _ posting progress rfl hwrites ?_ fun entry hentry => ?_
    · have hmore : (top₅.insert Table.eventOutbox event).writes = top₃.writes ++
          (inserts .ledgerEntry entries ++ move.writes request found.id ++
            inserts .eventOutbox [event]) := by
        simp [Session.insert, hwrites₅, hwrites₄, inserts]
      have hlegs' := hlegs.progress progress₃.good tail hmore
        fun db h => h.imp fun _ _ leg => leg.applyAll _
      have hunique : Seen (top₅.insert Table.eventOutbox event).keys _ shared₆ _ :=
        Seen.unique progress.foot fun _ h => h
      rw [hwrites] at hlegs' hunique
      rw [hbook] at hmove
      have hmove' : Seen (top₅.insert Table.eventOutbox event).keys top.writes shared₆
          (fun db : Database => move.Valid request db.balances) :=
        (hmove.later (progress₆.later progress₅.good) progress₆.keys).of_append fun db h => by
          rwa [Posting.balances_bookWrites] at h
      refine ((hlegs'.and hunique).of_append fun db h => h).and hmove' |>.imp
        fun db hseen => ?_
      obtain ⟨⟨hlegs, hunique⟩, hmove⟩ := hseen
      exact ⟨hbalanced, hheader, hlegs, hmove, htype, hunique⟩
    · obtain ⟨before, rely, hle⟩ := hstamps entry hentry
      have hstamp : Stamped D worker (Held (top :: rest)) entry.createdAt shared₃ :=
        ⟨before, rely.mono fun lock => progress₁₂.held, hle⟩
      exact hstamp.progress tail fun lock => progress₁₃.held
  · rw [if_neg (by simp), wpr_bind]
    refine LedgerTransactionRepository.wpr_getOrRaise existing
      (fun shared₂ found progress₂ hfound hident => ?_)
      (fun shared₂ raised progress₂ => herror shared₂ _ raised (progress₁.trans progress₂))
      progress₁.good hmem
    have progress := progress₁.trans progress₂
    have hfoundKey : found.idempotencyKey = request.idempotencyKey := by
      have hkeys := congrArg LedgerTransaction.idempotencyKey hident
      exact hkeys.trans hkey
    cases hconflict : request.onConflict with
    | returnExisting => exact hexisting shared₂ found progress hconflict hfound hfoundKey
    | raise => exact herror shared₂ top _ progress

/-! ## Reversals -/

/-- The link that a reversal writes on its own header. -/
def linkWrites (transactionId originalId : String) : List (Write schema) :=
  [.update Table.ledgerTransaction (.transaction transactionId)
    (fun row => { row with reversesTransactionId := some originalId }) fun _ => rfl]

/-- The line undoes the entry: the type of its account, the other side. -/
structure Undoes (db : Database) (entry : LedgerEntry) (line : PostingLine) : Prop where
  direction : line.direction = entry.direction.flip
  amount : line.amountMinor = entry.amountMinor
  account : ∃ identity : AccountIdentity, identity.id = entry.accountId ∧
    identity.type = line.accountType ∧ HasAccount identity db

theorem LedgerPoster.wpr_flipped {entries : List LedgerEntry}
    {ok : List PostingLine → List (Session system) → Shared system → Prop}
    (hok : ∀ shared' lines, Progress D worker rest top shared top shared' →
      Seen top.keys top.writes shared' (fun db => List.Forall₂ (Undoes db) entries lines) →
      ok lines (top :: rest) shared')
    (herror : ∀ shared' raised, Progress D worker rest top shared top shared' →
      error raised (top :: rest) shared')
    (start : Progress D worker rest top shared top shared) :
    wpr D worker (LedgerPoster.flipped entries) ok error (top :: rest) shared := by
  induction entries generalizing shared ok with
  | nil => exact hok shared [] start fun _ _ => .nil
  | cons entry entries ih =>
      unfold LedgerPoster.flipped
      rw [wpr_bind]
      refine Async.wpr_getOrRaise (fun shared₁ account progress₁ haccount => ?_)
        fun shared₁ progress₁ _ => herror shared₁ _ progress₁
      obtain ⟨hrow, hkey⟩ := Schema.mem_holders.mp haccount
      have hid : account.id = entry.accountId := by
        simpa [Table.keys, eq_comm] using hkey
      rw [wpr_bind]
      refine ih (fun shared₂ lines progress₂ hlines =>
          hok shared₂ _ (progress₁.trans progress₂) ?_)
        (fun shared₂ raised progress₂ => herror shared₂ raised (progress₁.trans progress₂))
        progress₁.here
      have haccount : Seen top.keys _ _ _ := seen_account hrow
      have hseen := haccount.later (progress₂.later progress₁.good) fun _ h => h
      exact (hlines.and hseen).imp fun db ⟨hlines, hhas⟩ =>
        .cons ⟨rfl, rfl, account.identity, hid, rfl, hhas⟩ hlines

/-- A reversal adds a valid posting with its timestamps and links it to the original, or
raises. -/
theorem LedgerPoster.wpr_reverseStamped {original : LedgerTransaction} {idempotencyKey : String}
    {createdBy : Actor} {ok : PostResult → List (Session system) → Shared system → Prop}
    (hcreated : ∀ shared₁ shared' top' (posting : Posting) listed,
      Progress D worker rest top shared top shared₁ →
      Progress D worker rest top shared₁ top' shared' →
      List.Perm listed ((top.view shared₁.committed : Database).entries.filter fun entry =>
        entry.transactionId = original.id) →
      Seen top'.keys top.writes shared'
        (fun db => List.Forall₂ (Undoes db) listed posting.request.lines) →
      posting.request =
        reversalRequest original idempotencyKey createdBy posting.request.lines →
      top'.writes = top.writes ++ posting.writes ++
        linkWrites posting.header.id original.id →
      Seen top'.keys top.writes shared' posting.Valid →
      (∀ entry ∈ posting.entries,
        Stamped D worker (Held (top :: rest)) entry.createdAt shared') →
      ok ⟨{ posting.header with reversesTransactionId := some original.id }, true⟩
        (top' :: rest) shared')
    (herror : ∀ shared' top' raised, Progress D worker rest top shared top' shared' →
      error raised (top' :: rest) shared') :
    wpr D worker (LedgerPoster.reverse original idempotencyKey createdBy) ok error
      (top :: rest) shared := by
  unfold LedgerPoster.reverse
  rw [wpr_bind]
  refine wpr_select fun shared₁ progress₁ => ?_
  rw [wpr_bind]
  refine LedgerPoster.wpr_flipped (fun shared₂ lines progress₂ hlines => ?_)
    (fun shared₂ raised progress₂ => herror shared₂ top raised (progress₁.trans progress₂))
    progress₁.here
  have progress₁₂ := progress₁.trans progress₂
  rw [wpr_bind]
  refine LedgerPoster.wpr_post
    (fun shared₃ top₃ posting progress₃ hrequest hwrites hvalid hstamped => ?_)
    (fun shared₃ existing progress₃ hconflict => by simp [reversalRequest] at hconflict)
    (fun shared₃ top₃ raised progress₃ =>
      herror shared₃ top₃ raised (progress₁₂.trans progress₃)) progress₂.here
  have progress₁₃ := progress₁₂.trans progress₃
  have hheader (db : Database) :
      posting.header ∈ (top₃.view db : Database).transactions := by
    simp [Session.view, hwrites, Posting.applyAll_writes]
  rw [wpr_bind]
  refine Async.wpr_update (fun shared₄ row progress₄ _ progress₄' => ?_)
    (fun shared₄ progress₄ hnone => ?_)
    fun shared₄ row progress₄ _ _ => herror shared₄ top₃ _ (progress₁₃.trans progress₄)
  · refine hcreated shared₁ shared₄ _ posting _ progress₁
      ((progress₂.trans progress₃).trans progress₄')
      (List.perm_insertionSort (fun first second => first.sequence ≤ second.sequence) _) ?_
      (by rw [hrequest]; rfl) ?_ ?_ fun entry hentry =>
        (hstamped entry hentry).progress progress₄ fun lock => progress₃.held
    · rw [hrequest]
      exact hlines.later ((progress₃.trans progress₄').later progress₂.good)
        (progress₃.trans progress₄').keys
    · simp [Session.rewrite, hwrites, linkWrites]
    · exact hvalid.later (progress₄.later progress₃.good) progress₄'.keys
  · have hkeys := Schema.holders_eq_nil_iff.mp hnone _ (hheader _)
    simp [Table.keys] at hkeys

/-- A reversal adds a valid posting and links it to the original, or raises. -/
theorem LedgerPoster.wpr_reverse {original : LedgerTransaction} {idempotencyKey : String}
    {createdBy : Actor} {ok : PostResult → List (Session system) → Shared system → Prop}
    (hcreated : ∀ shared₁ shared' top' (posting : Posting) listed,
      Progress D worker rest top shared top shared₁ →
      Progress D worker rest top shared₁ top' shared' →
      List.Perm listed ((top.view shared₁.committed : Database).entries.filter fun entry =>
        entry.transactionId = original.id) →
      Seen top'.keys top.writes shared'
        (fun db => List.Forall₂ (Undoes db) listed posting.request.lines) →
      posting.request =
        reversalRequest original idempotencyKey createdBy posting.request.lines →
      top'.writes = top.writes ++ posting.writes ++
        linkWrites posting.header.id original.id →
      Seen top'.keys top.writes shared' posting.Valid →
      ok ⟨{ posting.header with reversesTransactionId := some original.id }, true⟩
        (top' :: rest) shared')
    (herror : ∀ shared' top' raised, Progress D worker rest top shared top' shared' →
      error raised (top' :: rest) shared') :
    wpr D worker (LedgerPoster.reverse original idempotencyKey createdBy) ok error
      (top :: rest) shared :=
  LedgerPoster.wpr_reverseStamped
    (fun shared₁ shared' top' posting listed progress₁ progress₂ hperm hundoes hrequest hwrites
      hvalid _ => hcreated shared₁ shared' top' posting listed progress₁ progress₂ hperm hundoes
        hrequest hwrites hvalid)
    herror

end Rules

end PayzenoLedger
