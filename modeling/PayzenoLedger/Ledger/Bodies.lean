import PayzenoLedger.Coroutines
import PayzenoLedger.Library.Histories
import PayzenoLedger.Services.Transactions

/-!
# Bodies of a transaction

The helpers of a coroutine and the posting of a ledger transaction open no session of
their own and call nobody: whatever they do is done within the transaction of the caller.
-/

set_option autoImplicit false

namespace PayzenoLedger

open Library Library.Raising

namespace Async

variable {α : Type}

theorem stays_check (checked : Except Exception α) : Stays (check checked) := by
  cases checked <;> trivial

theorem stays_newId (idPrefix : String) : Stays (newId idPrefix) :=
  .execute _

theorem stays_now : Stays now :=
  .execute _

theorem stays_get (table : Table) (key : Key) : Stays (get table key) :=
  .execute _

theorem stays_getOrRaise (table : Table) (key : Key) (missing : Exception) :
    Stays (getOrRaise table key missing) := by
  refine .bind (stays_get table key) fun found => ?_
  cases found <;> trivial

theorem stays_add (table : Table) (row : table.Row) : Stays (add table row) := by
  refine .bind (.execute _) fun taken => ?_
  cases taken <;> trivial

theorem stays_addAll (table : Table) (rows : List table.Row) : Stays (addAll table rows) := by
  induction rows with
  | nil => trivial
  | cons row rows ih => exact .bind (stays_add table row) fun _ => ih

theorem stays_update (table : Table) (key : Key) (change : table.Row → table.Row)
    (immutable : ∀ row, table.identity (change row) = table.identity row) :
    Stays (update table key change immutable) := by
  refine .bind (.execute _) fun updated => ?_
  cases updated <;> trivial

/-! ## Rows that are there -/

/-- A row is under the key, and whatever is written to it leaves it there. -/
def Kept (table : Table) (key : Key) (shared : Shared system) : Prop :=
  ∃ row ∈ table.rows shared.committed,
    ∀ row', table.identity row' = table.identity row → key ∈ table.keys row'

theorem Kept.since {table : Table} {key : Key} {past shared : Shared system}
    (kept : Kept table key past) (since : Since past shared) : Kept table key shared := by
  obtain ⟨row, hrow, hkey⟩ := kept
  obtain ⟨row', hrow', hsame⟩ := since.grows.survives table hrow
  exact ⟨row', hrow', fun other hother => hkey other (hother.trans hsame)⟩

/-- A row that a transaction inserted is there when it has committed. -/
theorem Kept.of_insert {table : Table} {row : table.Row} {key : Key} {worker : Nat}
    {shared : Shared system} {top : Session system}
    (hkey : ∀ row', table.identity row' = table.identity row → key ∈ table.keys row')
    (hwrites : top.writes = inserts table [row]) : Kept table key (shared.commit worker top) := by
  refine ⟨row, ?_, hkey⟩
  have hcommitted : (shared.commit worker top).committed =
      table.setRows (table.rows shared.committed ++ [row]) shared.committed := by
    rw [← applyAll_inserts table [row], ← hwrites]
    rfl
  have hrows : table.rows (table.setRows (table.rows shared.committed ++ [row]) shared.committed) =
      table.rows shared.committed ++ [row] :=
    schema.rows_setRows_self table _ shared.committed
  rw [hcommitted, hrows]
  exact List.mem_append_right _ (List.mem_singleton_self row)

section Kept

variable {D : Discipline system} {worker : Nat} {shared : Shared system} {top : Session system}
  {rest : List (Session system)} {table : Table} {key : Key}
  {error : Exception → List (Session system) → Shared system → Prop}

/-- A row that is there is found. -/
theorem wpr_kept {missing : Exception}
    {ok : table.Row → List (Session system) → Shared system → Prop}
    (kept : Kept table key shared)
    (h : ∀ shared' row, Progress D worker rest top shared top shared' →
      ok row (top :: rest) shared') :
    wpr D worker (getOrRaise table key missing) ok error (top :: rest) shared := by
  refine wpr_getOrRaise (fun shared' row progress _ => h shared' row progress)
    fun shared' progress hnone => ?_
  obtain ⟨row, hrow, hkey⟩ := kept.since (Since.of_rely progress.rely)
  obtain ⟨row', hrow', hsame⟩ :=
    (Write.applyAll_extends top.writes shared'.committed).survives table hrow
  exact absurd (hkey row' hsame) (Schema.holders_eq_nil_iff.mp hnone row' hrow')

/-- An update that leaves the keys of a row as they are goes through. -/
theorem wpr_rekeyed {change : table.Row → table.Row}
    {immutable : ∀ row, table.identity (change row) = table.identity row}
    {ok : Unit → List (Session system) → Shared system → Prop}
    (hkeys : ∀ row, table.keys (change row) = table.keys row)
    (h : ∀ shared' top', Progress D worker rest top shared top' shared' →
      ok () (top' :: rest) shared') :
    wpr D worker (update table key change immutable) ok error (top :: rest) shared := by
  refine wpr_update (fun shared' row _ _ progress => h shared' _ progress)
    (fun shared' progress _ => h shared' top progress) fun shared' row _ _ hclash => ?_
  obtain ⟨other, hother, hnot, -⟩ := hclash
  rw [hkeys] at hother
  exact absurd hother hnot

end Kept

end Async

theorem OutboxPublisher.stays_publish (type : String) (payload : List (String × Json))
    (merchantId : Option String) (correlationId : String) (livemode : Bool) :
    Stays (publish type payload merchantId correlationId livemode) :=
  .bind (Async.stays_newId "evt") fun _ => Async.stays_add _ _

theorem AccountResolver.stays_getOrCreate (merchantId : Option String) (type : AccountType)
    (currency : String) (livemode : Bool) :
    Stays (getOrCreate merchantId type currency livemode) := by
  unfold getOrCreate
  cases type.normalBalance with
  | none => trivial
  | some normalBalance =>
      refine .bind (Async.stays_get _ _) fun found => ?_
      cases found with
      | some existing => trivial
      | none =>
          refine .bind (Async.stays_newId "acct") fun id => .bind (.execute _) fun taken => ?_
          cases taken with
          | nil => trivial
          | cons key keys =>
              refine .bind (Async.stays_get _ _) fun winner => ?_
              cases winner <;> trivial

namespace LedgerPoster

theorem stays_claim (request : PostRequest) :
    Stays (LedgerTransactionRepository.claimIdempotencyKey request) := by
  refine .bind (Async.stays_newId "txn") fun id => .bind (.execute _) fun postedAt =>
    .bind (.execute _) fun taken => ?_
  split
  · trivial
  · split
    · refine .bind (Async.stays_get _ _) fun existing => ?_
      cases existing <;> trivial
    · trivial

theorem stays_materialiseEntries (transactionId : String) (request : PostRequest)
    (lines : List PostingLine) (sequence : Nat) :
    Stays (materialiseEntries transactionId request sequence lines) := by
  induction lines generalizing sequence with
  | nil => trivial
  | cons line lines ih =>
      refine .bind (AccountResolver.stays_getOrCreate _ _ _ _) fun account => ?_
      dsimp only
      split
      · trivial
      · refine .bind (Async.stays_newId "le") fun id => .bind (.execute _) fun createdAt => ?_
        exact .bind (ih (sequence + 1)) fun _ => .pure _

theorem stays_applyBalanceDelta (request : PostRequest) (transactionId : String) :
    Stays (applyBalanceDelta request transactionId) := by
  unfold applyBalanceDelta
  cases request.merchantId with
  | none => trivial
  | some merchantId =>
      dsimp only
      split
      · trivial
      · refine .bind Async.stays_now fun stamp => .bind (.execute _) fun taken => ?_
        cases taken with
        | nil => trivial
        | cons key keys => exact Async.stays_update _ _ _ _

theorem stays_post (request : PostRequest) : Stays (post request) := by
  refine .bind (Async.stays_check _) fun _ => .bind (stays_claim request) fun claim => ?_
  split
  · refine .bind (Async.stays_getOrRaise _ _ _) fun transaction => ?_
    refine .bind (stays_materialiseEntries _ _ _ _) fun entries => ?_
    refine .bind (Async.stays_addAll _ _) fun _ => ?_
    refine .bind (stays_applyBalanceDelta _ _) fun _ => ?_
    exact .bind (OutboxPublisher.stays_publish _ _ _ _ _) fun _ => .pure _
  · refine .bind (Async.stays_getOrRaise _ _ _) fun existing => ?_
    cases request.onConflict <;> trivial

end LedgerPoster

end PayzenoLedger
