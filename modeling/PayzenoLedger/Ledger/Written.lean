import PayzenoLedger.Library.Sequential
import PayzenoLedger.Services.SettlementPoster

/-!
# What postings write

A posting writes the ledger, the balance cache and one event.  The settlement poster
adds events of its own, and no more.
-/

set_option autoImplicit false

namespace PayzenoLedger

open Library Library.Raising

section Async

variable {α : Type} {allowed : Write schema → Prop}

theorem Async.inward_check (checked : Except Exception α) :
    Inward (Y := system) allowed (Async.check checked) := by
  cases checked <;> trivial

theorem Async.inward_getOrRaise (table : Table) (key : Key) (missing : Exception) :
    Inward (Y := system) allowed (Async.getOrRaise table key missing) := by
  refine .bind (.execute trivial) fun found => ?_
  cases found <;> trivial

theorem Async.inward_add {table : Table} {row : table.Row}
    (h : allowed (.insert table row)) : Inward (Y := system) allowed (Async.add table row) := by
  refine .bind (.execute h) fun taken => ?_
  cases taken <;> trivial

theorem Async.inward_addAll {table : Table} {rows : List table.Row}
    (h : ∀ row, allowed (.insert table row)) :
    Inward (Y := system) allowed (Async.addAll table rows) := by
  induction rows with
  | nil => trivial
  | cons row rows ih => exact .bind (Async.inward_add (h row)) fun _ => ih

theorem Async.inward_update {table : Table} {key : Key} {change : table.Row → table.Row}
    {immutable : ∀ row, table.identity (change row) = table.identity row}
    (h : allowed (.update table key change immutable)) :
    Inward (Y := system) allowed (Async.update table key change immutable) := by
  refine .bind (.execute h) fun updated => ?_
  cases updated <;> trivial

end Async

/-- What postings write, and the staging of events of these types. -/
def Books (types : List String) : Write schema → Prop
  | .insert .account _ | .insert .ledgerTransaction _ | .insert .ledgerEntry _
  | .insert .merchantBalanceCache _ | .update .merchantBalanceCache _ _ _ => True
  | .insert .eventOutbox event => event.type ∈ types
  | _ => False

/-- They leave the items alone. -/
theorem Books.sparing {types : List String} {write : Write schema} (books : Books types write) :
    Sparing (Y := system) Table.reconciliationItem write := by
  cases write with
  | insert table row => cases table <;> first | exact books.elim | exact nofun
  | update table key change immutable => cases table <;> first | exact books.elim | exact nofun

section Books

variable {types : List String}

theorem OutboxPublisher.inward_publish {type : String} (htype : type ∈ types)
    (payload : List (String × Json)) (merchantId : Option String) (correlationId : String)
    (livemode : Bool) :
    Inward (Books types) (publish type payload merchantId correlationId livemode) :=
  .bind (.execute trivial) fun _ => @Async.inward_add (Books types) .eventOutbox _ htype

theorem AccountResolver.inward_getOrCreate (merchantId : Option String) (type : AccountType)
    (currency : String) (livemode : Bool) :
    Inward (Books types) (getOrCreate merchantId type currency livemode) := by
  unfold getOrCreate
  cases type.normalBalance with
  | none => trivial
  | some normalBalance =>
      refine .bind (.execute trivial) fun found => ?_
      cases found with
      | some existing => trivial
      | none =>
          refine .bind (.execute trivial) fun id => .bind (.execute trivial) fun taken => ?_
          cases taken with
          | nil => trivial
          | cons key keys =>
              refine .bind (.execute trivial) fun winner => ?_
              cases winner <;> trivial

namespace LedgerPoster

theorem inward_materialiseEntries (transactionId : String) (request : PostRequest)
    (sequence : Nat) (lines : List PostingLine) :
    Inward (Books types) (materialiseEntries transactionId request sequence lines) := by
  induction lines generalizing sequence with
  | nil => trivial
  | cons line lines ih =>
      refine .bind (AccountResolver.inward_getOrCreate _ _ _ _) fun account => ?_
      split
      · trivial
      · refine .bind (.execute trivial) fun id => .bind (.execute trivial) fun createdAt => ?_
        exact .bind (ih (sequence + 1)) fun _ => trivial

theorem inward_applyBalanceDelta (request : PostRequest) (transactionId : String) :
    Inward (Books types) (applyBalanceDelta request transactionId) := by
  unfold applyBalanceDelta
  cases request.merchantId with
  | none => trivial
  | some merchantId =>
      dsimp only
      split
      · trivial
      · refine .bind (.execute trivial) fun stamp => .bind (.execute trivial) fun taken => ?_
        cases taken with
        | nil => trivial
        | cons key keys => exact Async.inward_update trivial

theorem inward_post (htype : "ledger.transaction_posted" ∈ types) (request : PostRequest) :
    Inward (Books types) (post request) := by
  have hclaim : Inward (Books types)
      (LedgerTransactionRepository.claimIdempotencyKey request) := by
    refine .bind (.execute trivial) fun id => .bind (.execute trivial) fun postedAt =>
      .bind (.execute trivial) fun taken => ?_
    split
    · trivial
    · split
      · refine .bind (.execute trivial) fun existing => ?_
        cases existing <;> trivial
      · trivial
  refine .bind (Async.inward_check _) fun _ => .bind hclaim fun claim => ?_
  split
  · refine .bind (Async.inward_getOrRaise _ _ _) fun transaction => ?_
    refine .bind (inward_materialiseEntries _ _ _ _) fun entries => ?_
    refine .bind (Async.inward_addAll fun _ => trivial) fun _ => ?_
    refine .bind (inward_applyBalanceDelta _ _) fun _ => ?_
    exact .bind (OutboxPublisher.inward_publish htype _ _ _ _) fun _ => trivial
  · refine .bind (Async.inward_getOrRaise _ _ _) fun existing => ?_
    cases request.onConflict <;> trivial

end LedgerPoster

namespace SettlementPoster

theorem inward_answered {α : Type} (item : ReconciliationItem) (reply : Except Exception α) :
    Inward (Books types) (answered item reply) := by
  cases reply with
  | ok value => trivial
  | error raised =>
      obtain ⟨thrown, hthrown⟩ := answered_error (α := α) item raised
      rw [hthrown]
      trivial

theorem inward_publishItemEvent {type : String} (htype : type ∈ types) (stampName : String)
    (item : ReconciliationItem) (payload : List (String × Json)) :
    Inward (Books types) (publishItemEvent type stampName item payload) :=
  .bind (.execute trivial) fun _ => OutboxPublisher.inward_publish htype _ _ _ _

theorem confined_publishDuplicate (htype : "settlement.duplicate_detected" ∈ types)
    (settings : Settings) (item : ReconciliationItem) (key : String)
    (existing : LedgerTransaction) (caller : Caller) :
    Confined (Books types) (publishDuplicate settings item key existing caller) := by
  refine .bind (inward_publishItemEvent htype _ _ _).confined fun _ => ?_
  split
  · exact .bind (.call _) fun counted => (Async.inward_check counted).confined
  · trivial

theorem confined_afterClaim (hsettled : "settlement.item_settled" ∈ types)
    (hduplicate : "settlement.duplicate_detected" ∈ types) (settings : Settings)
    (item : ReconciliationItem) (charge : SettlementCharge) (chargeId key : String)
    (caller : Caller) (posted : PostResult) :
    Confined (Books types) (afterClaim settings item charge chargeId key caller posted) := by
  unfold afterClaim
  split
  · have hpublish : Inward (Books types) (do
        publishSettled item posted.transaction.id
        pure ({ transactionId := posted.transaction.id, created := true } : SettlementResult) :
        Async SettlementResult) :=
      .bind (inward_publishItemEvent hsettled _ _ _) fun _ => trivial
    split
    · refine .bind (.bind (Async.inward_check _).confined fun _ => .bind (.call _) fun reply =>
        .bind (inward_answered item reply).confined fun _ => trivial) fun _ => hpublish.confined
    · exact hpublish.confined
  · exact .bind (confined_publishDuplicate hduplicate _ _ _ _ _) fun _ => trivial

/-- The events of the poster. -/
def eventTypes : List String :=
  ["ledger.transaction_posted", "settlement.item_settled", "settlement.duplicate_detected"]

/-- What follows a line within the tolerance. -/
theorem confined_settle (settings : Settings) (item : ReconciliationItem)
    (charge : SettlementCharge) (chargeId key : String) (caller : Caller)
    (htypes : eventTypes ⊆ types) :
    Confined (Books types) (do
      let lines ← Async.check (settleLines item)
      let posted ← LedgerPoster.post (settleRequest settings item key lines)
      afterClaim settings item charge chargeId key caller posted : Async SettlementResult) :=
  .bind (Async.inward_check _).confined fun _ =>
    .bind (LedgerPoster.inward_post (htypes (by simp [eventTypes])) _).confined fun _ =>
      confined_afterClaim (htypes (by simp [eventTypes])) (htypes (by simp [eventTypes]))
        _ _ _ _ _ _ _

theorem inward_merchant (id : Option String) :
    Inward (Books types) (MerchantProjectionRepository.getOrRaise id) := by
  unfold MerchantProjectionRepository.getOrRaise
  cases id with
  | none => trivial
  | some id => exact Async.inward_getOrRaise _ _ _

theorem confined_confirm (item : ReconciliationItem) :
    Confined (Books types) (confirm item) :=
  .bind (.call _) fun reply => (inward_answered item reply).confined

theorem confined_postSettlement (settings : Settings) (item : ReconciliationItem)
    (caller : Caller) :
    Confined (Books ("settlement.variance_detected" :: eventTypes))
      (postSettlement settings item caller) := by
  refine .bind (.mark _) fun _ => .bind (confined_confirm item) fun _ => ?_
  cases item.chargeId with
  | none => trivial
  | some chargeId =>
      refine .bind (Async.inward_check _).confined fun key =>
        .bind (Async.inward_getOrRaise _ _ _).confined fun charge =>
          .bind (inward_merchant _).confined fun merchant => ?_
      split
      · exact .bind (inward_publishItemEvent (by simp) _ _ _).confined fun _ => trivial
      · exact confined_settle settings item charge chargeId key caller
          (List.subset_cons_self _ _)

end SettlementPoster

end Books

end PayzenoLedger
