import PayzenoLedger.Consumers.Payments
import PayzenoLedger.Domain.Movements
import PayzenoLedger.Library.Relational

/-!
# Postings under their keys

The postings about one object of the ledger, each under a key of its own.  A posting
whose key is free is appended; one whose key is taken leaves the list as it is.
-/

set_option autoImplicit false

namespace PayzenoLedger

open Library

/-- Debits less credits on the accounts of one type, over all the postings. -/
def postedMovement (accountType : AccountType) (postings : List PostRequest) : Int :=
  (postings.map fun posted => netMovement accountType posted.lines).sum

@[simp]
theorem postedMovement_nil (accountType : AccountType) : postedMovement accountType [] = 0 :=
  rfl

@[simp]
theorem postedMovement_append (accountType : AccountType) (postings more : List PostRequest) :
    postedMovement accountType (postings ++ more) =
      postedMovement accountType postings + postedMovement accountType more := by
  simp [postedMovement]

@[simp]
theorem postedMovement_singleton (accountType : AccountType) (request : PostRequest) :
    postedMovement accountType [request] = netMovement accountType request.lines := by
  simp [postedMovement]

/-- A posting of the purpose is among them. -/
def Posted (postings : List PostRequest) (purpose : Purpose) : Prop :=
  ∃ posted ∈ postings, posted.purpose = purpose

instance (postings : List PostRequest) (purpose : Purpose) :
    Decidable (Posted postings purpose) :=
  inferInstanceAs (Decidable (∃ posted ∈ postings, posted.purpose = purpose))

theorem posted_append {postings more : List PostRequest} {purpose : Purpose} :
    Posted (postings ++ more) purpose ↔ Posted postings purpose ∨ Posted more purpose := by
  unfold Posted
  constructor
  · rintro ⟨posted, hposted, hpurpose⟩
    rcases List.mem_append.mp hposted with hold | hnew
    · exact .inl ⟨posted, hold, hpurpose⟩
    · exact .inr ⟨posted, hnew, hpurpose⟩
  · rintro (⟨posted, hposted, hpurpose⟩ | ⟨posted, hposted, hpurpose⟩)
    · exact ⟨posted, List.mem_append_left _ hposted, hpurpose⟩
    · exact ⟨posted, List.mem_append_right _ hposted, hpurpose⟩

@[simp]
theorem posted_singleton {request : PostRequest} {purpose : Purpose} :
    Posted [request] purpose ↔ request.purpose = purpose := by
  simp [Posted]

/-- A posting appends itself unless its key is taken. -/
inductive AppendsPosting (request : PostRequest) (postings : List PostRequest) :
    List PostRequest → Prop where
  | taken (h : ∃ posted ∈ postings, posted.idempotencyKey = request.idempotencyKey) :
      AppendsPosting request postings postings
  | free (h : ∀ posted ∈ postings, posted.idempotencyKey ≠ request.idempotencyKey) :
      AppendsPosting request postings (postings ++ [request])

theorem ChargeState.post_ok {state next : ChargeState} {request : PostRequest}
    (h : state.post request = .ok next) :
    next.charge = state.charge ∧ next.processed = state.processed ∧
      AppendsPosting request state.postings next.postings := by
  unfold post at h
  cases hlines : assertInvariants request.lines with
  | error raised =>
      rw [hlines] at h
      cases h
  | ok _ =>
      rw [hlines] at h
      change (if _ then _ else _) = _ at h
      split at h
      · next hany =>
          cases h
          obtain ⟨posted, hposted, hsame⟩ := List.any_eq_true.mp hany
          exact ⟨rfl, rfl, .taken ⟨posted, hposted, of_decide_eq_true hsame⟩⟩
      · next hany =>
          cases h
          refine ⟨rfl, rfl, .free fun posted hposted hsame => ?_⟩
          exact hany (List.any_eq_true.mpr ⟨posted, hposted, decide_eq_true hsame⟩)

/-! ## Postings of several kinds -/

section Kinds

variable {κ : Type} {keyOf : κ → Except Exception String}
  {Moves : κ → List PostingLine → Prop} {kinds : List κ}
  {postings postings' : List PostRequest}

/-- No two kinds are posted under one key. -/
def DistinctKeys (keyOf : κ → Except Exception String) : Prop :=
  ∀ kind kind' key, keyOf kind = .ok key → keyOf kind' = .ok key → kind = kind'

/-- The postings are one of each of these kinds, each under the key of its kind and with
what its kind moves. -/
structure PostedKinds (keyOf : κ → Except Exception String)
    (Moves : κ → List PostingLine → Prop) (kinds : List κ) (postings : List PostRequest) :
    Prop where
  each : List.Forall₂ (fun kind posted =>
    keyOf kind = .ok posted.idempotencyKey ∧ Moves kind posted.lines) kinds postings
  nodup : kinds.Nodup

theorem postedKinds_nil : PostedKinds keyOf Moves [] [] where
  each := .nil
  nodup := List.nodup_nil

/-- A posting of a kind is made once. -/
theorem PostedKinds.appends (posted : PostedKinds keyOf Moves kinds postings)
    (distinct : DistinctKeys keyOf) {kind : κ} {request : PostRequest}
    (hkey : keyOf kind = .ok request.idempotencyKey) (hmoves : Moves kind request.lines)
    (happends : AppendsPosting request postings postings') :
    ∃ kinds', PostedKinds keyOf Moves kinds' postings' ∧
      ∀ other, other ∈ kinds' ↔ other ∈ kinds ∨ other = kind := by
  cases happends with
  | taken htaken =>
      obtain ⟨taken, htaken, hsame⟩ := htaken
      obtain ⟨kind', hkind', hkey', -⟩ := exists_left_of_forall₂ posted.each htaken
      rw [hsame] at hkey'
      obtain rfl := distinct _ _ _ hkey' hkey
      refine ⟨kinds, posted, fun other => ?_⟩
      constructor
      · exact .inl
      · rintro (h | rfl)
        · exact h
        · exact hkind'
  | free hfree =>
      refine ⟨kinds ++ [kind], ⟨?_, ?_⟩, fun other => ?_⟩
      · exact List.rel_append posted.each (.cons ⟨hkey, hmoves⟩ .nil)
      · rw [List.nodup_append]
        refine ⟨posted.nodup, List.nodup_singleton _, ?_⟩
        intro kind' hkind' last hlast
        rw [List.mem_singleton] at hlast
        rintro rfl
        obtain ⟨taken, htaken, hkey', -⟩ := exists_right_of_forall₂ posted.each hkind'
        rw [hlast, hkey] at hkey'
        exact hfree taken htaken (Except.ok.inj hkey').symm
      · rw [List.mem_append, List.mem_singleton]

/-- What is moved in all is the sum over the kinds posted. -/
theorem PostedKinds.movement (posted : PostedKinds keyOf Moves kinds postings)
    {accountType : AccountType} (amount : κ → Int)
    (hamount : ∀ kind lines, Moves kind lines → netMovement accountType lines = amount kind) :
    postedMovement accountType postings = (kinds.map amount).sum := by
  obtain ⟨each, -⟩ := posted
  induction each with
  | nil => rfl
  | cons hfirst _ ih =>
      rw [List.map_cons, List.sum_cons, ← ih, ← hamount _ _ hfirst.2]
      rfl

end Kinds

end PayzenoLedger
