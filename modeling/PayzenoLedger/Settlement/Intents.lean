import PayzenoLedger.Services.Captures
import PayzenoLedger.Services.Rails

/-!
# Claims on a capture

A claim is the insert of an attempt under its key, in the session of whoever claims.  The
identifier of the attempt is cut from the end of the key, which is the end of the charge, so
the claims of one charge in two batches clash; and a claim that is lost rolls the session
back, with everything that it had written.
-/

set_option autoImplicit false

namespace PayzenoLedger

open Library

namespace DeferredCaptureService

/-- What is claimed: the capture of a charge for a line of a batch. -/
structure Intent where
  chargeId : String
  itemId : Option String
  acquirer : String
  batchId : String
  amountMinor : Int
  currency : String
deriving DecidableEq, Repr

/-- `f"cap_{key[-24:]}"`. -/
def attemptId (key : String) : String :=
  "cap_" ++ String.ofList (lastChars 24 key.toList)

def newAttempt (intent : Intent) (key : String) (requestedAt : Instant) : CaptureAttempt where
  id := attemptId key
  chargeId := intent.chargeId
  itemId := intent.itemId
  acquirer := intent.acquirer
  acquirerIdempotencyKey := key
  amountMinor := intent.amountMinor
  currency := intent.currency
  status := .pending
  responseReference := none
  lastErrorCode := none
  requestedAt := requestedAt
  completedAt := none

/-- The unique keys of the attempt that some attempt holds already. -/
def takenKeys (attempt : CaptureAttempt) (view : Database) : List Key :=
  (Table.captureAttempt.keys attempt).filter fun key =>
    !(Schema.holders (S := schema) Table.captureAttempt key view).isEmpty

/-- `session.rollback()`. -/
def rolledBack (session : Session system) : Session system :=
  { session with writes := [], locks := [] }

/-- `record_intent`, in the session of the caller.  The item of the intent, if it has one, is
taken to be on file, and what the caller has not flushed yet to be accepted: no other
`IntegrityError` is modelled. -/
def recordIntent (session : Session system) (db : Database) (intent : Intent)
    (requestedAt : Instant) : Except Exception (Option CaptureAttempt × Session system) := do
  let key ← ledgerKey "capture" intent.batchId intent.chargeId
  let attempt := newAttempt intent key requestedAt
  match takenKeys attempt (session.view db) with
  | [] =>
      pure (some attempt,
        { session with writes := session.writes ++ [.insert Table.captureAttempt attempt] })
  | _ :: _ => pure (none, rolledBack session)

section

variable (session : Session system) (db : Database) (intent : Intent) (key : String)

/-- The capture has been claimed, for all that the session sees. -/
def Claimed : Prop :=
  ∃ attempt ∈ (session.view db).attempts,
    attempt.acquirer = intent.acquirer ∧ attempt.acquirerIdempotencyKey = key

/-- The claim is lost just when the capture has been claimed; otherwise it is inserted, and the
session keeps what it had written. -/
structure ClaimsPurely (result : Option CaptureAttempt) (session' : Session system) : Prop where
  lost : result = none ↔ Claimed session db intent key
  kept : result = none → session'.writes = session.writes
  inserted : ∀ attempt, result = some attempt → attempt.acquirer = intent.acquirer ∧
    attempt.acquirerIdempotencyKey = key ∧
    session'.writes = session.writes ++ [.insert Table.captureAttempt attempt]

end

variable {session : Session system} {db : Database} {intent : Intent} {key : String}
  {requestedAt : Instant}

/-- No row stands in the way of the insert. -/
theorem takenKeys_eq_nil {attempt : CaptureAttempt} {view : Database} :
    takenKeys attempt view = [] ↔ ∀ other ∈ view.attempts, other.id ≠ attempt.id ∧
      ¬ (other.acquirer = attempt.acquirer ∧
        other.acquirerIdempotencyKey = attempt.acquirerIdempotencyKey) := by
  have hkeys (row : CaptureAttempt) : Table.captureAttempt.keys row =
      [.attempt row.id, .attemptKey row.acquirer row.acquirerIdempotencyKey] := rfl
  have hfree (other : Key) :
      (!(Schema.holders (S := schema) Table.captureAttempt other view).isEmpty) = false ↔
        ∀ row ∈ view.attempts, other ∉ Table.captureAttempt.keys row := by
    rw [Bool.not_eq_false', List.isEmpty_iff, Schema.holders_eq_nil_iff]
    rfl
  unfold takenKeys
  rw [List.filter_eq_nil_iff]
  simp only [Bool.not_eq_true, hfree, hkeys, List.mem_cons, List.not_mem_nil, or_false,
    forall_eq_or_imp, forall_eq, not_or, Key.attempt.injEq, Key.attemptKey.injEq, reduceCtorEq,
    not_false_eq_true, and_true, true_and]
  constructor
  · rintro ⟨hid, hclaim⟩ other hother
    exact ⟨fun hsame => hid other hother hsame.symm, fun ⟨hacquirer, hkey⟩ =>
      hclaim other hother ⟨hacquirer.symm, hkey.symm⟩⟩
  · intro h
    exact ⟨fun other hother hsame => (h other hother).1 hsame.symm,
      fun other hother ⟨hacquirer, hkey⟩ => (h other hother).2 ⟨hacquirer.symm, hkey.symm⟩⟩

/-- An intent whose key can be built is claimed, or lost with the session rolled back. -/
theorem recordIntent_cases (hkey : ledgerKey "capture" intent.batchId intent.chargeId = .ok key) :
    takenKeys (newAttempt intent key requestedAt) (session.view db) = [] ∧
        recordIntent session db intent requestedAt =
          .ok (some (newAttempt intent key requestedAt),
            { session with
              writes := session.writes ++
                [.insert Table.captureAttempt (newAttempt intent key requestedAt)] }) ∨
      takenKeys (newAttempt intent key requestedAt) (session.view db) ≠ [] ∧
        recordIntent session db intent requestedAt = .ok (none, rolledBack session) := by
  unfold recordIntent
  rw [hkey]
  simp only [bind, Except.bind, pure, Except.pure]
  cases htaken : takenKeys (newAttempt intent key requestedAt) (session.view db) with
  | nil => exact .inl ⟨rfl, rfl⟩
  | cons first others => exact .inr ⟨List.cons_ne_nil _ _, rfl⟩

/-- The insert fails when the identifier is in use or the capture has been claimed. -/
theorem takenKeys_ne_nil :
    takenKeys (newAttempt intent key requestedAt) (session.view db) ≠ [] ↔
      (∃ attempt ∈ (session.view db).attempts, attempt.id = attemptId key) ∨
        Claimed session db intent key := by
  unfold Claimed
  rw [ne_eq, takenKeys_eq_nil]
  push Not
  constructor
  · rintro ⟨attempt, hattempt, hclash⟩
    by_cases hid : attempt.id = attemptId key
    · exact .inl ⟨attempt, hattempt, hid⟩
    · exact .inr ⟨attempt, hattempt, hclash hid⟩
  · rintro (⟨attempt, hattempt, hid⟩ | ⟨attempt, hattempt, hclaim⟩)
    · exact ⟨attempt, hattempt, fun hne => absurd hid hne⟩
    · exact ⟨attempt, hattempt, fun _ => hclaim⟩

end DeferredCaptureService

open DeferredCaptureService in
/-- A claim is pure just when its key can be built, no attempt has its identifier unless the
capture has been claimed, and the session has written nothing when it has. -/
theorem recordIntent_pure_iff (session : Session system) (db : Database) (intent : Intent)
    (requestedAt : Instant) :
    (∃ key result session', ledgerKey "capture" intent.batchId intent.chargeId = .ok key ∧
        recordIntent session db intent requestedAt = .ok (result, session') ∧
        ClaimsPurely session db intent key result session') ↔
      ∃ key, ledgerKey "capture" intent.batchId intent.chargeId = .ok key ∧
        ((∃ attempt ∈ (session.view db).attempts, attempt.id = attemptId key) →
          Claimed session db intent key) ∧
        (Claimed session db intent key → session.writes = []) := by
  constructor
  · rintro ⟨key, result, session', hkey, hrun, claims⟩
    refine ⟨key, hkey, ?_⟩
    rcases recordIntent_cases hkey with ⟨hfree, hinserted⟩ | ⟨htaken, hlost⟩
    · have hnever : ¬ ((∃ attempt ∈ (session.view db).attempts, attempt.id = attemptId key) ∨
          Claimed session db intent key) := fun h => takenKeys_ne_nil.mpr h hfree
      exact ⟨fun hid => absurd (.inl hid) hnever, fun hclaimed => absurd (.inr hclaimed) hnever⟩
    · rw [hlost] at hrun
      cases hrun
      exact ⟨fun _ => claims.lost.mp rfl, fun _ => (claims.kept rfl).symm⟩
  · rintro ⟨key, hkey, hid, hwritten⟩
    rcases recordIntent_cases hkey with ⟨hfree, hinserted⟩ | ⟨htaken, hlost⟩
    · have hunclaimed : ¬ Claimed session db intent key :=
        fun hclaimed => takenKeys_ne_nil.mpr (.inr hclaimed) hfree
      refine ⟨key, _, _, hkey, hinserted, ⟨?_, nofun, ?_⟩⟩
      · exact ⟨nofun, fun hclaimed => absurd hclaimed hunclaimed⟩
      · rintro attempt ⟨⟩
        exact ⟨rfl, rfl, rfl⟩
    · have hclaimed : Claimed session db intent key := by
        rcases takenKeys_ne_nil.mp htaken with hclash | hclaimed
        · exact hid hclash
        · exact hclaimed
      refine ⟨key, _, _, hkey, hlost, ⟨?_, ?_, nofun⟩⟩
      · exact ⟨fun _ => hclaimed, fun _ => rfl⟩
      · exact fun _ => (hwritten hclaimed).symm

namespace IntentSample

open DeferredCaptureService

def intent (batchId chargeId : String) : Intent where
  chargeId := chargeId
  itemId := none
  acquirer := "worldflow"
  batchId := batchId
  amountMinor := 1000
  currency := "EUR"

def charge : String := "ch_01K4A2B3C4D5E6F7G8H9J0KMNP"

def idle : Session system := Session.fresh SessionName.attemptList

/-- A session after a first claim. -/
def claiming (chargeId key : String) : Session system :=
  { idle with
    writes := [.insert Table.captureAttempt (newAttempt (intent "sb_1" chargeId) key 5)] }

/-- The table once the charge was claimed for its first batch. -/
def claimedOnce : Database :=
  (claiming charge "capture:sb_1:ch_01K4A2B3C4D5E6F7G8H9J0KMNP").view {}

end IntentSample

open DeferredCaptureService IntentSample in
/-- After the charge was claimed for its first batch the claim for a second one is lost, though
nobody made it; and a session that claims again loses the claim of another charge. -/
theorem claim_clashes :
    recordIntent idle {} (intent "sb_1" charge) 5 =
        .ok (some (newAttempt (intent "sb_1" charge)
            "capture:sb_1:ch_01K4A2B3C4D5E6F7G8H9J0KMNP" 5),
          claiming charge "capture:sb_1:ch_01K4A2B3C4D5E6F7G8H9J0KMNP") ∧
      recordIntent idle claimedOnce (intent "sb_2" charge) 6 = .ok (none, idle) ∧
      ¬ Claimed idle claimedOnce (intent "sb_2" charge)
        "capture:sb_2:ch_01K4A2B3C4D5E6F7G8H9J0KMNP" ∧
      recordIntent (claiming "ch_2" "capture:sb_1:ch_2") claimedOnce (intent "sb_1" charge) 6 =
        .ok (none, idle) := by
  refine ⟨rfl, rfl, ?_, rfl⟩
  rintro ⟨attempt, hattempt, -, hkey⟩
  rw [List.mem_singleton.mp hattempt] at hkey
  revert hkey
  decide

end PayzenoLedger
