import PayzenoLedger.Clients.Http
import PayzenoLedger.Ledger.Passes
import PayzenoLedger.Settlement.Counters
import PayzenoLedger.Settlement.Jobs

/-!
# What the acquirers' answers do to a pass

The sweep of a batch and the drain of the retryable backlog take one item after the
other.  An error of the tree that an acquirer answered rolls the item back and is marked
on it; any other goes through both ladders of `except` clauses and out of the pass, and so
does what a counter of the process is refused with.
-/

set_option autoImplicit false

namespace PayzenoLedger

open Library Library.Raising

/-- The error that a call of a pass was answered with, by an acquirer or by a counter. -/
def answerError : Event system → Option Exception
  | .called (.confirmSettlement _ _ _) (.error raised) => some raised
  | .called (.captureDeferred _ _ _ _ _ _) (.error raised) => some raised
  | .called (.increment _ _) (.error raised) => some raised
  | .called (.countDuplicate _ _) (.error raised) => some raised
  | _ => none

/-- Whatever is an instance of a class is one of the root. -/
theorem Exception.isInstance_root {raised : Exception} {cls : ErrorClass}
    (h : raised.isInstance cls = true) : raised.isInstance .payzenoLedgerError = true := by
  cases raised with
  | ledger error => exact ErrorClass.isInstance_root _
  | integrityError => cases h
  | valueError message => cases h
  | builtin error => cases h
  | httpx error => cases h

/-- The body only made calls, and raised what it was answered: in the tree if the answer
was, and outside of it if not. -/
structure Heeded {α : Type} (calls : List (Event system)) (result : Except Exception α) :
    Prop where
  called : ∀ event ∈ calls, ∃ request reply, event = .called request reply
  raised : ∀ answer ∈ calls.filterMap answerError, ∃ raised, result = .error raised ∧
    raised.isInstance .payzenoLedgerError = answer.isInstance .payzenoLedgerError

namespace Heeded

theorem of_ok {α : Type} {event : Event system} (value : α)
    (hcalled : ∃ request reply, event = .called request reply) (hok : answerError event = none) :
    Heeded [event] (.ok value) := by
  constructor
  · intro other hother
    rwa [List.mem_singleton.mp hother]
  · intro answer hanswer
    simp [hok] at hanswer

theorem of_error {α : Type} {event : Event system} {answer thrown : Exception}
    (hcalled : ∃ request reply, event = .called request reply)
    (herror : answerError event = some answer)
    (hsame : thrown.isInstance .payzenoLedgerError = answer.isInstance .payzenoLedgerError) :
    Heeded [event] (.error thrown : Except Exception α) := by
  constructor
  · intro other hother
    rwa [List.mem_singleton.mp hother]
  · intro answer' hanswer
    simp only [List.filterMap_cons, herror, List.filterMap_nil, List.mem_singleton] at hanswer
    rw [hanswer]
    exact ⟨thrown, rfl, hsame⟩

end Heeded

/-- Every answer to a call of the body is heeded. -/
def Heeds {α : Type} (body : Async α) : Prop :=
  Raising.Talks body Heeded

namespace Heeds

variable {α β : Type}

theorem of_stays {body : Async α} (stays : Stays body) : Heeds body := by
  refine stays.talks fun result => ⟨?_, ?_⟩
  · intro event hevent
    cases hevent
  · intro answer hanswer
    cases hanswer

theorem bind {body : Async α} {next : α → Async β} (heeds : Heeds body)
    (hnext : ∀ value, Heeds (next value)) : Heeds (body >>= next) := by
  refine Talks.bind (Program.Talks.mono heeds fun calls result heeded => ?_)
  cases result with
  | ok value =>
      have hsilent : calls.filterMap answerError = [] := by
        refine List.eq_nil_iff_forall_not_mem.mpr fun answer hanswer => ?_
        obtain ⟨raised, hraised, -⟩ := heeded.raised answer hanswer
        cases hraised
      refine Program.Talks.mono (hnext value) fun more result' heeded' => ⟨?_, ?_⟩
      · intro event hevent
        rcases List.mem_append.mp hevent with hcall | hcall
        · exact heeded.called event hcall
        · exact heeded'.called event hcall
      · intro answer hanswer
        rw [List.filterMap_append, hsilent, List.nil_append] at hanswer
        exact heeded'.raised answer hanswer
  | error raised =>
      refine ⟨heeded.called, fun answer hanswer => ?_⟩
      obtain ⟨thrown, hthrown, hsame⟩ := heeded.raised answer hanswer
      cases hthrown
      exact ⟨raised, rfl, hsame⟩

/-- A part that calls nobody, and what comes after it. -/
theorem after {body : Async α} {next : α → Async β} (stays : Stays body)
    (hnext : ∀ value, Heeds (next value)) : Heeds (body >>= next) :=
  (of_stays stays).bind hnext

end Heeds

theorem MerchantProjectionRepository.stays_getOrRaise (id : Option String) :
    Stays (getOrRaise id) := by
  cases id with
  | none => exact .throw _
  | some id => exact Async.stays_getOrRaise _ _ _

namespace SettlementPoster

/-- What is raised for an answer is in the tree if the answer is. -/
theorem answered_heeded {α : Type} (item : ReconciliationItem) (raised : Exception) :
    ∃ thrown, (answered item (.error raised) : Async α) = throw thrown ∧
      thrown.isInstance .payzenoLedgerError = raised.isInstance .payzenoLedgerError := by
  cases raised with
  | ledger error =>
      have htranslated :
          (translate item error).isInstance .payzenoLedgerError = true := by
        unfold translate
        split
        · exact ErrorClass.isInstance_root _
        · exact ErrorClass.isInstance_root _
      have hroot : (Exception.ledger error).isInstance .payzenoLedgerError = true :=
        ErrorClass.isInstance_root _
      simp only [answered]
      split
      · exact ⟨_, rfl, htranslated.trans hroot.symm⟩
      · exact ⟨_, rfl, rfl⟩
  | integrityError => exact ⟨_, rfl, rfl⟩
  | valueError message => exact ⟨_, rfl, rfl⟩
  | builtin error => exact ⟨_, rfl, rfl⟩
  | httpx error => exact ⟨_, rfl, rfl⟩

theorem heeds_confirm (item : ReconciliationItem) : Heeds (confirm item) := by
  refine Talks.bind fun reply => ?_
  change Talks (answered item reply) _
  cases reply with
  | ok value => exact Heeded.of_ok () ⟨_, _, rfl⟩ rfl
  | error raised =>
      obtain ⟨thrown, hthrown, hsame⟩ := answered_heeded (α := Unit) item raised
      rw [hthrown]
      exact Heeded.of_error ⟨_, _, rfl⟩ rfl hsame

theorem heeds_capture (item : ReconciliationItem) (charge : SettlementCharge)
    (chargeId : String) : Heeds (capture item charge chargeId) := by
  refine .after (Async.stays_check _) fun idempotencyKey => Talks.bind fun reply => ?_
  change Talks (answered item reply >>= fun _ => pure ()) _
  cases reply with
  | ok value => exact Heeded.of_ok () ⟨_, _, rfl⟩ rfl
  | error raised =>
      obtain ⟨thrown, hthrown, hsame⟩ := answered_heeded (α := CaptureResponse) item raised
      rw [hthrown]
      exact Heeded.of_error ⟨_, _, rfl⟩ rfl hsame

theorem stays_publishItemEvent (type stampName : String) (item : ReconciliationItem)
    (payload : List (String × Json)) : Stays (publishItemEvent type stampName item payload) :=
  .bind Async.stays_now fun _ => OutboxPublisher.stays_publish _ _ _ _ _

theorem heeds_publishDuplicate (settings : Settings) (item : ReconciliationItem) (key : String)
    (existing : LedgerTransaction) (caller : Caller) :
    Heeds (publishDuplicate settings item key existing caller) := by
  refine .after (stays_publishItemEvent _ _ _ _) fun _ => ?_
  cases settings.flagDuplicateSettlementAlarm with
  | false => exact .of_stays (.pure _)
  | true =>
      refine Talks.bind fun counted => ?_
      cases counted with
      | ok value => exact Heeded.of_ok () ⟨_, _, rfl⟩ rfl
      | error raised => exact Heeded.of_error ⟨_, _, rfl⟩ rfl rfl

theorem heeds_afterClaim (settings : Settings) (item : ReconciliationItem)
    (charge : SettlementCharge) (chargeId key : String) (caller : Caller) (posted : PostResult) :
    Heeds (afterClaim settings item charge chargeId key caller posted) := by
  unfold afterClaim
  split
  · have hsettled : Heeds (do
        publishSettled item posted.transaction.id
        pure { transactionId := posted.transaction.id, created := true : SettlementResult }) :=
      .of_stays (.bind (stays_publishItemEvent _ _ _ _) fun _ => .pure _)
    split
    · exact .bind (heeds_capture item charge chargeId) fun _ => hsettled
    · exact hsettled
  · exact .bind (heeds_publishDuplicate _ _ _ _ _) fun _ => .of_stays (.pure _)

/-- The poster heeds the acquirer at the confirmation and at the capture. -/
theorem heeds_postSettlement (settings : Settings) (item : ReconciliationItem)
    (caller : Caller) : Heeds (postSettlement settings item caller) := by
  refine .after (.mark _) fun _ => .bind (heeds_confirm item) fun _ => ?_
  cases item.chargeId with
  | none => exact .of_stays (.throw _)
  | some chargeId =>
      refine .after (Async.stays_check _) fun key => ?_
      refine .after (Async.stays_getOrRaise _ _ _) fun charge => ?_
      refine .after (MerchantProjectionRepository.stays_getOrRaise _) fun merchant => ?_
      split
      · exact .of_stays (.bind (stays_publishItemEvent _ _ _ _) fun _ => .throw _)
      · refine .after (Async.stays_check _) fun lines => ?_
        refine .after (LedgerPoster.stays_post _) fun posted => ?_
        exact heeds_afterClaim settings item charge chargeId key caller posted

end SettlementPoster

/-! ## Items -/

theorem ReconciliationItem.stays_flush (loaded changed : ReconciliationItem) :
    Stays (loaded.flush changed) := by
  unfold ReconciliationItem.flush
  split
  · trivial
  · exact Async.stays_update _ _ _ _

theorem SettlementBatch.stays_flush (loaded changed : SettlementBatch) :
    Stays (loaded.flush changed) := by
  unfold SettlementBatch.flush
  split
  · trivial
  · exact Async.stays_update _ _ _ _

theorem ReconciliationService.heeds_processItem (settings : Settings) (itemId : String) :
    Heeds (processItem settings itemId) := by
  refine .after (Async.stays_getOrRaise _ _ _) fun item => ?_
  split
  · refine .bind (SettlementPoster.heeds_postSettlement settings item .batchPass)
      fun result => ?_
    exact .after Async.stays_now fun stamp => .of_stays (item.stays_flush _)
  · exact .of_stays (.pure _)

namespace RetryScheduler

theorem stays_claimItem (settings : Settings) (itemId : String) :
    Stays (claimItem settings itemId) := by
  refine .bind (.execute _) fun batchId => ?_
  cases batchId with
  | none => trivial
  | some batchId =>
      refine .bind (.execute _) fun acquired => ?_
      cases acquired with
      | false => trivial
      | true => exact .execute _

theorem heeds_countRetried (names : List String) : Heeds (countRetried names) := by
  refine Talks.bind fun counted => ?_
  cases counted with
  | ok value => exact Heeded.of_ok () ⟨_, _, rfl⟩ rfl
  | error raised => exact Heeded.of_error ⟨_, _, rfl⟩ rfl rfl

theorem heeds_attempt (settings : Settings) (itemId : String) :
    Heeds (attempt settings itemId) := by
  refine .after (stays_claimItem settings itemId) fun claimed => ?_
  cases claimed with
  | none => exact .of_stays (.pure _)
  | some item =>
      dsimp only
      split
      · exact .of_stays (.throw _)
      · refine .after Async.stays_now fun stamp => ?_
        refine .after (item.stays_flush _) fun _ => ?_
        refine .bind (SettlementPoster.heeds_postSettlement settings _ .retryScheduler)
          fun result => ?_
        refine .after (ReconciliationItem.stays_flush _ _) fun _ => ?_
        exact .bind (heeds_countRetried _) fun _ => .of_stays (.pure _)

end RetryScheduler

section Mark

variable {db : Database} {worker : Nat} {shared : Shared system} {history : List (Event system)}

theorem ReconciliationItem.wpr_flushed {D : Discipline system} {loaded changed : ReconciliationItem}
    {top : Session system} {rest : List (Session system)} :
    wpr D worker (loaded.flush changed) (fun _ _ _ => True) (fun _ _ _ => False) (top :: rest)
      shared := by
  unfold ReconciliationItem.flush
  split
  · trivial
  · exact Async.wpr_rekeyed (fun _ => rfl) fun _ _ _ => trivial

/-- A mark on an item that is there: nothing stands in its way. -/
theorem wpr_marked {itemId : String} {name : SessionName}
    {next : ReconciliationItem → Async Unit} {stack : List (Session system)}
    {ok : Unit → List (Session system) → Shared system → Prop}
    {error : Exception → List (Session system) → Shared system → Prop}
    (hhistory : shared.eventsOf worker = history)
    (kept : Async.Kept .reconciliationItem (.item itemId) shared)
    (stays : ∀ item, Stays (next item))
    (hnext : ∀ item shared', (historyDiscipline db).Good shared' →
      wpr (historyDiscipline db) worker (next item) (fun _ _ _ => True) (fun _ _ _ => False)
        (Session.fresh name :: stack) shared')
    (hok : ∀ writes shared',
      shared'.eventsOf worker = history ++ [Event.began name, .committed name writes] →
      ok () stack shared') :
    wpr (historyDiscipline db) worker
      (Async.withSession name (ReconciliationItemRepository.getOrRaise itemId >>= next)) ok error
      stack shared := by
  refine wpr_committed (.bind (Async.stays_getOrRaise _ _ _) stays) hhistory
    (fun shared' since _ => ?_) fun _ writes shared' hevents => hok writes shared' hevents
  rw [wpr_bind]
  exact Async.wpr_kept (kept.since since) fun shared'' item progress =>
    hnext item shared'' progress.good

end Mark

/-! ## Turns -/

/-- The two passes that settle items. -/
inductive SettlementPass where
  | sweep (batchId trigger : String) (maxItems : Nat)
  | drain (limit : Nat)

namespace SettlementPass

def run (settings : Settings) : SettlementPass → Async Unit
  | .sweep batchId trigger maxItems => do
      let _ ← ReconciliationService.reconcileBatch settings batchId trigger maxItems
      pure ()
  | .drain limit => do
      let _ ← RetryScheduler.drain settings limit
      pure ()

/-- The transaction that an item is settled in. -/
def attempts : SettlementPass → String → SessionName
  | .sweep .., itemId => .sweepItem itemId
  | .drain _, itemId => .retryItem itemId

/-- The transactions that a failed item is marked in. -/
def marks : SettlementPass → String → List SessionName
  | .sweep .., itemId => [.sweepMarkRetryable itemId, .sweepMarkFailed itemId]
  | .drain _, itemId => [.retryMarkRetryable itemId, .retryMarkFailed itemId]

/-- What a pass does after a mark: the drain counts it, the sweep does not. -/
def Counted : SettlementPass → Except Exception Unit → List (Event system) → Prop
  | .sweep .., reply, counted => counted = [] ∧ reply = .ok ()
  | .drain _, reply, counted =>
      counted = [.called (.increment "SettlementItemRetried" ["error_code", "outcome"]) reply] ∧
        ∀ raised, reply = .error raised → raised.isInstance .payzenoLedgerError = false

/-- The turn of an item: its transaction went through, or it was rolled back and the
item marked and counted, or it was rolled back and the exception left the pass. -/
inductive ItemTurn (pass : SettlementPass) (itemId : String) : List (Event system) → Prop where
  | committed {calls : List (Event system)} {writes : List (Write schema)}
      (called : ∀ event ∈ calls, ∃ request reply, event = .called request reply)
      (heard : calls.filterMap answerError = []) :
      ItemTurn pass itemId
        (Event.began (pass.attempts itemId) :: calls ++
          [Event.committed (pass.attempts itemId) writes])
  | marked {calls counted : List (Event system)} {mark : SessionName}
      {writes : List (Write schema)} {reply : Except Exception Unit}
      (called : ∀ event ∈ calls, ∃ request reply, event = .called request reply)
      (heard : ∀ answer ∈ calls.filterMap answerError,
        answer.isInstance .payzenoLedgerError = true)
      (hmark : mark ∈ pass.marks itemId) (hcounted : pass.Counted reply counted) :
      ItemTurn pass itemId
        (Event.began (pass.attempts itemId) :: calls ++ ([Event.rolledBack (pass.attempts itemId),
          .began mark, .committed mark writes] ++ counted))
  | escaped {calls : List (Event system)}
      (called : ∀ event ∈ calls, ∃ request reply, event = .called request reply)
      (heard : ∀ answer ∈ calls.filterMap answerError,
        answer.isInstance .payzenoLedgerError = false) :
      ItemTurn pass itemId
        (Event.began (pass.attempts itemId) :: calls ++ [Event.rolledBack (pass.attempts itemId)])

end SettlementPass

/-- The last thing of the turn is that a transaction was rolled back, or that a count was
refused. -/
def Aborted (turn : List (Event system)) : Prop :=
  ∃ event, turn.getLast? = some event ∧
    ((∃ name, event = .rolledBack name) ∨ answerError event ≠ none)

open SettlementPass

theorem aborted_append (front : List (Event system)) (event : Event system)
    (last : List (Event system)) : Aborted (front ++ event :: last) ↔ Aborted (event :: last) := by
  unfold Aborted
  rw [List.getLast?_append_of_ne_nil front (by simp)]

theorem not_aborted_committed {front : List (Event system)} {name : SessionName}
    {writes : List (Write schema)} : ¬ Aborted (front ++ [Event.committed name writes]) := by
  rw [aborted_append]
  rintro ⟨event, hlast, ⟨other, rfl⟩ | herror⟩
  · cases hlast
  · cases hlast
    exact herror rfl

theorem aborted_rolledBack {front : List (Event system)} {name : SessionName} :
    Aborted (front ++ [Event.rolledBack name]) := by
  rw [aborted_append]
  exact ⟨_, rfl, .inl ⟨name, rfl⟩⟩

/-- After a mark it is the count that may abort the turn. -/
theorem aborted_marked {pass : SettlementPass} {reply : Except Exception Unit}
    {counted front : List (Event system)} {name mark : SessionName} {writes : List (Write schema)}
    (hcounted : pass.Counted reply counted) :
    Aborted (front ++ ([Event.rolledBack name, .began mark, .committed mark writes] ++ counted)) ↔
      ∃ raised, reply = .error raised := by
  have hfront (more : List (Event system)) : front ++ ([Event.rolledBack name, .began mark,
      .committed mark writes] ++ more) = (front ++ [Event.rolledBack name, .began mark]) ++
        .committed mark writes :: more := by simp
  cases pass with
  | sweep batchId trigger maxItems =>
      obtain ⟨rfl, rfl⟩ := hcounted
      rw [hfront]
      exact iff_of_false not_aborted_committed nofun
  | drain limit =>
      obtain ⟨rfl, -⟩ := hcounted
      rw [hfront, List.append_cons, aborted_append]
      cases reply with
      | ok value =>
          refine iff_of_false ?_ nofun
          rintro ⟨event, hlast, ⟨other, rfl⟩ | herror⟩
          · cases hlast
          · cases hlast
            exact herror rfl
      | error raised => exact iff_of_true ⟨_, rfl, .inr nofun⟩ ⟨raised, rfl⟩

section Turn

variable {db : Database} {worker : Nat} {shared : Shared system} {history : List (Event system)}
  {stack : List (Session system)} {settings : Settings}

/-- The attempt at an item was answered without an error, and committed. -/
def Attempted (worker : Nat) (history : List (Event system)) (name : SessionName)
    (stack : List (Session system)) (stack' : List (Session system))
    (shared' : Shared system) : Prop :=
  stack' = stack ∧ ∃ calls writes,
    (∀ event ∈ calls, ∃ request reply, event = .called request reply) ∧
    calls.filterMap answerError = [] ∧
    shared'.eventsOf worker = history ++ (Event.began name :: calls ++
      [Event.committed name writes])

/-- The attempt was rolled back, with the error of the last answer if that was one. -/
def Refused (worker : Nat) (history : List (Event system)) (name : SessionName)
    (stack : List (Session system)) (raised : Exception) (stack' : List (Session system))
    (shared' : Shared system) : Prop :=
  stack' = stack ∧ ∃ calls, Heeded calls (.error raised : Except Exception Unit) ∧
    shared'.eventsOf worker = history ++ (Event.began name :: calls ++ [Event.rolledBack name])

theorem Heeds.wpr_attempt {α : Type} {name : SessionName} {body : Async α} (heeds : Heeds body)
    (hhistory : shared.eventsOf worker = history) :
    wpr (historyDiscipline db) worker (Async.withSession name body)
      (fun _ => Attempted worker history name stack) (Refused worker history name stack)
      stack shared := by
  refine wpr_conversation heeds hhistory (fun value calls writes shared' heeded hevents => ?_)
    fun raised calls shared' heeded hevents => ?_
  · refine ⟨rfl, calls, writes, heeded.called, ?_, hevents⟩
    refine List.eq_nil_iff_forall_not_mem.mpr fun answer hanswer => ?_
    obtain ⟨raised, hraised, -⟩ := heeded.raised answer hanswer
    cases hraised
  · refine ⟨rfl, calls, ⟨heeded.called, fun answer hanswer => ?_⟩, hevents⟩
    obtain ⟨thrown, hthrown, hsame⟩ := heeded.raised answer hanswer
    cases hthrown
    exact ⟨raised, rfl, hsame⟩

/-- The item was marked in a transaction of its own, and the count after it answered so. -/
def Marked (worker : Nat) (history : List (Event system)) (pass : SettlementPass)
    (itemId : String) (reply : Except Exception Unit) (stack : List (Session system))
    (stack' : List (Session system)) (shared' : Shared system) : Prop :=
  stack' = stack ∧ ∃ mark ∈ pass.marks itemId, ∃ writes counted, pass.Counted reply counted ∧
    shared'.eventsOf worker = history ++ ([Event.began mark, .committed mark writes] ++ counted)

/-- The attempt at an item, and a handler that marks it or lets the exception through. -/
theorem SettlementPass.wpr_item {α : Type} {pass : SettlementPass} {itemId : String}
    {body : Async α} {handler : Exception → Async α}
    (kept : Async.Kept .reconciliationItem (.item itemId) shared)
    (hbody : wpr (historyDiscipline db) worker body
      (fun _ => Attempted worker history (pass.attempts itemId) stack)
      (Refused worker history (pass.attempts itemId) stack) stack shared)
    (hmarks : ∀ raised shared', raised.isInstance .payzenoLedgerError = true →
      Async.Kept .reconciliationItem (.item itemId) shared' →
      wpr (historyDiscipline db) worker (handler raised)
        (fun _ => Marked worker (shared'.eventsOf worker) pass itemId (.ok ()) stack)
        (fun refused => Marked worker (shared'.eventsOf worker) pass itemId (.error refused) stack)
        stack shared')
    (hthrows : ∀ raised, raised.isInstance .payzenoLedgerError = false →
      handler raised = throw raised) :
    wpr (historyDiscipline db) worker (Async.recover body handler)
      (fun _ => TookTurn pass.ItemTurn worker history (stack.map (·.name)) itemId
        fun turn => ¬ Aborted turn)
      (fun _ => TookTurn pass.ItemTurn worker history (stack.map (·.name)) itemId Aborted)
      stack shared := by
  unfold Async.recover
  rw [wpr_recover]
  refine wpr_mono (wpr_since hbody (Since.refl shared)) ?_ ?_
  · rintro done stack' shared' ⟨-, rfl, calls, writes, called, heard, hevents⟩
    exact ⟨_, .committed called heard, not_aborted_committed, rfl, hevents⟩
  · rintro raised stack' shared' ⟨since, rfl, calls, heeded, hevents⟩
    have hsame (answer : Exception) (hanswer : answer ∈ calls.filterMap answerError) :
        answer.isInstance .payzenoLedgerError = raised.isInstance .payzenoLedgerError := by
      obtain ⟨thrown, hthrown, hinstance⟩ := heeded.raised answer hanswer
      cases hthrown
      exact hinstance.symm
    cases htree : raised.isInstance .payzenoLedgerError with
    | true =>
        have hturn {reply : Except Exception Unit} {stack'' : List (Session system)}
            {shared'' : Shared system}
            (h : Marked worker (shared'.eventsOf worker) pass itemId reply stack' stack''
              shared'') :
            ∃ turn, pass.ItemTurn itemId turn ∧ (Aborted turn ↔ ∃ refused, reply = .error refused) ∧
              Rests worker (history ++ turn) (stack'.map (·.name)) stack'' shared'' := by
          obtain ⟨rfl, mark, hmark, writes, counted, hcounted, hmarked⟩ := h
          have took : pass.ItemTurn itemId (Event.began (pass.attempts itemId) :: calls ++
              ([Event.rolledBack (pass.attempts itemId), .began mark, .committed mark writes] ++
                counted)) :=
            .marked heeded.called (fun answer hanswer => (hsame answer hanswer).trans htree) hmark
              hcounted
          refine ⟨_, took, aborted_marked hcounted, rfl, ?_⟩
          rw [hmarked, hevents]
          simp
        refine wpr_mono (hmarks raised shared' htree (kept.since since)) ?_ ?_
        · intro _ stack'' shared'' h
          obtain ⟨turn, took, haborted, hrests⟩ := hturn h
          refine ⟨turn, took, fun habort => ?_, hrests⟩
          obtain ⟨refused, hrefused⟩ := haborted.mp habort
          cases hrefused
        · intro refused stack'' shared'' h
          obtain ⟨turn, took, haborted, hrests⟩ := hturn h
          exact ⟨turn, took, haborted.mpr ⟨refused, rfl⟩, hrests⟩
    | false =>
        rw [hthrows raised htree]
        refine ⟨_, .escaped heeded.called fun answer hanswer => ?_, aborted_rolledBack, rfl,
          hevents⟩
        exact (hsame answer hanswer).trans htree

/-- Who is no instance of the root is none of any class. -/
theorem Exception.not_isInstance {raised : Exception}
    (h : raised.isInstance .payzenoLedgerError = false) (cls : ErrorClass) :
    ¬ raised.isInstance cls = true := by
  intro hcls
  rw [Exception.isInstance_root hcls] at h
  cases h

theorem ReconciliationService.turn_sweepItem (batchId trigger : String) (maxItems : Nat)
    {item : ReconciliationItem} {stats : ReconcilePassStats}
    (hhistory : shared.eventsOf worker = history)
    (kept : Async.Kept .reconciliationItem (.item item.id) shared) :
    wpr (historyDiscipline db) worker (sweepItem settings item stats)
      (fun _ => TookTurn (SettlementPass.sweep batchId trigger maxItems).ItemTurn worker history
        (stack.map (·.name)) item.id fun turn => ¬ Aborted turn)
      (fun _ => TookTurn (SettlementPass.sweep batchId trigger maxItems).ItemTurn worker history
        (stack.map (·.name)) item.id Aborted) stack shared := by
  refine SettlementPass.wpr_item kept ?_ (fun raised shared' htree kept' => ?_)
    fun raised htree => ?_
  · rw [wpr_bind]
    exact (heeds_processItem settings item.id).wpr_attempt hhistory
  · split
    · rw [wpr_bind]
      refine wpr_marked rfl kept' (fun loaded => ?_) (fun loaded shared'' _ => ?_)
        fun writes shared'' hevents => ?_
      · exact .bind Async.stays_now fun _ => loaded.stays_flush _
      · rw [wpr_bind]
        exact Async.wpr_now fun _ _ => ReconciliationItem.wpr_flushed
      · exact ⟨rfl, _, List.mem_cons_self, writes, [], ⟨rfl, rfl⟩, hevents⟩
    · rw [wpr_bind]
      refine wpr_marked rfl kept' (fun loaded => ?_) (fun loaded shared'' _ => ?_)
        fun writes shared'' hevents => ?_
      · exact .bind Async.stays_now fun _ => loaded.stays_flush _
      · rw [wpr_bind]
        exact Async.wpr_now fun _ _ => ReconciliationItem.wpr_flushed
      · exact ⟨rfl, _, List.mem_cons_of_mem _ List.mem_cons_self, writes, [], ⟨rfl, rfl⟩, hevents⟩
  · rw [if_neg (Exception.not_isInstance htree _), if_neg (Exception.not_isInstance htree _)]

namespace RetryScheduler

theorem stays_backoff (settings : Settings) (attemptCount : Nat) :
    Stays (backoff settings attemptCount) := by
  refine .bind Async.stays_now fun stamp => ?_
  split
  · exact .throw _
  · exact .execute _

/-- With a positive base the backoff is drawn. -/
theorem wpr_positiveBackoff (positive : 0 < settings.reconcileRetryBackoffBaseSeconds)
    {attemptCount : Nat} {top : Session system}
    {ok : Instant → List (Session system) → Shared system → Prop}
    {error : Exception → List (Session system) → Shared system → Prop}
    (h : ∀ next shared', ok next (top :: stack) shared') :
    wpr (historyDiscipline db) worker (backoff settings attemptCount) ok error (top :: stack)
      shared := by
  unfold backoff
  rw [wpr_bind]
  refine Async.wpr_now fun shared₁ _ => ?_
  rw [if_neg (Nat.pos_iff_ne_zero.mp positive)]
  exact wpr_query (Y := system) fun shared₂ _ next _ _ => h next shared₂

theorem freeMarks_history : FreeMarks (historyDiscipline (Y := system) db) :=
  fun _ _ => ⟨rfl, fun _ => trivial⟩

/-- The count of what was marked. -/
theorem wpr_counted {limit : Nat} {itemId : String} {mark : SessionName}
    {writes : List (Write schema)} (hmark : mark ∈ (SettlementPass.drain limit).marks itemId)
    (hevents : shared.eventsOf worker = history ++ [Event.began mark, .committed mark writes]) :
    wpr (historyDiscipline db) worker (countRetried ["error_code", "outcome"])
      (fun _ => Marked worker history (.drain limit) itemId (.ok ()) stack)
      (fun refused => Marked worker history (.drain limit) itemId (.error refused) stack) stack
      shared := by
  unfold countRetried Async.increment
  rw [wpr_bind]
  refine wpr_call (Y := system) fun shared₁ choice counted world rely good hreply _ => ?_
  refine ⟨trivial, history_answer good.2 _ _ _ _, ?_⟩
  have hcalled (reply : Except Exception Unit) :
      (shared₁.answer worker world (Request.increment "SettlementItemRetried"
        ["error_code", "outcome"]) reply).eventsOf worker =
        history ++ ([Event.began mark, .committed mark writes] ++
          [Event.called (Request.increment "SettlementItemRetried" ["error_code", "outcome"])
            reply]) := by
    rw [Shared.eventsOf_answer, rely.events, hevents]
    simp
  cases counted with
  | ok value => exact ⟨rfl, mark, hmark, writes, _, ⟨rfl, nofun⟩, hcalled _⟩
  | error refused =>
      refine ⟨rfl, mark, hmark, writes, _, ⟨rfl, fun raised hraised => ?_⟩, hcalled _⟩
      cases choice <;> simp only [World.respond, reduceCtorEq, Option.some.injEq] at hreply
      rw [← Except.error.inj hraised, Metrics.increment_error (congrArg Prod.fst hreply)]
      rfl

theorem wpr_markRetryable {limit : Nat} {itemId code : String}
    (positive : 0 < settings.reconcileRetryBackoffBaseSeconds)
    (kept : Async.Kept .reconciliationItem (.item itemId) shared) :
    wpr (historyDiscipline db) worker (markRetryable settings itemId code)
      (fun _ => Marked worker (shared.eventsOf worker) (.drain limit) itemId (.ok ()) stack)
      (fun refused => Marked worker (shared.eventsOf worker) (.drain limit) itemId (.error refused)
        stack) stack shared := by
  unfold markRetryable
  rw [wpr_bind]
  refine wpr_marked rfl kept (fun loaded => ?_) (fun loaded shared' good => ?_)
    fun writes shared' hevents => wpr_counted List.mem_cons_self hevents
  · refine .bind (.mark _) fun _ => .bind Async.stays_now fun _ => ?_
    exact .bind (stays_backoff settings _) fun _ => loaded.stays_flush _
  · rw [wpr_bind]
    refine Async.wpr_mark freeMarks_history rfl (.start good) fun shared₁ onward => ?_
    rw [wpr_bind]
    refine Async.wpr_now fun shared₂ _ => ?_
    rw [wpr_bind]
    exact wpr_positiveBackoff positive fun _ _ => ReconciliationItem.wpr_flushed

theorem wpr_markFailed {limit : Nat} {itemId code : String}
    (kept : Async.Kept .reconciliationItem (.item itemId) shared) :
    wpr (historyDiscipline db) worker (markFailed itemId code)
      (fun _ => Marked worker (shared.eventsOf worker) (.drain limit) itemId (.ok ()) stack)
      (fun refused => Marked worker (shared.eventsOf worker) (.drain limit) itemId (.error refused)
        stack) stack shared := by
  unfold markFailed
  rw [wpr_bind]
  refine wpr_marked rfl kept (fun loaded => ?_) (fun loaded shared' good => ?_)
    fun writes shared' hevents => wpr_counted (List.mem_cons_of_mem _ List.mem_cons_self) hevents
  · exact .bind (.mark _) fun _ => .bind Async.stays_now fun _ => loaded.stays_flush _
  · rw [wpr_bind]
    refine Async.wpr_mark freeMarks_history rfl (.start good) fun shared₁ onward => ?_
    rw [wpr_bind]
    exact Async.wpr_now fun _ _ => ReconciliationItem.wpr_flushed

theorem turn_retryItem (limit : Nat) {itemId : String}
    (positive : 0 < settings.reconcileRetryBackoffBaseSeconds)
    (hhistory : shared.eventsOf worker = history)
    (kept : Async.Kept .reconciliationItem (.item itemId) shared) :
    wpr (historyDiscipline db) worker (retryItem settings itemId)
      (fun _ => TookTurn (SettlementPass.drain limit).ItemTurn worker history
        (stack.map (·.name)) itemId fun turn => ¬ Aborted turn)
      (fun _ => TookTurn (SettlementPass.drain limit).ItemTurn worker history
        (stack.map (·.name)) itemId Aborted) stack shared := by
  refine SettlementPass.wpr_item kept ((heeds_attempt settings itemId).wpr_attempt hhistory)
    (fun raised shared' htree kept' => ?_) fun raised htree => ?_
  · split
    · rw [wpr_bind]
      exact wpr_markRetryable positive kept'
    · split
      · rw [wpr_bind]
        exact wpr_markFailed kept'
      · rw [wpr_bind]
        exact wpr_markFailed kept'
  · rw [if_neg (Exception.not_isInstance htree _), if_neg (Exception.not_isInstance htree _),
      if_neg (Exception.not_isInstance htree _)]

end RetryScheduler

end Turn

/-- At a moment of the run at which it had this history, the worker read this time. -/
def Clocked (worker : Nat) (history : List (Event system)) (instant : Instant)
    (shared : Shared system) : Prop :=
  ∃ past, Since past shared ∧ past.eventsOf worker = history ∧ past.world.clock = instant

/-- The wall-clock budget ran out between two moments of the run. -/
def OverBudget (settings : Settings) (worker : Nat) (before after : List (Event system))
    (shared : Shared system) : Prop :=
  ∃ started instant, Clocked worker before started shared ∧
    Clocked worker after instant shared ∧
    settings.reconcileSweepWallBudgetSeconds * 1000000 < instant - started

theorem Clocked.since {worker : Nat} {history : List (Event system)} {instant : Instant}
    {past shared : Shared system} (clocked : Clocked worker history instant past)
    (since : Since past shared) : Clocked worker history instant shared := by
  obtain ⟨earlier, hearlier, hevents, hclock⟩ := clocked
  exact ⟨earlier, hearlier.trans since, hevents, hclock⟩

theorem OverBudget.since {settings : Settings} {worker : Nat}
    {before after : List (Event system)} {past shared : Shared system}
    (overrun : OverBudget settings worker before after past) (since : Since past shared) :
    OverBudget settings worker before after shared := by
  obtain ⟨started, instant, hstarted, hinstant, hover⟩ := overrun
  exact ⟨started, instant, hstarted.since since, hinstant.since since, hover⟩

/-- The items that had a turn; the others were left when the budget had run out. -/
def TookSome (pass : SettlementPass) (settings : Settings) (worker : Nat)
    (before history : List (Event system)) (names : List SessionName) (itemIds : List String)
    (raised : Bool) (stack : List (Session system)) (shared : Shared system) : Prop :=
  ∃ attempted left turns, itemIds = attempted ++ left ∧
    Turns pass.ItemTurn Aborted attempted turns raised ∧
    Rests worker (history ++ turns.flatten) names stack shared ∧
    (left ≠ [] → raised = false ∧
      OverBudget settings worker before (history ++ turns.flatten) shared)

section Loop

variable {db : Database} {worker : Nat} {shared : Shared system}
  {before history : List (Event system)} {settings : Settings}

theorem RetryScheduler.turns_drainAll (limit : Nat) {itemIds : List String} {settled : Nat}
    (positive : 0 < settings.reconcileRetryBackoffBaseSeconds)
    (hhistory : shared.eventsOf worker = history)
    (kept : ∀ itemId ∈ itemIds, Async.Kept .reconciliationItem (.item itemId) shared) :
    wpr (historyDiscipline db) worker (drainAll settings itemIds settled)
      (fun _ => TookTurns (SettlementPass.drain limit).ItemTurn Aborted worker history [] itemIds
        false)
      (fun _ => TookTurns (SettlementPass.drain limit).ItemTurn Aborted worker history [] itemIds
        true) [] shared := by
  induction itemIds generalizing settled history shared with
  | nil => exact .nil ⟨rfl, hhistory⟩
  | cons itemId itemIds ih =>
      obtain ⟨hkept, hrest⟩ := List.forall_mem_cons.mp kept
      refine wpr_turns (turn_retryItem limit positive hhistory hkept)
        fun item history' stack' shared' since rests => ?_
      rw [rests.stack_nil]
      exact ih rests.2 fun other hother => (hrest other hother).since since

theorem TookSome.cons {pass : SettlementPass} {names : List SessionName} {itemId : String}
    {itemIds : List String} {turn : List (Event system)} {raised : Bool}
    {stack : List (Session system)} (took : pass.ItemTurn itemId turn) (hkept : ¬ Aborted turn)
    (h : TookSome pass settings worker before (history ++ turn) names itemIds raised stack
      shared) :
    TookSome pass settings worker before history names (itemId :: itemIds) raised stack
      shared := by
  obtain ⟨attempted, left, turns, rfl, hturns, hrests, hleft⟩ := h
  refine ⟨itemId :: attempted, left, turn :: turns, rfl, .next took hkept hturns, ?_, ?_⟩
  · rw [List.flatten_cons, ← List.append_assoc]
    exact hrests
  · rw [List.flatten_cons, ← List.append_assoc]
    exact hleft

theorem ReconciliationService.turns_sweepItems (batchId trigger : String) (maxItems : Nat)
    {items : List ReconciliationItem} {started : Instant} {stats : ReconcilePassStats}
    {guard : Session system} (hhistory : shared.eventsOf worker = history)
    (clocked : Clocked worker before started shared)
    (kept : ∀ itemId ∈ items.map (·.id), Async.Kept .reconciliationItem (.item itemId) shared) :
    wpr (historyDiscipline db) worker (sweepItems settings started items stats)
      (fun _ => TookSome (.sweep batchId trigger maxItems) settings worker before history
        [guard.name] (items.map (·.id)) false)
      (fun _ => TookSome (.sweep batchId trigger maxItems) settings worker before history
        [guard.name] (items.map (·.id)) true) [guard] shared := by
  induction items generalizing stats history shared guard with
  | nil =>
      refine ⟨[], [], [], rfl, .done, ⟨rfl, ?_⟩, fun h => absurd rfl h⟩
      rw [hhistory, List.flatten_nil, List.append_nil]
  | cons item items ih =>
      obtain ⟨hkept, hrest⟩ := List.forall_mem_cons.mp kept
      unfold sweepItems
      rw [wpr_bind]
      refine Async.wpr_now fun shared₁ progress => ?_
      have hsince : Since shared shared₁ := Since.of_rely progress.rely
      have hevents : shared₁.eventsOf worker = history := by
        rw [progress.rely.events, hhistory]
      split
      · next hover =>
          -- The budget is used up: the items that are left get no turn.
          rw [wpr_bind]
          refine Library.wpr_mark (Y := system) fun shared₂ rely₂ _ =>
            ⟨⟨fun lock h => absurd h (Option.some_ne_none lock).symm,
              fun id h => absurd h (Option.some_ne_none id).symm, trivial⟩, ?_⟩
          have hsince₂ : Since shared₁ shared₂ := Since.of_rely rely₂
          refine ⟨[], item.id :: items.map (·.id), [], rfl, .done, ⟨rfl, ?_⟩, fun _ => ⟨rfl, ?_⟩⟩
          · rw [rely₂.events, hevents, List.flatten_nil, List.append_nil]
          · rw [List.flatten_nil, List.append_nil]
            exact ⟨started, _, (clocked.since hsince).since hsince₂,
              ⟨shared₁, hsince₂, hevents, rfl⟩, hover⟩
      · rw [wpr_bind]
        have hturn := @turn_sweepItem db worker shared₁ history [guard] settings batchId trigger
          maxItems item
          stats hevents (hkept.since hsince)
        refine wpr_mono (wpr_since hturn (Since.refl shared₁)) ?_ ?_
        · rintro stats' stack' shared₂ ⟨since, turn, took, hgoes, hnames, hafter⟩
          obtain ⟨guard', rfl, hname⟩ : ∃ guard', stack' = [guard'] ∧ guard'.name = guard.name := by
            simpa [List.map_eq_singleton_iff] using hnames
          have hloop := @ih shared₂ _ stats' guard' hafter
            ((clocked.since hsince).since since)
            fun other hother => ((hrest other hother).since hsince).since since
          rw [hname] at hloop
          refine wpr_mono hloop ?_ ?_
          · intro _ stack'' shared₃ h
            exact h.cons took hgoes
          · intro _ stack'' shared₃ h
            exact h.cons took hgoes
        · rintro raised stack' shared₂ ⟨-, turn, took, haborted, hrests⟩
          refine ⟨item.id :: items.map (·.id), [], [turn], by simp, .broke took haborted, ?_,
            fun h => absurd rfl h⟩
          rw [List.flatten_cons, List.flatten_nil, List.append_nil]
          exact hrests

end Loop

/-! ## Passes -/

namespace SettlementPass

/-- The items that a pass lists, of the database and the time at which it asks. -/
def lists : SettlementPass → Instant → Database → List String
  | .sweep batchId _ maxItems, _, db =>
      (((db.items.filter fun item => item.batchId = batchId ∧ item.status.isRetryable)
        |>.insertionSort fun first second => first.createdAt ≤ second.createdAt).take
          maxItems).map (·.id)
  | .drain limit, cutoff, db =>
      (((db.items.filter fun item =>
          item.status.isRetryable ∧ item.nextAttemptAt ≤ cutoff).insertionSort
        fun first second => first.nextAttemptAt ≤ second.nextAttemptAt).take limit).map (·.id)

/-- The transaction that reads the list. -/
def listing : SettlementPass → SessionName
  | .sweep batchId _ maxItems => .sweepRead batchId maxItems
  | .drain _ => .retryList

/-- What a pass does before it reads its list. -/
def opening (writes : List (Write schema)) : SettlementPass → List (Event system)
  | .sweep batchId _ _ =>
      [.began .runStart, .committed .runStart writes, .began (.sweepGuard batchId)]
  | .drain _ => []

/-- What a pass has done when it begins with the first item. -/
def listed (writes : List (Write schema)) (pass : SettlementPass) : List (Event system) :=
  pass.opening writes ++ [Event.began pass.listing, .committed pass.listing []]

/-- What a pass builds on: the batch is there, and the base of the backoff is positive. -/
def Ready (settings : Settings) (db : Database) : SettlementPass → Prop
  | .sweep batchId _ _ => ∃ batch ∈ db.batches, batch.id = batchId
  | .drain _ => 0 < settings.reconcileRetryBackoffBaseSeconds

/-- The pass stopped at an item because its budget was used up; a drain has none. -/
def Stopped (settings : Settings) (worker : Nat) (before after : List (Event system))
    (shared : Shared system) : SettlementPass → Prop
  | .sweep .. => OverBudget settings worker before after shared
  | .drain _ => False

/-- The run that a sweep began is closed; a drain has none, and returns. -/
def Finished (worker : Nat) (result : Except Exception Unit) (shared : Shared system) :
    SettlementPass → Prop
  | .sweep batchId _ _ =>
      ∃ writes, Event.committed (SessionName.sweepFinish batchId) writes ∈ shared.eventsOf worker
  | .drain _ => result = .ok ()

/-- A drain that broke off does not return. -/
def BrokeOff (result : Except Exception Unit) : SettlementPass → Prop
  | .sweep .. => True
  | .drain _ => ∃ raised, result = .error raised

/-- The list that a pass read, and what it did afterwards. -/
structure Listed (db : Database) (worker : Nat) (shared : Shared system)
    (writes : List (Write schema)) (items : List String) (turns : List (List (Event system)))
    (pass : SettlementPass) : Prop where
  read : ∃ past cutoff,
    Asked db worker (pass.opening writes ++ [Event.began pass.listing]) past shared ∧
    Clocked worker (pass.opening writes ++ [Event.began pass.listing]) cutoff shared ∧
    items = pass.lists cutoff past.committed
  events : ∃ rest, shared.eventsOf worker = pass.listed writes ++ turns.flatten ++ rest

end SettlementPass

/-- A pass that has ended: it never got to its list, or took turns at the items up to the
first that aborted it. -/
def SettlementPassEnded (settings : Settings) (pass : SettlementPass) (db : Database)
    (worker : Nat) (result : Except Exception Unit) (shared : Shared system) : Prop :=
  Event.rolledBack SessionName.runStart ∈ shared.eventsOf worker ∨
    ∃ writes items attempted left turns raised, pass.Listed db worker shared writes items turns ∧
      items = attempted ++ left ∧ Turns pass.ItemTurn Aborted attempted turns raised ∧
      (left ≠ [] → raised = false ∧ pass.Stopped settings worker (pass.listed writes)
        (pass.listed writes ++ turns.flatten) shared) ∧
      (raised = false → pass.Finished worker result shared) ∧
      (raised = true → pass.BrokeOff result)

section Pass

variable {settings : Settings} {db : Database} {worker : Nat} {shared shared' : Shared system}
  {result : Except Exception Unit}

theorem SettlementPassEnded.since {pass : SettlementPass}
    (h : SettlementPassEnded settings pass db worker result shared) (since : Since shared shared')
    (hevents : shared'.eventsOf worker = shared.eventsOf worker) :
    SettlementPassEnded settings pass db worker result shared' := by
  rcases h with hstart | ⟨writes, items, attempted, left, turns, raised, hlisted, hitems, hturns,
    hleft, hfinished, hbroke⟩
  · left
    rwa [hevents]
  · right
    refine ⟨writes, items, attempted, left, turns, raised, ?_, hitems, hturns, fun h => ?_,
      fun h => ?_, hbroke⟩
    · obtain ⟨⟨past, cutoff, asked, clocked, hlists⟩, rest, hrest⟩ := hlisted
      exact ⟨⟨past, cutoff, { asked with before := asked.before.trans since },
        clocked.since since, hlists⟩, rest, hevents.trans hrest⟩
    · refine ⟨(hleft h).1, ?_⟩
      have hstopped := (hleft h).2
      cases pass with
      | sweep batchId trigger maxItems => exact OverBudget.since hstopped since
      | drain limit => exact hstopped
    · have hclosed := hfinished h
      cases pass with
      | sweep batchId trigger maxItems =>
          obtain ⟨finish, hfinish⟩ := hclosed
          refine ⟨finish, ?_⟩
          rwa [hevents]
      | drain limit => exact hclosed

/-- A listed item is there, and stays there. -/
theorem SettlementPass.kept_of_lists {pass : SettlementPass} {cutoff : Instant} {itemId : String}
    {past : Shared system} (hitem : itemId ∈ pass.lists cutoff past.committed) :
    Async.Kept .reconciliationItem (.item itemId) past := by
  have hrow : ∃ item ∈ past.committed.items, item.id = itemId := by
    cases pass with
    | sweep batchId trigger maxItems =>
        obtain ⟨item, hlisted, rfl⟩ := List.mem_map.mp hitem
        have hsorted := List.mem_of_mem_take hlisted
        rw [List.mem_insertionSort] at hsorted
        exact ⟨item, (List.mem_filter.mp hsorted).1, rfl⟩
    | drain limit =>
        obtain ⟨item, hlisted, rfl⟩ := List.mem_map.mp hitem
        have hsorted := List.mem_of_mem_take hlisted
        rw [List.mem_insertionSort] at hsorted
        exact ⟨item, (List.mem_filter.mp hsorted).1, rfl⟩
  obtain ⟨item, hmem, rfl⟩ := hrow
  refine ⟨item, hmem, fun row hsame => ?_⟩
  have hline : row.line = item.line := hsame
  have hlineId := congrArg ReconciliationItem.id hline
  have hid : row.id = item.id := hlineId
  simp [Table.keys, hid]

namespace RetryScheduler

/-- The list of a drain, at the time it asks for. -/
theorem wpr_list {limit : Nat} {ok : List String → List (Session system) → Shared system → Prop}
    {error : Exception → List (Session system) → Shared system → Prop}
    (hfresh : shared.eventsOf worker = [])
    (hok : ∀ past cutoff shared', Asked db worker [.began SessionName.retryList] past shared' →
      Clocked worker [.began .retryList] cutoff shared' →
      shared'.eventsOf worker = [.began .retryList, .committed .retryList []] →
      ok ((SettlementPass.drain limit).lists cutoff past.committed) [] shared') :
    wpr (historyDiscipline db) worker
      (Async.withSession .retryList (ReconciliationItemRepository.listRetryableIds limit)) ok error
      [] shared := by
  refine wpr_withSession fun shared₁ rely₁ _ _ good₁ => ?_
  unfold ReconciliationItemRepository.listRetryableIds
  rw [wpr_bind]
  refine Async.wpr_now fun shared₂ progress₂ => ?_
  refine wpr_select (Y := system) fun shared₃ progress₃ => ?_
  have hclock : shared₂.eventsOf worker = [.began .retryList] := by
    rw [progress₂.rely.events, Shared.eventsOf_log, rely₁.events, hfresh, List.nil_append]
  have hopen : shared₃.eventsOf worker = [.began .retryList] := by
    rw [progress₃.rely.events, hclock]
  refine ⟨_, rfl, fun shared₄ rely₄ good₄ _ _ => ⟨trivial, history_commit good₄.2 worker _, ?_⟩⟩
  refine hok shared₃ shared₂.world.clock _ ?_ ?_ ?_
  · exact ⟨(Since.of_rely rely₄).commit _, hopen, progress₃.good.2, progress₃.good.1⟩
  · exact ⟨shared₂, ((Since.of_rely progress₃.rely).rely rely₄).commit _, hclock, rfl⟩
  · rw [Shared.eventsOf_commit, rely₄.events, hopen]
    simp [Session.fresh]

theorem ends_drain {limit : Nat} (positive : 0 < settings.reconcileRetryBackoffBaseSeconds)
    (hfresh : shared.eventsOf worker = []) :
    wpr (historyDiscipline db) worker (drain settings limit)
      (fun _ _ => SettlementPassEnded settings (.drain limit) db worker (.ok ()))
      (fun raised _ => SettlementPassEnded settings (.drain limit) db worker (.error raised)) []
      shared := by
  unfold drain
  rw [wpr_bind]
  refine wpr_list hfresh fun past cutoff shared₁ asked clocked hlist => ?_
  have hended (raised : Bool) {result : Except Exception Unit} {stack : List (Session system)}
      {later : Shared system}
      (hreturned : raised = false → result = .ok ())
      (hbroke : raised = true → ∃ thrown, result = .error thrown)
      (h : Since shared₁ later ∧ TookTurns (SettlementPass.drain limit).ItemTurn Aborted worker
        [.began .retryList, .committed .retryList []] []
        ((SettlementPass.drain limit).lists cutoff past.committed) raised stack later) :
      SettlementPassEnded settings (.drain limit) db worker result later := by
    obtain ⟨since, turns, hturns, -, hevents⟩ := h
    refine .inr ⟨[], _, _, [], turns, raised, ?_, (List.append_nil _).symm, hturns,
      fun h => absurd rfl h, hreturned, hbroke⟩
    refine ⟨⟨past, cutoff, { asked with before := asked.before.trans since },
      clocked.since since, rfl⟩, [], ?_⟩
    rw [List.append_nil]
    exact hevents
  have hkept (itemId : String)
      (hitem : itemId ∈ (SettlementPass.drain limit).lists cutoff past.committed) :
      Async.Kept .reconciliationItem (.item itemId) shared₁ :=
    (SettlementPass.kept_of_lists hitem).since asked.before
  refine wpr_mono (wpr_since (turns_drainAll limit positive hlist hkept) (Since.refl shared₁)) ?_ ?_
  · intro _ stack later h
    exact hended false (fun _ => rfl) (fun h => Bool.noConfusion h) h
  · intro raised stack later h
    exact hended true (fun h => Bool.noConfusion h) (fun _ => ⟨raised, rfl⟩) h

end RetryScheduler

namespace ReconciliationService

theorem stays_start (batchId trigger : String) :
    Stays (ReconciliationRunRepository.start batchId trigger) :=
  .bind (Async.stays_newId _) fun _ => .bind Async.stays_now fun _ =>
    .bind (Async.stays_add _ _) fun _ => .pure _

/-- The row of the run is committed, or refused. -/
theorem wpr_start {batchId trigger : String} (hfresh : shared.eventsOf worker = []) :
    wpr (historyDiscipline db) worker
      (Async.withSession .runStart (ReconciliationRunRepository.start batchId trigger))
      (fun run stack' shared' => stack' = [] ∧
        Async.Kept .reconciliationRun (.run run.id) shared' ∧ run.batchId = batchId ∧
        ∃ writes, shared'.eventsOf worker =
          [.began .runStart, .committed .runStart writes])
      (fun _ _ shared' => shared'.eventsOf worker = [.began .runStart, .rolledBack .runStart])
      [] shared := by
  have hevents : wpr (historyDiscipline db) worker
      (Async.withSession .runStart (ReconciliationRunRepository.start batchId trigger))
      (fun _ stack' shared' => stack' = [] ∧ ∃ writes, shared'.eventsOf worker =
        [.began .runStart, .committed .runStart writes])
      (fun _ _ shared' => shared'.eventsOf worker = [.began .runStart, .rolledBack .runStart])
      [] shared :=
    wpr_transaction (stays_start batchId trigger) hfresh
      (fun run writes shared' h => ⟨rfl, writes, h⟩) fun raised shared' h => h
  have hrow : wpr (historyDiscipline db) worker
      (Async.withSession .runStart (ReconciliationRunRepository.start batchId trigger))
      (fun run _ shared' => Async.Kept .reconciliationRun (.run run.id) shared' ∧
        run.batchId = batchId)
      (fun _ _ _ => True) [] shared := by
    refine wpr_withSession fun shared₁ _ _ _ _ => ?_
    unfold ReconciliationRunRepository.start
    rw [wpr_bind]
    refine Async.wpr_newId fun shared₂ body _ => ?_
    rw [wpr_bind]
    refine Async.wpr_now fun shared₃ _ => ?_
    rw [wpr_bind]
    refine Async.wpr_add (fun shared₄ _ _ _ => ?_) fun shared₄ _ _ => ?_
    · refine ⟨_, rfl, fun shared₅ _ good₅ _ _ => ⟨trivial, history_commit good₅.2 worker _, ?_⟩⟩
      refine ⟨Async.Kept.of_insert (fun row hsame => ?_) rfl, rfl⟩
      have hid := congrArg Prod.fst hsame
      exact List.mem_singleton.mpr (congrArg Key.run hid.symm)
    · exact ⟨_, rfl, fun _ _ _ _ => trivial⟩
  refine wpr_mono (wpr_and hevents hrow) ?_ ?_
  · rintro run stack' shared' ⟨⟨hstack, hcommitted⟩, hkept, hbatch⟩
    exact ⟨hstack, hkept, hbatch, hcommitted⟩
  · rintro raised stack' shared' ⟨h, -⟩
    exact h

/-- Where the guarded part of a sweep has come to. -/
def Swept (settings : Settings) (pass : SettlementPass) (db : Database) (worker : Nat)
    (writes : List (Write schema)) (names : List SessionName) (raised : Bool)
    (stack : List (Session system)) (shared : Shared system) : Prop :=
  ∃ past cutoff, Asked db worker (pass.opening writes ++ [Event.began pass.listing]) past shared ∧
    Clocked worker (pass.opening writes ++ [Event.began pass.listing]) cutoff shared ∧
    TookSome pass settings worker (pass.listed writes) (pass.listed writes) names
      (pass.lists cutoff past.committed) raised stack shared

theorem turns_guardedPass (batchId trigger : String) (maxItems : Nat)
    {writes : List (Write schema)} {guard : Session system}
    (hopening : shared.eventsOf worker =
      (SettlementPass.sweep batchId trigger maxItems).opening writes) :
    wpr (historyDiscipline db) worker (guardedPass settings batchId maxItems)
      (fun _ => Swept settings (.sweep batchId trigger maxItems) db worker writes [guard.name]
        false)
      (fun _ => Swept settings (.sweep batchId trigger maxItems) db worker writes [guard.name]
        true) [guard] shared := by
  unfold guardedPass
  rw [wpr_bind]
  refine wpr_acquire (Y := system) fun shared₁ progress₁ => ?_
  have hopen : shared₁.eventsOf worker =
      (SettlementPass.sweep batchId trigger maxItems).opening writes := by
    rw [progress₁.rely.events, hopening]
  rw [wpr_bind]
  refine wpr_asks id rfl hopen fun past shared₂ asked hlist => ?_
  rw [wpr_bind]
  refine Async.wpr_now fun shared₃ progress₃ => ?_
  have hsince : Since shared₂ shared₃ := Since.of_rely progress₃.rely
  have hlisted : shared₃.eventsOf worker =
      (SettlementPass.sweep batchId trigger maxItems).listed writes := by
    rw [progress₃.rely.events, hlist]
    rfl
  have hkept (itemId : String) (hitem : itemId ∈ (SettlementPass.sweep batchId trigger
      maxItems).lists past.world.clock past.committed) :
      Async.Kept .reconciliationItem (.item itemId) shared₃ :=
    (SettlementPass.kept_of_lists hitem).since (asked.before.trans hsince)
  have hclocked : Clocked worker ((SettlementPass.sweep batchId trigger maxItems).listed writes)
      shared₃.world.clock shared₃ := ⟨shared₃, Since.refl _, hlisted, rfl⟩
  have hswept {raised : Bool} {stack : List (Session system)} {later : Shared system}
      (h : Since shared₃ later ∧ TookSome (.sweep batchId trigger maxItems) settings worker
        ((SettlementPass.sweep batchId trigger maxItems).listed writes)
        ((SettlementPass.sweep batchId trigger maxItems).listed writes) [guard.name]
        ((SettlementPass.sweep batchId trigger maxItems).lists past.world.clock past.committed)
        raised stack later) :
      Swept settings (.sweep batchId trigger maxItems) db worker writes [guard.name] raised stack
        later := by
    obtain ⟨since, took⟩ := h
    have hlater : Since past later := (asked.before.trans hsince).trans since
    exact ⟨past, _, { asked with before := hlater }, ⟨past, hlater, asked.events, rfl⟩, took⟩
  refine wpr_mono (wpr_since (turns_sweepItems batchId trigger maxItems hlisted hclocked hkept)
    (Since.refl shared₃)) ?_ ?_
  · intro _ stack later h
    exact hswept h
  · intro _ stack later h
    exact hswept h

/-- The guard transaction ends as the turns did. -/
theorem wpr_guard (batchId trigger : String) (maxItems : Nat) {writes : List (Write schema)}
    (hstarted : shared.eventsOf worker = [.began .runStart, .committed .runStart writes]) :
    wpr (historyDiscipline db) worker
      (Async.withSession (.sweepGuard batchId) (guardedPass settings batchId maxItems))
      (fun _ stack' shared' => stack' = [] ∧ ∃ stack past, Since past shared' ∧
        Swept settings (.sweep batchId trigger maxItems) db worker writes [.sweepGuard batchId]
          false stack past ∧
        ∃ ending, shared'.eventsOf worker = past.eventsOf worker ++ ending)
      (fun _ stack' shared' => stack' = [] ∧ ∃ stack past, Since past shared' ∧
        Swept settings (.sweep batchId trigger maxItems) db worker writes [.sweepGuard batchId]
          true stack past ∧
        ∃ ending, shared'.eventsOf worker = past.eventsOf worker ++ ending) [] shared := by
  refine wpr_withSession fun shared₁ rely₁ _ _ good₁ => ?_
  have hopening : (shared₁.log worker (.began (.sweepGuard batchId))).eventsOf worker =
      (SettlementPass.sweep batchId trigger maxItems).opening writes := by
    rw [Shared.eventsOf_log, rely₁.events, hstarted]
    rfl
  refine wpr_mono (turns_guardedPass batchId trigger maxItems hopening) ?_ ?_
  · rintro stats stack shared₂ swept
    obtain ⟨past, cutoff, asked, clocked, attempted, left, turns, hitems, hturns, hrests, hleft⟩ :=
      id swept
    obtain ⟨guard, rfl, hname⟩ : ∃ guard, stack = [guard] ∧ guard.name = .sweepGuard batchId :=
      List.map_eq_singleton_iff.mp hrests.1
    refine ⟨guard, rfl, fun shared₃ rely₃ good₃ _ _ => ⟨trivial, history_commit good₃.2 worker _,
      rfl, [guard], shared₂, (Since.of_rely rely₃).commit guard, swept, ?_⟩⟩
    exact ⟨_, by rw [Shared.eventsOf_commit, rely₃.events]⟩
  · rintro raised stack shared₂ swept
    obtain ⟨past, cutoff, asked, clocked, attempted, left, turns, hitems, hturns, hrests, hleft⟩ :=
      id swept
    obtain ⟨guard, rfl, hname⟩ : ∃ guard, stack = [guard] ∧ guard.name = .sweepGuard batchId :=
      List.map_eq_singleton_iff.mp hrests.1
    refine ⟨guard, rfl, fun shared₃ rely₃ _ _ => ⟨rfl, [guard], shared₂,
      (Since.of_rely rely₃).log _, swept, ?_⟩⟩
    exact ⟨_, by rw [Shared.eventsOf_log, rely₃.events]⟩

/-- The sweep of a swept batch has ended, if its run is closed where nothing was raised. -/
theorem Swept.ended {pass : SettlementPass} {writes : List (Write schema)}
    {names : List SessionName} {raised : Bool} {stack : List (Session system)}
    {past later : Shared system} (swept : Swept settings pass db worker writes names raised stack
      past) (since : Since past later)
    (hevents : ∃ ending, later.eventsOf worker = past.eventsOf worker ++ ending)
    (hbudget : ∀ before after, OverBudget settings worker before after later →
      pass.Stopped settings worker before after later)
    (hfinished : raised = false → pass.Finished worker result later)
    (hbroke : raised = true → pass.BrokeOff result) :
    SettlementPassEnded settings pass db worker result later := by
  obtain ⟨earlier, cutoff, asked, clocked, attempted, left, turns, hitems, hturns, hrests, hleft⟩ :=
    swept
  obtain ⟨ending, hending⟩ := hevents
  refine .inr ⟨writes, _, attempted, left, turns, raised, ?_, hitems, hturns, fun h => ?_,
    hfinished, hbroke⟩
  · refine ⟨⟨earlier, cutoff, { asked with before := asked.before.trans since },
      clocked.since since, rfl⟩, ending, ?_⟩
    rw [hending, hrests.2]
  · exact ⟨(hleft h).1, hbudget _ _ ((hleft h).2.since since)⟩

/-- Closing the run and the batch. -/
theorem wpr_finish {batchId runId : String} {itemsTotal settled failed postedTotalMinor : Int}
    {status : RunStatus} {errorSummary : Option String} {fullySettled : Bool}
    {history : List (Event system)} (hhistory : shared.eventsOf worker = history)
    (run : Async.Kept .reconciliationRun (.run runId) shared)
    (batch : Async.Kept .settlementBatch (.batch batchId) shared) :
    wpr (historyDiscipline db) worker
      (Async.withSession (.sweepFinish batchId) do
        let finished ← ReconciliationRunRepository.finish runId itemsTotal settled failed status
          errorSummary
        let stamp ← Async.now
        SettlementBatchRepository.markReconciled batchId postedTotalMinor fullySettled stamp
        pure finished)
      (fun _ stack' shared' => stack' = [] ∧ ∃ writes, shared'.eventsOf worker =
        history ++ ([.began (.sweepFinish batchId),
          .committed (.sweepFinish batchId) writes] : List (Event system)))
      (fun _ _ _ => False) [] shared := by
  refine wpr_committed ?_ hhistory (fun shared₁ since₁ good₁ => ?_)
    fun _ writes shared' h => ⟨rfl, writes, h⟩
  · refine .bind (.bind (Async.stays_getOrRaise _ _ _) fun _ => .bind Async.stays_now fun _ =>
      .bind (Async.stays_update _ _ _ _) fun _ => .pure _) fun _ => .bind Async.stays_now fun _ =>
        ?_
    exact .bind (.bind (Async.stays_getOrRaise _ _ _) fun _ => .bind (.mark _) fun _ =>
      SettlementBatch.stays_flush _ _) fun _ => .pure _
  · unfold ReconciliationRunRepository.finish SettlementBatchRepository.markReconciled
    rw [wpr_bind, wpr_bind]
    refine Async.wpr_kept (run.since since₁) fun shared₂ row progress₂ => ?_
    rw [wpr_bind]
    refine Async.wpr_now fun shared₃ progress₃ => ?_
    rw [wpr_bind]
    refine Async.wpr_rekeyed (fun _ => rfl) fun shared₄ top progress₄ => ?_
    rw [wpr_pure, wpr_bind]
    refine Async.wpr_now fun shared₅ progress₅ => ?_
    rw [wpr_bind, wpr_bind]
    have since₅ : Since shared₁ shared₅ :=
      (((Since.of_rely progress₂.rely).rely progress₃.rely).rely progress₄.rely).rely progress₅.rely
    refine Async.wpr_kept ((batch.since since₁).since since₅) fun shared₆ loaded progress₆ => ?_
    rw [wpr_bind]
    refine Async.wpr_mark RetryScheduler.freeMarks_history rfl progress₆.here fun shared₇ _ => ?_
    unfold SettlementBatch.flush
    split
    · trivial
    · exact Async.wpr_rekeyed (fun _ => rfl) fun _ _ _ => trivial

theorem stays_publishChunks (run : ReconciliationRun) (stats : ReconcilePassStats)
    (batch : SettlementBatch) (count index : Nat) (chunks : List (List String)) :
    Stays (publishChunks run stats batch count index chunks) := by
  induction chunks generalizing index with
  | nil => trivial
  | cons chargeIds chunks ih =>
      exact .bind Async.stays_now fun _ => .bind (OutboxPublisher.stays_publish _ _ _ _ _)
        fun _ => ih (index + 1)

/-- The announcement of a pass adds a transaction to what the worker did, and nothing else. -/
theorem ends_publishCompletion {run : ReconciliationRun} {stats : ReconcilePassStats} :
    wpr (historyDiscipline db) worker (publishCompletion run stats)
      (fun _ _ shared' => ∃ ending, shared'.eventsOf worker = shared.eventsOf worker ++ ending)
      (fun _ _ shared' => ∃ ending, shared'.eventsOf worker = shared.eventsOf worker ++ ending)
      [] shared := by
  refine wpr_transaction (.bind (Async.stays_getOrRaise _ _ _) fun batch => ?_) rfl
    (fun _ writes shared' h => ⟨_, h⟩) fun _ shared' h => ⟨_, h⟩
  split
  · exact .bind Async.stays_now fun _ => OutboxPublisher.stays_publish _ _ _ _ _
  · exact stays_publishChunks _ _ _ _ _ _

theorem ends_reconcileBatch {batchId trigger : String} {maxItems : Nat}
    (hbatch : Async.Kept .settlementBatch (.batch batchId) shared)
    (hfresh : shared.eventsOf worker = []) :
    wpr (historyDiscipline db) worker (reconcileBatch settings batchId trigger maxItems)
      (fun _ _ => SettlementPassEnded settings (.sweep batchId trigger maxItems) db worker (.ok ()))
      (fun raised _ => SettlementPassEnded settings (.sweep batchId trigger maxItems) db worker
        (.error raised)) [] shared := by
  unfold reconcileBatch
  rw [wpr_bind]
  refine wpr_mono (wpr_since (wpr_start hfresh) (Since.refl shared)) ?_ ?_
  · rintro run stack₁ shared₁ ⟨since₁, rfl, hrun, hrunBatch, writes, hstarted⟩
    rw [wpr_bind]
    refine wpr_mono (wpr_since (wpr_guard batchId trigger maxItems hstarted) (Since.refl shared₁))
      ?_ ?_
    · rintro stats stack₂ shared₂ ⟨since₂, rfl, stack, past, since, swept, hevents⟩
      rw [wpr_bind]
      refine wpr_mono (wpr_since (wpr_finish rfl (hrun.since since₂)
        ((hbatch.since since₁).since since₂)) (Since.refl shared₂)) ?_ ?_
      · rintro finished stack₃ shared₃ ⟨since₃, rfl, closing, hclosed⟩
        have hended {result : Except Exception Unit} {later : Shared system}
            (since₄ : Since shared₃ later)
            (hlater : ∃ ending, later.eventsOf worker = shared₃.eventsOf worker ++ ending) :
            SettlementPassEnded settings (.sweep batchId trigger maxItems) db worker result
              later := by
          obtain ⟨ending, hending⟩ := hlater
          obtain ⟨before, hbefore⟩ := hevents
          refine swept.ended ((since.trans since₃).trans since₄) ⟨before ++ ([.began
              (.sweepFinish batchId), .committed (.sweepFinish batchId) closing] ++ ending), ?_⟩
            (fun _ _ h => h) (fun _ => ⟨closing, ?_⟩) fun _ => trivial
          · rw [hending, hclosed, hbefore, List.append_assoc, List.append_assoc]
          · rw [hending, hclosed]
            simp
        rw [wpr_bind]
        refine wpr_mono (wpr_since ends_publishCompletion (Since.refl shared₃)) ?_ ?_
        · rintro _ stack₄ later ⟨since₄, h⟩
          exact hended since₄ h
        · rintro _ stack₄ later ⟨since₄, h⟩
          exact hended since₄ h
      · rintro raised stack₃ shared₃ ⟨-, hfalse⟩
        exact hfalse.elim
    · rintro raised stack₂ shared₂ ⟨since₂, rfl, stack, past, since, swept, hevents⟩
      exact swept.ended since hevents (fun _ _ h => h) nofun fun _ => trivial
  · rintro raised stack₁ shared₁ ⟨-, hrefused⟩
    left
    rw [hrefused]
    simp

end ReconciliationService

theorem SettlementPass.wp_run {pass : SettlementPass} {world : World}
    {programs : List (Program system (Except Exception Unit))} (ready : pass.Ready settings db) :
    wp (historyDiscipline db) worker (pass.run settings).run
      (fun result _ => SettlementPassEnded settings pass db worker result) []
      (Config.start db world programs).shared := by
  have hending : wpr (historyDiscipline db) worker (pass.run settings)
      (fun _ _ => SettlementPassEnded settings pass db worker (.ok ()))
      (fun raised _ => SettlementPassEnded settings pass db worker (.error raised)) []
      (Config.start db world programs).shared := by
    cases pass with
    | sweep batchId trigger maxItems =>
        obtain ⟨batch, hbatch, rfl⟩ := ready
        unfold SettlementPass.run
        rw [wpr_bind]
        refine ReconciliationService.ends_reconcileBatch ⟨batch, hbatch, fun row hsame => ?_⟩ rfl
        have hfile : row.file = batch.file := hsame
        have hid := congrArg SettlementBatch.id hfile
        have hsameId : row.id = batch.id := hid
        simp [Table.keys, hsameId]
    | drain limit =>
        unfold SettlementPass.run
        rw [wpr_bind]
        exact RetryScheduler.ends_drain ready rfl
  refine wp_mono hending fun result _ _ h => ?_
  cases result with
  | ok value => exact h
  | error raised => exact h

end Pass

/-! ## Runs -/

namespace SettlementPass.ItemTurn

variable {pass : SettlementPass} {itemId : String} {turn : List (Event system)}

end SettlementPass.ItemTurn

section Run

variable {settings : Settings} {pass : SettlementPass} {db : Database} {worker : Nat}
  {shared : Shared system} {result : Except Exception Unit}

end Run

/-- Whether the first worker has ended without an error. -/
def outcome (config : Config system (Except Exception Unit)) : Option Bool :=
  match config.workers with
  | ⟨_, .ret result⟩ :: _ => some result.isOk
  | _ => none

end PayzenoLedger
