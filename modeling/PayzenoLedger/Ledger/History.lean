import PayzenoLedger.Ledger.DoubleEntry
import PayzenoLedger.Library.Soundness

/-!
# Histories of ledger calls

A worker runs one transaction that makes any list of calls of the poster, and
any number of workers are interleaved.  What every valid posting keeps holds in
every reachable database, and the trace tells which calls wrote.
-/

set_option autoImplicit false

namespace PayzenoLedger

open Library Write

/-! ## Calls -/

inductive LedgerCall where
  | post (request : PostRequest)
  | reverse (original : LedgerTransaction) (idempotencyKey : String) (createdBy : Actor)

namespace LedgerCall

def run : LedgerCall → Async PostResult
  | .post request => LedgerPoster.post request
  | .reverse original idempotencyKey createdBy =>
      LedgerPoster.reverse original idempotencyKey createdBy

def runAll : List LedgerCall → Async (List PostResult)
  | [] => pure []
  | call :: calls => do
      let result ← call.run
      let results ← runAll calls
      pure (result :: results)

/-- A caller's transaction: a call that raises rolls all of it back. -/
def transaction (calls : List LedgerCall) : Async (List PostResult) :=
  Async.withSession .ledgerCalls (runAll calls)

end LedgerCall

/-- The workers that run one transaction each. -/
def ledgerWorkers (transactions : List (List LedgerCall)) :
    List (Program system (Except Exception (List PostResult))) :=
  transactions.map fun calls => (LedgerCall.transaction calls).run

/-! ## The discipline of the poster -/

/-- An invariant of the database that valid postings and links keep. -/
structure LedgerInvariant (invariant : Database → Prop) : Prop where
  post : ∀ (posting : Posting) (db : Database), posting.Valid db → invariant db →
    invariant (applyAll posting.writes db)
  link : ∀ (db : Database) (transactionId originalId : String), invariant db →
    invariant (applyAll (linkWrites transactionId originalId) db)

/-- Every step keeps the invariant of the database; nothing is required of the
steps themselves. -/
def ledgerDiscipline (invariant : Database → Prop) : Discipline system where
  permits := anyMove
  guarantee _ _ _ _ := True
  invariant shared := invariant shared.committed
  required _ := none
  meaning _ _ := True
  meaning_extends _ _ _ _ h := h
  drift_sound _ _ _ h _ := h
  enter_sound _ _ _ _ h _ := ⟨trivial, h⟩
  rollback_sound _ _ _ _ h _ := ⟨trivial, h⟩
  crash_sound _ _ _ h _ := ⟨trivial, h⟩

/-- A call that created nothing wrote nothing. -/
def WroteIfCreated (result : PostResult) (writes : List (Write schema)) : Prop :=
  result.created = false → writes = []

section Calls

variable {invariant : Database → Prop} {worker : Nat}
  {error : Exception → List (Session system) → Shared system → Prop}
  {top : Session system} {rest : List (Session system)} {shared : Shared system}

theorem LedgerCall.wpr_run (inv : LedgerInvariant invariant) {call : LedgerCall}
    {ok : PostResult → List (Session system) → Shared system → Prop}
    (hok : ∀ shared' top' result writes,
      Progress (ledgerDiscipline invariant) worker rest top shared top' shared' →
      top'.writes = top.writes ++ writes → WroteIfCreated result writes →
      Keeps top'.keys top'.writes shared' invariant → ok result (top' :: rest) shared')
    (herror : ∀ shared' top' raised,
      Progress (ledgerDiscipline invariant) worker rest top shared top' shared' →
      error raised (top' :: rest) shared')
    (start : Progress (ledgerDiscipline invariant) worker rest top shared top shared)
    (keeps : Keeps top.keys top.writes shared invariant) :
    wpr (ledgerDiscipline invariant) worker call.run ok error (top :: rest) shared := by
  cases call with
  | post request =>
      refine LedgerPoster.wpr_post
        (fun shared' top' posting progress _ hwrites hvalid _ => ?_)
        (fun shared' existing progress _ _ _ => ?_) herror start
      · refine hok shared' top' _ posting.writes progress hwrites (fun h => by cases h) ?_
        rw [hwrites]
        exact (keeps.later (progress.later start.good) progress.keys).append hvalid
          fun db valid h => inv.post posting db valid h
      · exact hok shared' top _ [] progress (List.append_nil _).symm (fun _ => rfl)
          (keeps.later (progress.later start.good) fun _ h => h)
  | reverse original idempotencyKey createdBy =>
      refine LedgerPoster.wpr_reverse
        (fun shared₁ shared' top' posting _ progress₁ progress₂ _ _ _ hwrites hvalid => ?_)
        herror
      have progress := progress₁.trans progress₂
      refine hok shared' top' _ (posting.writes ++ linkWrites posting.header.id original.id)
        progress (by rw [hwrites, List.append_assoc]) (fun h => by cases h) ?_
      rw [hwrites, List.append_assoc]
      refine (keeps.later (progress.later start.good) progress.keys).append hvalid
        fun db valid h => ?_
      rw [applyAll_append]
      exact inv.link _ _ _ (inv.post posting db valid h)

theorem LedgerCall.wpr_runAll (inv : LedgerInvariant invariant) {calls : List LedgerCall}
    {ok : List PostResult → List (Session system) → Shared system → Prop}
    (hok : ∀ shared' top' results groups,
      Progress (ledgerDiscipline invariant) worker rest top shared top' shared' →
      top'.writes = top.writes ++ groups.flatten →
      List.Forall₂ WroteIfCreated results groups →
      Keeps top'.keys top'.writes shared' invariant → ok results (top' :: rest) shared')
    (herror : ∀ shared' top' raised,
      Progress (ledgerDiscipline invariant) worker rest top shared top' shared' →
      error raised (top' :: rest) shared')
    (start : Progress (ledgerDiscipline invariant) worker rest top shared top shared)
    (keeps : Keeps top.keys top.writes shared invariant) :
    wpr (ledgerDiscipline invariant) worker (LedgerCall.runAll calls) ok error
      (top :: rest) shared := by
  induction calls generalizing top shared ok with
  | nil => exact hok shared top [] [] start (by simp) .nil keeps
  | cons call calls ih =>
      unfold LedgerCall.runAll
      rw [wpr_bind]
      refine LedgerCall.wpr_run inv
        (fun shared₁ top₁ result writes progress₁ hwrites₁ hwrote keeps₁ => ?_)
        herror start keeps
      rw [wpr_bind]
      refine ih (fun shared₂ top₂ results groups progress₂ hwrites₂ hgroups keeps₂ => ?_)
        (fun shared₂ top₂ raised progress₂ =>
          herror shared₂ top₂ raised (progress₁.trans progress₂)) progress₁.here keeps₁
      exact hok shared₂ top₂ _ (writes :: groups) (progress₁.trans progress₂)
        (by simp [hwrites₂, hwrites₁]) (.cons hwrote hgroups) keeps₂

end Calls

/-! ## Runs -/

/-- What a finished worker left in the trace: the writes of its calls, group by
group, or a rollback. -/
def LedgerFinished (worker : Nat) (result : Except Exception (List PostResult))
    (_ : List (Session system)) (shared : Shared system) : Prop :=
  match result with
  | .ok results => ∃ groups, List.Forall₂ WroteIfCreated results groups ∧
      shared.eventsOf worker =
        [.began .ledgerCalls, .committed .ledgerCalls groups.flatten]
  | .error _ =>
      shared.eventsOf worker = [.began .ledgerCalls, .rolledBack .ledgerCalls]

theorem stable_ledgerFinished (invariant : Database → Prop) :
    StablePost (ledgerDiscipline invariant) LedgerFinished := by
  intro worker result stack shared shared' _ rely h
  have hevents := rely.events
  cases result <;> simpa only [LedgerFinished, hevents] using h

theorem LedgerCall.wp_transaction {invariant : Database → Prop}
    (inv : LedgerInvariant invariant) (worker : Nat) (calls : List LedgerCall)
    {shared : Shared system} (hfresh : shared.eventsOf worker = []) :
    wp (ledgerDiscipline invariant) worker (LedgerCall.transaction calls).run
      (LedgerFinished worker) [] shared := by
  have hending : wpr (ledgerDiscipline invariant) worker (LedgerCall.transaction calls)
      (fun results => LedgerFinished worker (.ok results))
      (fun raised => LedgerFinished worker (.error raised)) [] shared := by
    refine wpr_withSession fun shared₁ rely₁ _ _ good₁ => ?_
    have hbegan : (shared₁.log worker (.began SessionName.ledgerCalls)).eventsOf worker =
        [.began .ledgerCalls] := by
      rw [Shared.eventsOf_log, rely₁.events, hfresh, List.nil_append]
    refine LedgerCall.wpr_runAll inv
      (fun shared₂ top results groups progress hwrites hgroups keeps => ?_)
      (fun shared₂ top raised progress => ?_) (Progress.start good₁) Keeps.nil
    · refine ⟨top, rfl, fun shared₃ rely₃ good₃ _ _ => ⟨trivial, ?_, groups, hgroups, ?_⟩⟩
      · have hlater := (Progress.of_rely progress.good progress.foot rely₃).later progress.good
        exact (keeps.later hlater fun _ h => h).now good₃.1 good₃.2
      · rw [Shared.eventsOf_commit, rely₃.events, progress.rely.events, hbegan,
          progress.name, hwrites]
        rfl
    · refine ⟨top, rfl, fun shared₃ rely₃ _ _ => ?_⟩
      change Shared.eventsOf _ _ = _
      rw [Shared.eventsOf_log, rely₃.events, progress.rely.events, hbegan, progress.name]
      rfl
  refine wp_mono hending fun result stack shared' h => ?_
  cases result <;> exact h

/-- In every reachable configuration the invariant holds, the database is what
the commits made it, and finished workers wrote what their results say. -/
theorem ledger_run {invariant : Database → Prop} (inv : LedgerInvariant invariant)
    {db : Database} {world : World} (unique : Schema.Unique (S := schema) db)
    (hinvariant : invariant db) (transactions : List (List LedgerCall))
    {config : Config system (Except Exception (List PostResult))}
    (hrun : Config.Run anyMove (Config.start db world (ledgerWorkers transactions)) config) :
    Sound (ledgerDiscipline invariant) LedgerFinished config ∧
      config.shared.committed = replay db config.shared.trace := by
  refine ⟨?_, hrun.replay⟩
  refine Sound.run (stable_ledgerFinished invariant)
    (Sound.start ⟨unique, hinvariant⟩ fun worker program hprogram => ?_) hrun
  simp only [ledgerWorkers, List.getElem?_map, Option.map_eq_some_iff] at hprogram
  obtain ⟨calls, -, rfl⟩ := hprogram
  exact LedgerCall.wp_transaction inv worker calls rfl

/-! ## Double entry in every reachable ledger -/

theorem doubleEntry_ledgerInvariant : LedgerInvariant DoubleEntry where
  post _ _ valid ledger := valid.doubleEntry ledger
  link _ transactionId originalId ledger := ledger.link transactionId originalId

/-- Whatever transactions of ledger calls are interleaved, double entry holds in
every reachable ledger, debits equal credits over the whole of it, and a call
that conflicts or raises leaves no write in it. -/
theorem doubleEntry_of_ledger_calls {db : Database} {world : World}
    (unique : Schema.Unique (S := schema) db) (ledger : DoubleEntry db)
    (transactions : List (List LedgerCall))
    {config : Config system (Except Exception (List PostResult))}
    (hrun : Config.Run anyMove (Config.start db world (ledgerWorkers transactions)) config) :
    DoubleEntry config.shared.committed ∧
      (∀ currency livemode,
        entryTotal .debit (entriesIn currency livemode config.shared.committed.entries) =
          entryTotal .credit (entriesIn currency livemode config.shared.committed.entries)) ∧
      config.shared.committed = replay db config.shared.trace ∧
      ∀ worker stack result, config.workers[worker]? = some ⟨stack, .ret result⟩ →
        LedgerFinished worker result stack config.shared := by
  obtain ⟨sound, hreplay⟩ := ledger_run doubleEntry_ledgerInvariant unique ledger transactions
    hrun
  refine ⟨sound.good.2, fun currency livemode => ?_, hreplay, fun worker stack result h => ?_⟩
  · exact DoubleEntry.total sound.good.2 sound.good.1 currency livemode
  · exact (sound.ready worker _ h).program

/-- A sale of five euros credited to a merchant. -/
def samplePosting : PostRequest where
  idempotencyKey := "settle:sb_1:ri_1"
  purpose := .settle
  merchantId := some "mer_1"
  currency := "EUR"
  livemode := true
  referenceType := .reconciliationItem
  referenceId := "ri_1"
  lines := [debit .cash 500, credit .merchantPayable 500]
  createdBy := .reconciliation
  requestFingerprint := "sale"

/-- The steps of one worker that posts it and commits. -/
def sampleSchedule : List (Action system) :=
  advances 0 [.plain, .id "1", .instant 3, .plain, .plain, .plain, .id "1", .plain, .id "1",
   .instant 3, .plain, .id "2", .plain, .id "2", .instant 3, .plain, .plain, .plain,
   .plain, .id "1", .plain, .plain]

theorem doubleEntry_of_ledger_calls_sample :
    ∃ config, Config.Run anyMove
        (Config.start ({} : Database) ({ clock := 10 } : World)
          (ledgerWorkers [[.post samplePosting], []])) config ∧
      config.shared.committed.entries.length = 2 ∧ DoubleEntry config.shared.committed := by
  have hschedule : ((Config.start (Y := system) ({} : Database) ({ clock := 10 } : World)
      (ledgerWorkers [[.post samplePosting], []])).schedule anyMove sampleSchedule).map
        (fun config => config.shared.committed.entries.length) = some 2 := by
    decide +kernel
  obtain ⟨config, hconfig, hlength⟩ := Option.map_eq_some_iff.mp hschedule
  have hrun := Config.run_of_schedule hconfig
  refine ⟨config, hrun, hlength, ?_⟩
  exact (doubleEntry_of_ledger_calls unique_empty
    ⟨by simp, by simp, by simp, by simp, by simp⟩ _ hrun).1

end PayzenoLedger
