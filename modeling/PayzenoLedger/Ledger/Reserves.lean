import PayzenoLedger.Ledger.History
import PayzenoLedger.Services.Reserves

/-!
# The release of holds

Holds are made, released and posted around by any number of workers.  The
identifier of a hold is cut from a key and contains the separator, so that no
release key can be built of it and the first hold that is due ends the pass.
-/

set_option autoImplicit false

namespace PayzenoLedger

open Library Write

/-! ## Jobs -/

inductive ReserveJob where
  | createHold (request : HoldRequest)
  | releaseDue (on : Date) (limit : Nat)
  | ledger (calls : List LedgerCall)

def ReserveJob.run (settings : Settings) : ReserveJob → Async Unit
  | .createHold request => do
      let _ ← Async.withSession
        (.createHold request.heldFromTransactionId request.amountMinor)
        (ReserveService.createHold request)
  | .releaseDue on limit => do
      let _ ← ReserveService.releaseDue settings on limit
  | .ledger calls => do
      let _ ← LedgerCall.transaction calls

/-- One worker for each job. -/
def reserveWorkers (settings : Settings) (jobs : List ReserveJob) :
    List (Program system (Except Exception Unit)) :=
  jobs.map fun job => (job.run settings).run

/-! ## The law -/

/-- The releases posted for a hold. -/
def releasesOf (holdId : String) (db : Database) : List LedgerTransaction :=
  db.transactions.filter fun transaction =>
    transaction.purpose = .reserveRelease ∧ transaction.referenceType = .reserveHold ∧
      transaction.referenceId = holdId

/-- One posting releases the hold for its amount, and the hold is marked with it. -/
def ReleasedOnce (hold : ReserveHold) (db : Database) : Prop :=
  ∃ transaction, releasesOf hold.id db = [transaction] ∧
    linesOf transaction.id db =
      [debit .reserve hold.amountMinor, credit .merchantPayable hold.amountMinor] ∧
    hold.releasedTransactionId = some transaction.id

/-- Every hold made is released exactly once, and a hold that is asked for another
source or amount gets another identifier. -/
structure HoldsReleased (jobs : List ReserveJob) (shared : Shared system) : Prop where
  distinct : ∀ hold ∈ shared.committed.holds, ∀ (worker : Nat) request key,
    jobs[worker]? = some (.createHold request) → shared.eventsOf worker ≠ [] →
    request.key = .ok key →
    (request.heldFromTransactionId, request.amountMinor) ≠
      (hold.heldFromTransactionId, hold.amountMinor) →
    cutKey key ≠ hold.id
  released : ∀ hold ∈ shared.committed.holds, ReleasedOnce hold shared.committed

/-! ## No hold is ever released -/

/-- Every hold waits under an identifier of which no key can be built. -/
def HoldsStuck (db : Database) : Prop :=
  ∀ hold ∈ db.holds, hasSeparator hold.id = true ∧ hold.releasedTransactionId = none

theorem holdsStuck_ledgerInvariant : LedgerInvariant HoldsStuck where
  post posting db _ stuck := by
    rw [posting.applyAll_writes]
    exact stuck
  link _ _ _ stuck := stuck

section Calls

variable {worker : Nat} {shared : Shared system}

theorem ReserveService.wpr_createHold {request : HoldRequest} {name : SessionName} :
    wpr (ledgerDiscipline HoldsStuck) worker (createHold request)
      (fun _ stack _ => ∃ top key, stack = [top] ∧ request.key = .ok key ∧
        top.writes = inserts .reserveHold [request.hold (cutKey key)])
      (fun _ stack _ => ∃ top, stack = [top]) [Session.fresh name] shared := by
  unfold createHold
  split
  · exact ⟨_, rfl⟩
  · rw [wpr_bind]
    refine Async.wpr_check (fun key hkey => ?_) fun _ _ => ⟨_, rfl⟩
    rw [wpr_bind]
    exact Async.wpr_add (fun _ _ _ _ => ⟨_, key, rfl, hkey, rfl⟩) fun _ _ _ => ⟨_, rfl⟩

/-- A hold on file is never released: no key is built for its posting. -/
theorem ReserveService.wpr_releaseOne {settings : Settings} {holdId : String}
    {name : SessionName} :
    wpr (ledgerDiscipline HoldsStuck) worker (releaseOne settings holdId)
      (fun _ _ _ => False) (fun _ stack _ => ∃ top, stack = [top]) [Session.fresh name]
      shared := by
  unfold releaseOne
  rw [wpr_bind]
  refine Async.wpr_getOrRaise (fun shared₁ hold progress₁ hhold => ?_) fun _ _ _ => ⟨_, rfl⟩
  obtain ⟨hrow, -⟩ := Schema.mem_holders.mp hhold
  have stuck : HoldsStuck shared₁.committed := progress₁.good.2
  obtain ⟨hseparator, hunreleased⟩ := stuck hold hrow
  split
  · next hreleased =>
      rw [hunreleased] at hreleased
      cases hreleased
  · rw [wpr_bind]
    refine Async.wpr_check (fun key hkey => ?_) fun _ _ => ⟨_, rfl⟩
    obtain ⟨message, herror⟩ := ledgerKey_separator "reserverelease"
      hold.merchantId _ (.inr hseparator)
    rw [herror] at hkey
    cases hkey

theorem ReserveService.wpr_releaseAll {settings : Settings} {holdIds : List String}
    {released : Nat} :
    wpr (ledgerDiscipline HoldsStuck) worker (releaseAll settings holdIds released)
      (fun _ _ _ => True) (fun _ _ _ => True) [] shared := by
  cases holdIds with
  | nil => trivial
  | cons holdId holdIds =>
      unfold releaseAll
      rw [wpr_bind]
      refine wpr_withSession fun shared₁ _ _ _ _ => ?_
      refine wpr_mono ReserveService.wpr_releaseOne (fun _ _ _ h => h.elim) ?_
      rintro _ _ shared₂ ⟨top, rfl⟩
      exact ⟨top, rfl, fun _ _ _ _ => trivial⟩

theorem ReserveJob.wp_run {settings : Settings} {job : ReserveJob}
    (hfresh : shared.eventsOf worker = []) :
    wp (ledgerDiscipline HoldsStuck) worker (job.run settings).run (fun _ _ _ => True) []
      shared := by
  have hending : wpr (ledgerDiscipline HoldsStuck) worker (job.run settings)
      (fun _ _ _ => True) (fun _ _ _ => True) [] shared := by
    cases job with
    | createHold request =>
        simp only [ReserveJob.run]
        rw [wpr_bind]
        refine wpr_withSession fun shared₁ _ _ _ _ => ?_
        refine wpr_mono ReserveService.wpr_createHold ?_ ?_
        · rintro _ _ shared₂ ⟨top, key, rfl, hkey, hwrites⟩
          refine ⟨top, rfl, fun shared₃ _ good₃ _ _ => ⟨trivial, ?_, trivial⟩⟩
          have stuck : HoldsStuck shared₃.committed := good₃.2
          change HoldsStuck (applyAll top.writes shared₃.committed)
          rw [hwrites, applyAll_inserts]
          intro hold hrow
          rcases List.mem_append.mp hrow with hold' | hnew
          · exact stuck hold hold'
          · rw [List.mem_singleton.mp hnew]
            exact ⟨hasSeparator_cutKey hkey (by decide), rfl⟩
        · rintro _ _ shared₂ ⟨top, rfl⟩
          exact ⟨top, rfl, fun _ _ _ _ => trivial⟩
    | releaseDue on limit =>
        simp only [ReserveJob.run, ReserveService.releaseDue]
        rw [wpr_bind, wpr_bind]
        refine wpr_withSession fun shared₁ _ _ _ _ => ?_
        rw [wpr_bind]
        refine wpr_select (Y := system) fun shared₂ progress₂ => ?_
        refine ⟨_, rfl, fun shared₃ _ good₃ _ _ => ⟨trivial, good₃.2, ?_⟩⟩
        exact wpr_mono ReserveService.wpr_releaseAll (fun _ _ _ h => h) fun _ _ _ h => h
    | ledger calls =>
        simp only [ReserveJob.run]
        rw [wpr_bind]
        refine wp_mono (LedgerCall.wp_transaction holdsStuck_ledgerInvariant worker calls hfresh)
          fun result _ _ _ => ?_
        cases result <;> trivial
  refine wp_mono hending fun _ _ _ _ => trivial

end Calls

/-- Whatever holds are made and whatever passes run, in every interleaving with the
postings of the ledger, every hold on file is unreleased. -/
theorem reserve_run {settings : Settings} {db : Database} {world : World}
    (unique : Schema.Unique (S := schema) db) (hholds : db.holds = []) (jobs : List ReserveJob)
    {config : Config system (Except Exception Unit)}
    (hrun : Config.Run anyMove
      (Config.start db world (reserveWorkers settings jobs)) config) :
    HoldsStuck config.shared.committed := by
  have hstart : HoldsStuck db := by
    intro hold hrow
    rw [hholds] at hrow
    cases hrow
  have stable : StablePost (ledgerDiscipline HoldsStuck)
      (fun _ (_ : Except Exception Unit) _ _ => True) := fun _ _ _ _ _ _ _ _ => trivial
  have sound := Sound.run stable (Sound.start ⟨unique, hstart⟩
    fun worker program hprogram => by
      simp only [reserveWorkers, List.getElem?_map, Option.map_eq_some_iff] at hprogram
      obtain ⟨job, -, rfl⟩ := hprogram
      exact ReserveJob.wp_run rfl) hrun
  exact sound.good.2

/-- Holds are released as promised exactly as long as none is made. -/
theorem holdsReleased_iff {settings : Settings} {db : Database} {world : World}
    (unique : Schema.Unique (S := schema) db) (hholds : db.holds = []) (jobs : List ReserveJob)
    {config : Config system (Except Exception Unit)}
    (hrun : Config.Run anyMove
      (Config.start db world (reserveWorkers settings jobs)) config) :
    HoldsReleased jobs config.shared ↔ config.shared.committed.holds = [] := by
  have stuck := reserve_run unique hholds jobs hrun
  constructor
  · intro law
    refine List.eq_nil_iff_forall_not_mem.mpr fun hold hrow => ?_
    obtain ⟨transaction, -, -, hmarked⟩ := law.released hold hrow
    rw [(stuck hold hrow).2] at hmarked
    cases hmarked
  · intro hnone
    constructor
    · intro hold hrow
      rw [hnone] at hrow
      cases hrow
    · intro hold hrow
      rw [hnone] at hrow
      cases hrow

/-! ## One hold -/

/-- A capture of which two euros go to the reserve. -/
def samplePostedReserve : PostRequest :=
  { samplePosting with lines := [debit .merchantReceivable 200, credit .reserve 200] }

def sampleHoldRequest : HoldRequest where
  merchantId := "mer_1"
  currency := "EUR"
  amountMinor := 200
  heldFromTransactionId := "txn_1"
  releaseOn := 90
  livemode := true

/-- The capture, its hold, and the release pass of the day. -/
def sampleReserveJobs : List ReserveJob :=
  [.ledger [.post samplePostedReserve], .createHold sampleHoldRequest, .releaseDue 90 500]

def sampleReserveStart : Config system (Except Exception Unit) :=
  Config.start {} { clock := 10 } (reserveWorkers sampleSettings sampleReserveJobs)

/-- Before its hold is made, the capture leaves nothing to release. -/
theorem holdsReleased_iff_posted :
    ∃ config, Config.Run anyMove sampleReserveStart config ∧
      config.shared.committed.transactions.length = 1 ∧
      HoldsReleased sampleReserveJobs config.shared := by
  have hschedule : (sampleReserveStart.schedule anyMove sampleSchedule).map
      (fun config => decide (config.shared.committed.transactions.length = 1 ∧
        config.shared.committed.holds = [])) = some true := by
    decide +kernel
  obtain ⟨config, hconfig, hends⟩ := Option.map_eq_some_iff.mp hschedule
  have hrun := Config.run_of_schedule hconfig
  obtain ⟨hposted, hnone⟩ := of_decide_eq_true hends
  exact ⟨config, hrun, hposted, (holdsReleased_iff unique_empty rfl _ hrun).mpr hnone⟩

/-- The third worker came back with a `ValueError`. -/
def passRaised (config : Config system (Except Exception Unit)) : Bool :=
  match config.workers with
  | [_, _, ⟨_, .ret (.error (.valueError _))⟩] => true
  | _ => false

/-- The pass on the release date fails on the hold, which stays unreleased. -/
theorem hold_never_released :
    ∃ config, Config.Run anyMove sampleReserveStart config ∧ passRaised config = true ∧
      ¬ HoldsReleased sampleReserveJobs config.shared := by
  have hschedule : (sampleReserveStart.schedule anyMove (sampleSchedule ++
      advances 1 [.plain, .plain, .plain] ++
      advances 2 [.plain, .plain, .plain, .plain, .plain, .plain])).map
        (fun config => decide (passRaised config = true ∧
          config.shared.committed.holds = [sampleHoldRequest.hold "rh:txn_1:200"])) =
      some true := by
    decide +kernel
  obtain ⟨config, hconfig, hends⟩ := Option.map_eq_some_iff.mp hschedule
  obtain ⟨hraised, hholds⟩ := of_decide_eq_true hends
  refine ⟨config, Config.run_of_schedule hconfig, hraised, fun law => ?_⟩
  obtain ⟨transaction, -, -, hmarked⟩ := law.released (sampleHoldRequest.hold "rh:txn_1:200")
    (by rw [hholds]; exact List.mem_singleton_self _)
  cases hmarked

end PayzenoLedger
