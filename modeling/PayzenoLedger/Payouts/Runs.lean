import PayzenoLedger.Domain.Movements
import PayzenoLedger.Payouts.Creation

/-!
# The payouts in every run

The transactions on payouts are interleaved with each other and with postings of the rest of
the service.  In every state that is reached, each payout stands in the books as its row
says, and no more is paid out of a balance than was credited to it.
-/

set_option autoImplicit false

namespace PayzenoLedger

open Library Write

namespace LedgerCall

def idempotencyKey : LedgerCall → String
  | .post request => request.idempotencyKey
  | .reverse _ idempotencyKey _ => idempotencyKey

/-- The call posts under no key of a payout. -/
def Foreign (call : LedgerCall) : Prop :=
  ∀ (leg : PayoutLeg) merchantId id,
    ledgerKey leg.keyPurpose merchantId id ≠ .ok call.idempotencyKey

/-- The call takes nothing out of a payable balance. -/
def Quiet : LedgerCall → Prop
  | .post request => ∀ line ∈ request.lines,
      line.accountType = .merchantPayable → line.direction ≠ .debit
  | .reverse .. => False

end LedgerCall

/-- The job belongs to the payouts, or it stays off their keys. -/
def PayoutJob.Foreign : PayoutJob → Prop
  | .ledger calls => ∀ call ∈ calls, call.Foreign
  | _ => True

/-- Only the payouts take something out of the payable balances. -/
def PayoutJob.Quiet : PayoutJob → Prop
  | .ledger calls => ∀ call ∈ calls, call.Quiet
  | _ => True

section Jobs

variable {service : PayoutService} {quiet : Prop} {worker : Nat} {top : Session system}
  {shared : Shared system}

/-- A call of another part of the service. -/
theorem LedgerCall.wpr_payouts {call : LedgerCall} (hforeign : call.Foreign)
    (hquiet : quiet → call.Quiet)
    (session : PayoutSession service.settings quiet worker [] (PayoutLaw quiet) top shared) :
    wpr (payoutDiscipline service.settings quiet) worker call.run
      (fun _ => Reached service.settings quiet worker [] (PayoutLaw quiet) top shared)
      (fun _ stack _ => ∃ top, stack = [top]) [top] shared := by
  cases call with
  | post request =>
      refine LedgerPoster.wpr_post
        (fun shared₁ top₁ posting progress₁ hrequest hwrites hvalid hstamped => ?_)
        (fun shared₁ existing progress₁ _ _ _ => ?_) (fun _ _ _ _ => ⟨_, rfl⟩) session.here
      · refine ⟨top₁, rfl, progress₁, session.write progress₁ hwrites hvalid
          (fun db valid law => law.post valid ?_ ?_) (fun entry hentry => ?_)
          posting.added_payout⟩
        · rw [hrequest]
          exact hforeign
        · rw [hrequest]
          exact hquiet
        · rw [posting.added_entries] at hentry
          obtain ⟨before, rely, hle⟩ := hstamped entry hentry
          exact hle.trans (clock_le_of_rely rely)
      · exact ⟨top, rfl, progress₁, session.same progress₁⟩
  | reverse original idempotencyKey createdBy =>
      refine LedgerPoster.wpr_reverseStamped
        (fun shared₁ shared₂ top₂ posting _ progress₁ progress₂ _ _ hrequest hwrites hvalid
          hstamped => ?_) fun _ _ _ _ => ⟨_, rfl⟩
      have progress := progress₁.trans progress₂
      rw [List.append_assoc] at hwrites
      refine ⟨top₂, rfl, progress, session.write progress hwrites hvalid
        (fun db valid law => ?_) (fun entry hentry => ?_) ?_⟩
      · rw [applyAll_append]
        refine (law.post valid ?_ fun h => (hquiet h).elim).link _ _
        rw [hrequest]
        exact hforeign
      · rw [added_append, posting.added_entries] at hentry
        rcases List.mem_append.mp hentry with hposted | hlink
        · obtain ⟨before, rely, hle⟩ := hstamped entry hposted
          exact hle.trans (clock_le_of_rely rely)
        · cases hlink
      · rw [added_append, posting.added_payout]
        rfl

theorem LedgerCall.wpr_payoutsAll {calls : List LedgerCall}
    (hforeign : ∀ call ∈ calls, call.Foreign) (hquiet : quiet → ∀ call ∈ calls, call.Quiet)
    (session : PayoutSession service.settings quiet worker [] (PayoutLaw quiet) top shared) :
    wpr (payoutDiscipline service.settings quiet) worker (LedgerCall.runAll calls)
      (fun _ => Reached service.settings quiet worker [] (PayoutLaw quiet) top shared)
      (fun _ stack _ => ∃ top, stack = [top]) [top] shared := by
  induction calls generalizing top shared with
  | nil => exact ⟨top, rfl, session.here, session⟩
  | cons call calls ih =>
      unfold LedgerCall.runAll
      refine Reached.wpr_bind (LedgerCall.wpr_payouts (hforeign call List.mem_cons_self)
        (fun h => hquiet h call List.mem_cons_self) session) ?_
      intro result top₁ shared₁ session₁
      refine Reached.wpr_bind (ih (fun other hother => hforeign other
        (List.mem_cons_of_mem _ hother)) (fun h other hother => hquiet h other
          (List.mem_cons_of_mem _ hother)) session₁) ?_
      intro results top₂ shared₂ session₂
      exact ⟨top₂, rfl, session₂.here, session₂⟩

/-! ## The transactions -/

/-- The end of a transaction that may commit. -/
def Ends (settings : Settings) (quiet : Prop) (worker : Nat) (stack : List (Session system))
    (shared : Shared system) : Prop :=
  ∃ top, stack = [top] ∧
    Commits (payoutDiscipline settings quiet) worker top [] shared fun _ => True

theorem Reached.ends {stack : List (Session system)} {shared' : Shared system}
    (reached : Reached service.settings quiet worker [] (PayoutLaw quiet) top shared stack
      shared') : Ends service.settings quiet worker stack shared' := by
  obtain ⟨top', hstack, -, session⟩ := reached
  exact ⟨top', hstack, session.commits⟩

/-- A transaction of its own, and what comes after it. -/
theorem wpr_transaction {α : Type} {name : SessionName} {program : Async α}
    {ok : α → List (Session system) → Shared system → Prop}
    {error : Exception → List (Session system) → Shared system → Prop}
    (h : ∀ shared', (payoutDiscipline service.settings quiet).Good shared' →
      wpr (payoutDiscipline service.settings quiet) worker program
        (fun _ => Ends service.settings quiet worker) (fun _ stack _ => ∃ top, stack = [top])
        [Session.fresh name] shared')
    (hok : ∀ value shared', ok value [] shared')
    (herror : ∀ raised shared', error raised [] shared') :
    wpr (payoutDiscipline service.settings quiet) worker (Async.withSession name program) ok error
      [] shared := by
  refine wpr_withSession fun shared₁ _ _ _ good₁ => ?_
  refine wpr_mono (h _ good₁) ?_ ?_
  · rintro value _ shared₂ ⟨top, rfl, commits⟩
    refine ⟨top, rfl, fun shared₃ rely good foot permits => ?_⟩
    obtain ⟨guarantee, invariant, -⟩ := commits shared₃ rely good foot permits
    exact ⟨guarantee, invariant, hok _ _⟩
  · rintro raised _ shared₂ ⟨top, rfl⟩
    exact ⟨top, rfl, fun _ _ _ _ => herror _ _⟩

/-- An update of a payout that keeps the law, if the payout is there. -/
theorem PayoutSession.wpr_move {id : String} {change : Payout → Payout}
    {immutable : ∀ row, Table.payout.identity (change row) = Table.payout.identity row}
    (session : PayoutSession service.settings quiet worker [] (PayoutLaw quiet) top shared)
    (keep : ∀ db : Database, PayoutLaw quiet db →
      PayoutLaw quiet { db with payouts := rewritten id change db.payouts }) :
    wpr (payoutDiscipline service.settings quiet) worker
      (Async.update .payout (.payout id) change immutable)
      (fun _ => Reached service.settings quiet worker [] (PayoutLaw quiet) top shared)
      (fun _ stack _ => ∃ top, stack = [top]) [top] shared := by
  refine Async.wpr_update (fun shared₁ row _ _ progress₁ => ?_)
    (fun shared₁ progress₁ _ => ?_) fun _ _ _ _ _ => ⟨_, rfl⟩
  · refine ⟨_, rfl, progress₁, ?_⟩
    refine session.write progress₁ rfl PayoutSession.seenAny (fun db _ law => ?_)
      (fun _ h => absurd h List.not_mem_nil) rfl
    rw [applyAll_rewritten]
    exact keep db law
  · exact ⟨top, rfl, progress₁, session.same progress₁⟩

theorem PayoutSchedulerJob.wpr_advanceAll {payouts : List Payout}
    (session : PayoutSession service.settings quiet worker [] (PayoutLaw quiet) top shared) :
    wpr (payoutDiscipline service.settings quiet) worker (PayoutSchedulerJob.advanceAll payouts)
      (fun _ => Reached service.settings quiet worker [] (PayoutLaw quiet) top shared)
      (fun _ stack _ => ∃ top, stack = [top]) [top] shared := by
  induction payouts generalizing top shared with
  | nil => exact ⟨top, rfl, session.here, session⟩
  | cons payout payouts ih =>
      unfold advanceAll
      refine Reached.wpr_bind (session.wpr_move fun _ law =>
        law.rewrite (fun _ => rfl) (fun _ => ⟨rfl, rfl⟩) fun _ => rfl) ?_
      intro _ top₁ shared₁ session₁
      exact ih session₁

theorem PayoutSchedulerJob.wpr_runOnce {name : SessionName}
    (good : (payoutDiscipline service.settings quiet).Good shared) :
    wpr (payoutDiscipline service.settings quiet) worker PayoutSchedulerJob.runOnce
      (fun _ => Ends service.settings quiet worker) (fun _ stack _ => ∃ top, stack = [top])
      [Session.fresh name] shared := by
  unfold runOnce
  rw [wpr_bind]
  refine Async.wpr_now fun shared₁ progress₁ => ?_
  rw [wpr_bind]
  refine wpr_select fun shared₂ progress₂ => ?_
  have session := (PayoutSession.start good).same (progress₁.trans progress₂)
  rw [wpr_bind]
  refine wpr_mono (PayoutSchedulerJob.wpr_advanceAll session) ?_ fun _ _ _ h => h
  rintro _ stack shared₃ reached
  exact reached.ends

/-! ## The sweep -/

section Sweep

variable {cached : RateCache} {now : Instant}

theorem PayoutSweepJob.wpr_sweepOne {balance : MerchantBalanceCache} {since : Instant}
    {name : SessionName} :
    wpr (payoutDiscipline service.settings quiet) worker
      (PayoutSweepJob.sweepOne service cached balance since)
      (fun _ => Ends service.settings quiet worker) (fun _ stack _ => ∃ top, stack = [top])
      [Session.fresh name] shared := by
  unfold sweepOne
  rw [wpr_bind]
  refine wpr_select fun shared₁ progress₁ => ?_
  split
  · have session : PayoutSession service.settings quiet worker [] (PayoutLaw quiet)
        (Session.fresh name) shared₁ := .start progress₁.good
    exact ⟨_, rfl, session.commits⟩
  · rw [wpr_bind]
    refine wpr_mono PayoutService.wpr_createPayout ?_ fun _ _ _ h => h
    rintro payout stack shared₂ ends
    exact ends

theorem PayoutSweepJob.wpr_sweepAll
    {balances : List (MerchantBalanceCache × Option MerchantProjection)} :
    wpr (payoutDiscipline service.settings quiet) worker
      (PayoutSweepJob.sweepAll service cached now balances) (fun _ _ _ => True)
      (fun _ _ _ => True) [] shared := by
  induction balances generalizing shared with
  | nil => trivial
  | cons entry balances ih =>
      obtain ⟨balance, merchant⟩ := entry
      unfold sweepAll
      cases merchant with
      | none => exact ih
      | some merchant =>
          dsimp only
          split
          · unfold Async.recover
            rw [wpr_bind, wpr_recover]
            refine wpr_transaction (fun _ _ => PayoutSweepJob.wpr_sweepOne)
              (fun _ _ => ih) fun raised shared₁ => ?_
            cases raised with
            | ledger _ => exact ih
            | _ => trivial
          · exact ih

theorem PayoutSweepJob.wpr_loadMerchants {merchantIds : List String}
    (good : (payoutDiscipline service.settings quiet).Good shared) :
    wpr (payoutDiscipline service.settings quiet) worker
      (PayoutSweepJob.loadMerchants merchantIds)
      (fun _ => Reads service.settings quiet top) (fun _ stack _ => ∃ top, stack = [top])
      [top] shared := by
  induction merchantIds generalizing shared with
  | nil => exact ⟨rfl, good⟩
  | cons merchantId merchantIds ih =>
      unfold loadMerchants
      rw [wpr_bind]
      refine Async.wpr_get (fun shared₁ merchant progress₁ _ => ?_) fun shared₁ progress₁ _ => ?_
      · rw [wpr_bind]
        refine wpr_mono (ih progress₁.good) ?_ fun _ _ _ h => h
        rintro merchants _ shared₂ reads
        exact reads
      · rw [wpr_bind]
        refine wpr_mono (ih progress₁.good) ?_ fun _ _ _ h => h
        rintro merchants _ shared₂ reads
        exact reads

theorem PayoutSweepJob.wpr_runOnce :
    wpr (payoutDiscipline service.settings quiet) worker
      (PayoutSweepJob.runOnce service cached now) (fun _ _ _ => True) (fun _ _ _ => True) []
      shared := by
  unfold runOnce
  rw [wpr_bind]
  refine wpr_transaction (fun shared₁ good₁ => ?_) (fun _ _ => PayoutSweepJob.wpr_sweepAll)
    fun _ _ => trivial
  unfold candidates
  rw [wpr_bind]
  refine wpr_select fun shared₂ progress₂ => ?_
  rw [wpr_bind]
  refine wpr_mono (PayoutSweepJob.wpr_loadMerchants progress₂.good) ?_ fun _ _ _ h => h
  rintro merchants _ shared₃ ⟨rfl, good₃⟩
  have session : PayoutSession service.settings quiet worker [] (PayoutLaw quiet)
      (Session.fresh .ledgerCalls) shared₃ := .start good₃
  exact ⟨_, rfl, session.commits⟩

end Sweep

/-! ## Runs -/

theorem PayoutJob.wp_run {job : PayoutJob} (hforeign : job.Foreign) (hquiet : quiet → job.Quiet) :
    wp (payoutDiscipline service.settings quiet) worker (job.run service).run
      (fun _ _ _ => True) [] shared := by
  have hending : wpr (payoutDiscipline service.settings quiet) worker (job.run service)
      (fun _ _ _ => True) (fun _ _ _ => True) [] shared := by
    cases job with
    | create cached merchantId request =>
        unfold PayoutJob.run
        rw [wpr_bind]
        exact wpr_transaction (fun _ _ => PayoutService.wpr_createPayout) (fun _ _ => trivial)
          fun _ _ => trivial
    | cancel payoutId =>
        unfold PayoutJob.run
        rw [wpr_bind]
        refine wpr_transaction (fun shared₁ good₁ => ?_) (fun _ _ => trivial)
          fun _ _ => trivial
        exact wpr_mono (service.wpr_cancelPayout rfl) (fun _ _ _ reached => Reached.ends reached)
          fun _ _ _ h => h
    | paid payoutId paidAt bankReference =>
        unfold PayoutJob.run
        rw [wpr_bind]
        refine wpr_transaction (fun shared₁ good₁ => ?_) (fun _ _ => trivial)
          fun _ _ => trivial
        exact wpr_mono (service.wpr_markPaid rfl) (fun _ _ _ reached => Reached.ends reached)
          fun _ _ _ h => h
    | failed payoutId failureCode failureMessage =>
        unfold PayoutJob.run
        rw [wpr_bind]
        refine wpr_transaction (fun shared₁ good₁ => ?_) (fun _ _ => trivial)
          fun _ _ => trivial
        exact wpr_mono (service.wpr_markFailed rfl) (fun _ _ _ reached => Reached.ends reached)
          fun _ _ _ h => h
    | schedule =>
        unfold PayoutJob.run
        rw [wpr_bind]
        exact wpr_transaction (fun _ good₁ => PayoutSchedulerJob.wpr_runOnce good₁)
          (fun _ _ => trivial) fun _ _ => trivial
    | sweep cached now => exact PayoutSweepJob.wpr_runOnce
    | ledger calls =>
        unfold PayoutJob.run LedgerCall.transaction
        rw [wpr_bind]
        refine wpr_transaction (fun shared₁ good₁ => ?_) (fun _ _ => trivial)
          fun _ _ => trivial
        exact wpr_mono (LedgerCall.wpr_payoutsAll hforeign hquiet (.start good₁))
          (fun _ _ _ reached => Reached.ends reached) fun _ _ _ h => h
  exact wp_mono hending fun _ _ _ _ => trivial

/-- No payout is on file, and nothing is posted for one. -/
structure Unpaid (db : Database) : Prop where
  unique : Schema.Unique (S := schema) db
  ledger : DoubleEntry db
  payouts : db.payouts = []
  unclaimed : ∀ transaction ∈ db.transactions, ∀ (leg : PayoutLeg) merchantId id,
    ledgerKey leg.keyPurpose merchantId id ≠ .ok transaction.idempotencyKey

theorem payableSum_nonneg {db : Database} (ledger : DoubleEntry db) {direction : Direction}
    {merchantId currency : String} {livemode : Bool} :
    0 ≤ payableSum direction merchantId currency livemode db := by
  refine List.sum_nonneg fun value hvalue => ?_
  obtain ⟨row, hrow, rfl⟩ := List.mem_map.mp hvalue
  rw [joined_eq] at hrow
  obtain ⟨entry, hentry, hrow⟩ := List.mem_flatMap.mp hrow
  obtain ⟨account, -, rfl⟩ := List.mem_map.mp hrow
  exact payableWeight_nonneg ledger hentry _

/-- The law holds from the start, and in whatever is reached. -/
theorem payouts_run {db : Database} {world : World} (unpaid : Unpaid db)
    (hdated : ∀ entry ∈ db.entries, entry.createdAt ≤ world.clock)
    (hnone : quiet → ∀ merchantId currency livemode,
      payableSum .debit merchantId currency livemode db = 0)
    {jobs : List PayoutJob} (hforeign : ∀ job ∈ jobs, job.Foreign)
    (hquiet : quiet → ∀ job ∈ jobs, job.Quiet) {config : Config system (Except Exception Unit)}
    (hrun : Config.Run anyMove (Config.start db world (payoutWorkers service jobs)) config) :
    (payoutDiscipline service.settings quiet).Good config.shared := by
  have hdrawn (merchantId currency : String) (livemode : Bool) :
      drawn merchantId currency livemode db = 0 := by
    rw [drawn, unpaid.payouts]
    rfl
  have law : PayoutLaw quiet db := by
    refine ⟨unpaid.ledger, ?_, ?_, fun merchantId currency livemode => ?_,
      fun h merchantId currency livemode => ?_⟩
    · rw [unpaid.payouts]
      exact fun _ h => absurd h List.not_mem_nil
    · exact fun transaction htransaction leg merchantId id h =>
        absurd h (unpaid.unclaimed transaction htransaction leg merchantId id)
    · rw [hdrawn]
      exact payableSum_nonneg unpaid.ledger
    · rw [hdrawn, hnone h]
  have invariant : PayoutInvariant quiet
      (Config.start db world (payoutWorkers service jobs)).shared := by
    refine ⟨law, fun merchantId currency livemode => ?_, hdated⟩
    change drawn merchantId currency livemode db ≤ payableSum .credit _ _ _ db
    rw [hdrawn]
    exact payableSum_nonneg unpaid.ledger
  have stable : StablePost (payoutDiscipline service.settings quiet)
      (fun _ (_ : Except Exception Unit) _ _ => True) := fun _ _ _ _ _ _ _ _ => trivial
  have sound := Sound.run stable (Sound.start ⟨unpaid.unique, invariant⟩
    fun worker program hprogram => by
      simp only [payoutWorkers, List.getElem?_map, Option.map_eq_some_iff] at hprogram
      obtain ⟨job, hjob, rfl⟩ := hprogram
      have hmem := List.mem_of_getElem? hjob
      exact PayoutJob.wp_run (hforeign job hmem) fun h => hquiet h job hmem) hrun
  exact sound.good

end Jobs

/-- What the transactions of a payout under some of its keys move on an account. -/
def movedBy (payout : Payout) (legs : List PayoutLeg) (accountType : AccountType)
    (db : Database) : Int :=
  (legs.map fun leg => ((transactionsUnder (payout.key leg) db).map fun transaction =>
    netMovement accountType (linesOf transaction.id db)).sum).sum

/-- The books move by a payout once, and not at all once it is reversed, in either of its
currencies. -/
structure Conserved (payout : Payout) (db : Database) : Prop where
  once : ∀ leg, (transactionsUnder (payout.key leg) db).length ≤ 1
  carries : ∀ leg, ∀ transaction ∈ transactionsUnder (payout.key leg) db,
    Carries payout leg db transaction
  balance : ∀ accountType, movedBy payout [.balance, .balanceReversal] accountType db =
    if payout.reversalTransactionId = none then netMovement accountType payout.balanceLines else 0
  bank : ∀ accountType, movedBy payout [.bank, .bankReversal] accountType db =
    if payout.isConverted ∧ payout.reversalTransactionId = none then
      netMovement accountType payout.bankLines
    else 0
  booked : (transactionsUnder (payout.key .balance) db).map (·.id) =
    payout.ledgerTransactionId.toList
  reversed : (transactionsUnder (payout.key .balanceReversal) db).map (·.id) =
    payout.reversalTransactionId.toList
  status : payout.status.isReversed = true → payout.reversalTransactionId ≠ none

section Conservation

variable {payout : Payout} {db : Database} {accountType : AccountType}

/-- The reversal moves back what the payout moved. -/
theorem netMovement_balanceReversal (payout : Payout) :
    netMovement accountType payout.balanceReversalLines =
      -netMovement accountType payout.balanceLines := by
  unfold Payout.balanceReversalLines
  split
  · exact netMovement_mirrored _ _
  · next hsame =>
      rw [Payout.balanceLines, if_neg hsame]
      simp only [netMovement_debit, netMovement_credit, netMovement_nil]
      split <;> split <;> simp

/-- What one leg moves. -/
theorem LegPosted.moved {leg : PayoutLeg} {posted : Option String}
    (h : LegPosted payout leg db posted) :
    ((transactionsUnder (payout.key leg) db).map fun transaction =>
      netMovement accountType (linesOf transaction.id db)).sum =
        if posted.isSome then netMovement accountType (payout.lines leg) else 0 := by
  cases posted with
  | none =>
      rw [show transactionsUnder (payout.key leg) db = [] from h]
      rfl
  | some id =>
      obtain ⟨transaction, htransaction, -, carries⟩ := h
      rw [htransaction, List.map_singleton, List.sum_singleton, carries.lines]
      rfl

theorem Accounted.conserved (accounted : Accounted payout db) : Conserved payout db := by
  obtain ⟨-, -, posted, hposted, linked⟩ := accounted
  have hids (leg : PayoutLeg) :
      (transactionsUnder (payout.key leg) db).map (·.id) = (posted leg).toList := by
    have hleg := hposted leg
    cases hid : posted leg with
    | none =>
        rw [hid] at hleg
        rw [show transactionsUnder (payout.key leg) db = [] from hleg]
        rfl
    | some id =>
        rw [hid] at hleg
        obtain ⟨transaction, htransaction, rfl, -⟩ := hleg
        rw [htransaction]
        rfl
  have hreversed : (posted .balanceReversal).isSome = payout.reversalTransactionId.isSome :=
    congrArg Option.isSome linked.reversal
  refine ⟨fun leg => ?_, fun leg transaction htransaction => ?_, fun accountType => ?_,
    fun accountType => ?_, ?_, ?_, fun h hnone => ?_⟩
  · rw [← List.length_map (·.id), hids]
    cases posted leg <;> simp
  · have hleg := hposted leg
    cases hid : posted leg with
    | none =>
        rw [hid] at hleg
        rw [show transactionsUnder (payout.key leg) db = [] from hleg] at htransaction
        cases htransaction
    | some id =>
        rw [hid] at hleg
        obtain ⟨only, honly, -, carries⟩ := hleg
        rw [honly] at htransaction
        rw [List.mem_singleton.mp htransaction]
        exact carries
  · simp only [movedBy, List.map_cons, List.map_nil, List.sum_cons, List.sum_nil,
      (hposted _).moved, linked.booked, hreversed, Payout.lines, netMovement_balanceReversal]
    cases payout.reversalTransactionId <;> simp
  · simp only [movedBy, List.map_cons, List.map_nil, List.sum_cons, List.sum_nil,
      (hposted _).moved, linked.bank, linked.bankReversal, Payout.lines, netMovement_mirrored]
    cases payout.reversalTransactionId <;> cases payout.isConverted <;> simp
  · rw [hids, linked.balance]
  · rw [hids, linked.reversal]
  · have hsome := linked.status h
    rw [hnone] at hsome
    cases hsome

end Conservation

/-! ## The two laws -/

section Laws

variable {service : PayoutService} {db : Database} {world : World} {jobs : List PayoutJob}
  {config : Config system (Except Exception Unit)}

/-- Whatever is interleaved, and wherever it stops: each payout on file moved the books once,
its reversal moved them back, and a payout that failed, came back or was cancelled is
reversed. -/
theorem payouts_conserved (unpaid : Unpaid db)
    (hdated : ∀ entry ∈ db.entries, entry.createdAt ≤ world.clock)
    (hforeign : ∀ job ∈ jobs, job.Foreign)
    (hrun : Config.Run anyMove (Config.start db world (payoutWorkers service jobs)) config) :
    ∀ payout ∈ config.shared.committed.payouts, Conserved payout config.shared.committed := by
  have good : (payoutDiscipline service.settings False).Good config.shared :=
    payouts_run unpaid hdated (fun h => h.elim) hforeign (fun h => h.elim) hrun
  exact fun payout hpayout => (good.2.law.payouts payout hpayout).conserved

/-- No more is ever paid out of a balance than was credited to it, and where only payouts
take from the balances, none is overdrawn.  The process and the database are taken to have one
clock, which never runs back. -/
theorem payouts_never_overdraw (unpaid : Unpaid db)
    (hdated : ∀ entry ∈ db.entries, entry.createdAt ≤ world.clock)
    (hforeign : ∀ job ∈ jobs, job.Foreign)
    (hrun : Config.Run anyMove (Config.start db world (payoutWorkers service jobs)) config)
    (merchantId currency : String) (livemode : Bool) :
    drawn merchantId currency livemode config.shared.committed ≤
        payableSum .credit merchantId currency livemode config.shared.committed ∧
      ((∀ job ∈ jobs, job.Quiet) →
        (∀ merchantId currency livemode, payableSum .debit merchantId currency livemode db = 0) →
        0 ≤ LedgerEntryRepository.sumBuckets merchantId currency livemode none
          config.shared.committed .merchantPayable) := by
  have good : (payoutDiscipline service.settings False).Good config.shared :=
    payouts_run unpaid hdated (fun h => h.elim) hforeign (fun h => h.elim) hrun
  have hcredited := good.2.credited merchantId currency livemode
  refine ⟨hcredited, fun hquiet hnone => ?_⟩
  have good' : (payoutDiscipline service.settings True).Good config.shared :=
    payouts_run unpaid hdated (fun _ => hnone) hforeign (fun _ => hquiet) hrun
  have hexact := good'.2.law.exact trivial merchantId currency livemode
  have hall (direction : Direction) :
      weigh (weightUntil none (payableWeight direction merchantId currency livemode))
          config.shared.committed =
        payableSum direction merchantId currency livemode config.shared.committed := by
    have hweight : weightUntil none (payableWeight direction merchantId currency livemode) =
        payableWeight direction merchantId currency livemode :=
      funext fun entry => funext fun identity => if_pos fun _ h => by cases h
    rw [hweight, payableSum]
  rw [sumBuckets_payable, hall, hall]
  omega

end Laws

def sampleBank : BankAccountProjection where
  bankAccountId := "ba_1"
  merchantId := "mer_1"
  currency := "EUR"
  country := "DE"
  scheme := "iban"
  accountNumberToken := "tok_1"
  routingLastFour := none
  ibanLastFour := some "3000"
  bic := none
  sortCodeLastFour := none
  status := "verified"
  isDefault := true
  livemode := true
  sourceEventId := "evt_1"
  sourceOccurredAt := 1

def samplePayee : MerchantProjection where
  merchantId := "mer_1"
  displayName := none
  country := none
  defaultCurrency := some "EUR"
  status := "active"
  riskTier := "low"
  reserveBps := 0
  reserveHoldDays := 0
  pricingModel := "flat"
  platformFeeBps := 0
  platformFeeFixedMinor := 0
  payoutDelayDays := 0
  settlementToleranceMinor := 0
  captureAtSettlement := false
  payoutSchedule := "daily"
  livemode := true
  sourceEventId := "evt_1"
  sourceOccurredAt := 1

def samplePayoutService : PayoutService where
  settings := sampleSettings
  currencies := ["EUR"]
  exponents _ := some 2
  methods := ⟨id, id, id⟩

/-- A sale is settled, all of it is paid out, and the payout is cancelled. -/
def samplePayoutJobs : List PayoutJob :=
  [.ledger [.post samplePosting],
   .create none "mer_1" { currency := some "EUR", livemode := some true },
   .cancel "po_7"]

def samplePayoutStart : Config system (Except Exception Unit) :=
  Config.start { merchants := [samplePayee], banks := [sampleBank] } { clock := 10 }
    (payoutWorkers samplePayoutService samplePayoutJobs)

/-- The jobs one after the other, up to the end of the second. -/
def samplePaidSchedule : List (Action system) :=
  advances 0 [.plain, .id "1", .instant 3, .plain, .plain, .plain, .id "2", .plain, .id "3",
    .instant 3, .plain, .id "4", .plain, .id "5", .instant 3, .plain, .plain, .plain, .plain,
    .id "6", .plain, .plain] ++
  advances 1 [.plain, .plain, .plain, .plain, .plain, .plain, .plain, .id "7", .plain, .id "8",
    .instant 3, .plain, .plain, .plain, .id "9", .instant 3, .plain, .id "10", .instant 3,
    .plain, .plain, .plain, .plain, .plain, .id "11", .plain, .plain, .plain, .plain, .id "12",
    .plain, .plain]

def sampleCancelSchedule : List (Action system) :=
  advances 2 [.plain, .plain, .plain, .id "13", .instant 3, .plain, .plain, .plain, .id "14",
    .instant 3, .plain, .id "15", .instant 3, .plain, .plain, .plain, .plain, .plain, .id "16",
    .plain, .plain, .plain]

theorem unpaid_sample :
    Unpaid { merchants := [samplePayee], banks := [sampleBank] } where
  unique := Schema.unique_of_pairwise fun table => by
    cases table <;> first | exact .nil | simp [Table.rows]
  ledger := ⟨by simp, by simp, by simp, by simp, by simp⟩
  payouts := rfl
  unclaimed _ h := absurd h List.not_mem_nil

theorem foreign_sample : ∀ job ∈ samplePayoutJobs, job.Foreign := by
  intro job hjob
  simp only [samplePayoutJobs, List.mem_cons, List.not_mem_nil, or_false] at hjob
  rcases hjob with rfl | rfl | rfl
  · intro call hcall leg merchantId id hkey
    rw [List.mem_singleton.mp hcall] at hkey
    have hsettle : ledgerKey "settle" "sb_1" "ri_1" = .ok samplePosting.idempotencyKey := rfl
    obtain ⟨hpurpose, -⟩ := ledgerKey_injective hsettle hkey
    cases leg <;> exact absurd hpurpose (by decide)
  · trivial
  · trivial

theorem payouts_conserved_sample :
    ∃ config, Config.Run anyMove samplePayoutStart config ∧
      config.shared.committed.payouts.map (·.status) = [.canceled] ∧
      config.shared.committed.transactions.length = 3 ∧
      ∀ payout ∈ config.shared.committed.payouts, Conserved payout config.shared.committed := by
  have hschedule : (samplePayoutStart.schedule anyMove
      (samplePaidSchedule ++ sampleCancelSchedule)).map
        (fun config => (config.shared.committed.payouts.map (·.status),
          config.shared.committed.transactions.length)) = some ([.canceled], 3) := by
    decide +kernel
  obtain ⟨config, hconfig, hends⟩ := Option.map_eq_some_iff.mp hschedule
  obtain ⟨hstatus, hposted⟩ := Prod.mk.inj hends
  have hrun := Config.run_of_schedule hconfig
  exact ⟨config, hrun, hstatus, hposted,
    payouts_conserved unpaid_sample (fun _ h => absurd h List.not_mem_nil) foreign_sample hrun⟩

theorem payouts_never_overdraw_sample :
    ∃ config, Config.Run anyMove samplePayoutStart config ∧
      drawn "mer_1" "EUR" true config.shared.committed = 500 ∧
      0 ≤ LedgerEntryRepository.sumBuckets "mer_1" "EUR" true none config.shared.committed
        .merchantPayable := by
  have hschedule : (samplePayoutStart.schedule anyMove samplePaidSchedule).map
      (fun config => drawn "mer_1" "EUR" true config.shared.committed) = some 500 := by
    decide +kernel
  obtain ⟨config, hconfig, hdrawn⟩ := Option.map_eq_some_iff.mp hschedule
  have hrun := Config.run_of_schedule hconfig
  refine ⟨config, hrun, hdrawn, (payouts_never_overdraw unpaid_sample
    (fun _ h => absurd h List.not_mem_nil) foreign_sample hrun "mer_1" "EUR" true).2 ?_
    fun _ _ _ => rfl⟩
  intro job hjob
  simp only [samplePayoutJobs, List.mem_cons, List.not_mem_nil, or_false] at hjob
  rcases hjob with rfl | rfl | rfl
  · intro call hcall
    rw [List.mem_singleton.mp hcall]
    simp [LedgerCall.Quiet, samplePosting, debit, credit]
  · trivial
  · trivial

end PayzenoLedger
