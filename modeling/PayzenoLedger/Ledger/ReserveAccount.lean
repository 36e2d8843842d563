import PayzenoLedger.Consumers.Payments
import PayzenoLedger.Ledger.BalanceCache
import PayzenoLedger.Ledger.Reserves

/-!
# The reserve account and its holds

Captures and settlement lines credit and debit the reserve account; holds are
rows written elsewhere.  No transaction does both, so that the two agree only
for as long as neither moves.
-/

set_option autoImplicit false

namespace PayzenoLedger

open Library Write

/-! ## Operations -/

/-- `handle_payment_captured` in the transaction of its message. -/
def PaymentEventConsumer.handlePaymentCaptured (currencies : List String) (eventId : String)
    (occurredAt : Instant) (livemode : Bool) (data : PaymentCapturedPayload) : Async Unit := do
  let charge ← SettlementChargeRepository.getOrRaise data.chargeId
  if occurredAt < charge.sourceOccurredAt then pure ()
  else
    Async.update .settlementCharge (.charge charge.chargeId)
      (fun row => { row with capturedAt := some data.capturedAt }) (fun _ => rfl)
    let lines ← Async.check ((capturePostingRule currencies).build (captureContext charge data))
    let key ← Async.check (ledgerKey "capture" data.merchantId data.chargeId)
    let _ ← LedgerPoster.post (chargeRequest .capture data.merchantId data.chargeId data.currency
      livemode eventId key lines)
    pure ()

inductive ReserveOperation where
  | capture (eventId : String) (occurredAt : Instant) (livemode : Bool)
      (data : PaymentCapturedPayload)
  | settle (item : ReconciliationItem) (caller : Caller)
  | createHold (request : HoldRequest)
  | releaseDue (on : Date) (limit : Nat)

def ReserveOperation.run (settings : Settings) (currencies : List String) :
    ReserveOperation → Async Unit
  | .capture eventId occurredAt livemode data =>
      Async.withSession .ledgerCalls
        (PaymentEventConsumer.handlePaymentCaptured currencies eventId occurredAt livemode data)
  | .settle item caller => do
      let _ ← Async.withSession .ledgerCalls
        (SettlementPoster.postSettlement settings item caller)
  | .createHold request => do
      let _ ← Async.withSession
        (.createHold request.heldFromTransactionId request.amountMinor)
        (ReserveService.createHold request)
  | .releaseDue on limit => do
      let _ ← ReserveService.releaseDue settings on limit

def reserveOperationWorkers (settings : Settings) (currencies : List String)
    (operations : List ReserveOperation) : List (Program system (Except Exception Unit)) :=
  operations.map fun operation => (operation.run settings currencies).run

/-! ## The law -/

/-- The credit balance of the reserve account, summed from the entries. -/
def reserveBalance (merchantId currency : String) (livemode : Bool) (db : Database) : Int :=
  LedgerEntryRepository.sumBuckets merchantId currency livemode none db .merchantReserve

/-- The amounts of the holds that are not released yet. -/
def outstandingHolds (merchantId currency : String) (livemode : Bool) (db : Database) : Int :=
  ((db.holds.filter fun hold =>
    hold.merchantId = merchantId ∧ hold.currency = currency ∧ hold.livemode = livemode ∧
      hold.releasedTransactionId = none).map (·.amountMinor)).sum

/-- Behind every reserve account stand holds for its balance. -/
def ReserveBacked (db : Database) : Prop :=
  ∀ merchantId currency livemode,
    reserveBalance merchantId currency livemode db =
      outstandingHolds merchantId currency livemode db

/-- The operation moves one of the two: a capture that withholds a reserve, a reserve
line of a settlement file, a hold that is made, or one that is released. -/
def MovesReserve (charges : List SettlementCharge) : ReserveOperation → Prop
  | .capture _ _ _ data => ∃ charge ∈ charges, charge.chargeId = data.chargeId ∧
      applyBps data.capturedAmountMinor charge.reserveBps ≠ .ok 0
  | .settle item _ => item.lineType = .reserveHold ∨ item.lineType = .reserveRelease
  | .createHold _ => True
  | .releaseDue _ _ => True

/-- The writes enter a transaction into the ledger, or change a hold. -/
def BearsReserve (writes : List (Write schema)) : Prop :=
  ∃ write ∈ writes, write.table = Table.ledgerTransaction ∨ write.table = Table.reserveHold

/-- The worker committed a posting, or a change of a hold. -/
def CommittedWrites (worker : Nat) (shared : Shared system) : Prop :=
  ∃ name writes, BearsReserve writes ∧ Event.committed name writes ∈ shared.eventsOf worker

/-- An operation that moves one of the two has done so. -/
def ReserveMoved (charges : List SettlementCharge) (operations : List ReserveOperation)
    (shared : Shared system) : Prop :=
  ∃ (worker : Nat) (operation : ReserveOperation), operations[worker]? = some operation ∧
    MovesReserve charges operation ∧ CommittedWrites worker shared

/-- The reserve account of every merchant is empty, and no hold is on file. -/
structure Unreserved (charges : List SettlementCharge) (db : Database) : Prop where
  doubleEntry : DoubleEntry db
  empty : ∀ merchantId currency livemode, reserveBalance merchantId currency livemode db = 0
  holds : db.holds = []
  terms : ∀ charge ∈ db.charges, ∃ original ∈ charges,
    original.chargeId = charge.chargeId ∧ original.reserveBps = charge.reserveBps

theorem Unreserved.backed {charges : List SettlementCharge} {db : Database}
    (unreserved : Unreserved charges db) : ReserveBacked db := by
  intro merchantId currency livemode
  rw [unreserved.empty, outstandingHolds, unreserved.holds]
  rfl

theorem Unreserved.posting {charges : List SettlementCharge} {db : Database}
    {posting : Posting} (unreserved : Unreserved charges db) (valid : posting.Valid db)
    (hlines : signedTotal posting.request.lines .merchantReserve = 0) :
    Unreserved charges (applyAll posting.writes db) where
  doubleEntry := valid.doubleEntry unreserved.doubleEntry
  empty merchantId currency livemode := by
    have hempty := unreserved.empty merchantId currency livemode
    unfold reserveBalance at hempty ⊢
    rw [valid.sumBuckets_eq unreserved.doubleEntry, hempty]
    unfold PostRequest.moves
    split
    · rw [hlines]
      rfl
    · rfl
  holds := by
    rw [posting.applyAll_writes]
    exact unreserved.holds
  terms := by
    rw [posting.applyAll_writes]
    exact unreserved.terms

theorem Unreserved.outbox {charges : List SettlementCharge} {db : Database}
    (unreserved : Unreserved charges db) (event : EventOutbox) :
    Unreserved charges (applyAll (inserts .eventOutbox [event]) db) := by
  obtain ⟨doubleEntry, empty, holds, terms⟩ := unreserved
  exact ⟨⟨doubleEntry.two, doubleEntry.balance, doubleEntry.positive, doubleEntry.headed,
    doubleEntry.placed⟩, empty, holds, terms⟩

theorem signedTotal_eq_zero {lines : List PostingLine} {bucket : Bucket}
    (h : ∀ line ∈ lines, line.accountType ≠ bucket.accountType) :
    signedTotal lines bucket = 0 := by
  unfold signedTotal
  refine List.sum_eq_zero fun amount hamount => ?_
  obtain ⟨line, hline, rfl⟩ := List.mem_map.mp hamount
  refine if_neg fun hbucket => ?_
  exact h line hline (AccountType.bucket_eq_some_iff.mp hbucket)

/-- A rule posts to the accounts of the legs that it is written with. -/
theorem built_accounts {purpose : Purpose} {context : PostingContext}
    {lines kept : List PostingLine} {accountType : AccountType}
    (h : PostingRule.built purpose context lines = .ok kept)
    (hlines : ∀ line ∈ lines, line.amountMinor ≠ 0 → line.accountType ≠ accountType) :
    ∀ line ∈ kept, line.accountType ≠ accountType := by
  intro line hline
  rw [(built_ok h).1] at hline
  obtain ⟨hmem, hamount⟩ := List.mem_filter.mp hline
  exact hlines line hmem (of_decide_eq_true hamount)

/-- A capture with no reserve does not touch the reserve account. -/
theorem capture_unreserved {currencies : List String} {context : PostingContext}
    {lines : List PostingLine}
    (h : (capturePostingRule currencies).build context = .ok lines)
    (hreserve : applyBps context.grossMinor context.reserveBps = .ok 0) :
    signedTotal lines .merchantReserve = 0 := by
  simp only [capturePostingRule] at h
  cases hcurrency : checkCurrency currencies context.currency with
  | error raised =>
      rw [hcurrency] at h
      cases h
  | ok _ =>
      cases hmarkup : computePlatformFee context.grossMinor context.platformFeeBps
          context.platformFeeFixedMinor with
      | error raised =>
          rw [hcurrency, hmarkup] at h
          cases h
      | ok markup =>
          rw [hcurrency, hmarkup, hreserve] at h
          simp only [bind, Except.bind] at h
          split at h
          · cases h
          · refine signedTotal_eq_zero (built_accounts h ?_)
            simp [debit, credit, Bucket.accountType]

theorem acquirerFeeLegs_accounts (context : PostingContext) :
    ∀ line ∈ acquirerFeeLegs context, line.accountType ≠ .reserve := by
  unfold acquirerFeeLegs
  split <;> simp [debit, credit]

theorem absoluteRule_accounts {purpose : Purpose} {message : String}
    {debited credited : AccountType} {extra : PostingContext → List PostingLine}
    {context : PostingContext} {lines : List PostingLine}
    (h : (absoluteRule purpose message debited credited extra).build context = .ok lines)
    (hdebited : debited ≠ .reserve) (hcredited : credited ≠ .reserve)
    (hextra : ∀ line ∈ extra context, line.accountType ≠ .reserve) :
    ∀ line ∈ lines, line.accountType ≠ .reserve := by
  simp only [absoluteRule] at h
  split at h
  · cases h
  · refine built_accounts h ?_
    simp only [List.cons_append, List.nil_append, List.mem_cons]
    rintro line (rfl | rfl | hline) -
    · exact hdebited
    · exact hcredited
    · exact hextra line hline

/-- Only the two reserve lines of a settlement file touch the reserve account. -/
theorem settleLines_unreserved {item : ReconciliationItem} {lines : List PostingLine}
    (h : SettlementPoster.settleLines item = .ok lines)
    (hhold : item.lineType ≠ .reserveHold) (hrelease : item.lineType ≠ .reserveRelease) :
    signedTotal lines .merchantReserve = 0 := by
  unfold SettlementPoster.settleLines at h
  dsimp only at h
  cases hbuild : (postingRuleByLineType item.lineType).build
      (SettlementPoster.context item) with
  | error raised =>
      rw [hbuild] at h
      cases h
  | ok built =>
      rw [hbuild] at h
      dsimp only at h
      split at h
      · cases h
      cases h
      refine signedTotal_eq_zero ?_
      change ∀ line ∈ lines, line.accountType ≠ .reserve
      cases htype : item.lineType with
      | sale =>
          rw [htype] at hbuild
          simp only [postingRuleByLineType, settlementPostingRule] at hbuild
          split at hbuild
          · cases hbuild
          · exact built_accounts hbuild (by simp [debit, credit])
      | refund =>
          rw [htype] at hbuild
          simp only [postingRuleByLineType, settlementRefundPostingRule] at hbuild
          refine built_accounts hbuild fun line hline _ => ?_
          rcases List.mem_append.mp hline with hleg | hfee
          · simp only [List.mem_cons, List.not_mem_nil, or_false] at hleg
            rcases hleg with rfl | rfl <;> simp [debit, credit]
          · exact acquirerFeeLegs_accounts _ line hfee
      | chargeback =>
          rw [htype] at hbuild
          exact absoluteRule_accounts hbuild (by decide) (by decide) (acquirerFeeLegs_accounts _)
      | chargebackReversal =>
          rw [htype] at hbuild
          exact absoluteRule_accounts hbuild (by decide) (by decide) (acquirerFeeLegs_accounts _)
      | schemeFee =>
          rw [htype] at hbuild
          simp only [postingRuleByLineType, schemeFeePostingRule] at hbuild
          split at hbuild
          · split at hbuild
            · cases hbuild
            · exact built_accounts hbuild (by simp [debit, credit])
          · split at hbuild
            · cases hbuild
            · exact built_accounts hbuild (by simp [debit, credit])
      | adjustment =>
          rw [htype] at hbuild
          simp only [postingRuleByLineType, adjustmentLinePostingRule] at hbuild
          split at hbuild
          · cases hbuild
          · refine built_accounts hbuild ?_
            split <;> simp [debit, credit]
      | reserveHold => exact absurd htype hhold
      | reserveRelease => exact absurd htype hrelease

/-! ## Interleavings of the operations -/

theorem ReserveMoved.mono {charges : List SettlementCharge}
    {operations : List ReserveOperation} {shared shared' : Shared system}
    (moved : ReserveMoved charges operations shared) (h : shared.trace <+: shared'.trace) :
    ReserveMoved charges operations shared' := by
  obtain ⟨worker, operation, hjob, hmoves, name, writes, hne, hevent⟩ := moved
  refine ⟨worker, operation, hjob, hmoves, name, writes, hne, ?_⟩
  obtain ⟨more, htrace⟩ := h
  unfold Shared.eventsOf at hevent ⊢
  rw [← htrace, List.filter_append, List.map_append]
  exact List.mem_append_left _ hevent

/-- Until something is moved, nothing is withheld. -/
def reserveDiscipline (charges : List SettlementCharge) (operations : List ReserveOperation) :
    Discipline system where
  permits := anyMove
  guarantee _ _ _ _ := True
  invariant shared :=
    ReserveMoved charges operations shared ∨ Unreserved charges shared.committed
  required _ := none
  meaning _ _ := True
  meaning_extends _ _ _ _ h := h
  drift_sound _ _ _ h _ := h
  enter_sound _ _ _ _ h _ := ⟨trivial, h.imp_left fun h => h.mono (List.prefix_append _ _)⟩
  rollback_sound _ _ _ _ h _ := ⟨trivial, h.imp_left fun h => h.mono (List.prefix_append _ _)⟩
  crash_sound _ _ _ h _ := ⟨trivial, h.imp_left fun h => h.mono (List.prefix_append _ _)⟩

section Operations

variable {charges : List SettlementCharge} {operations : List ReserveOperation}
  {operation : ReserveOperation} {worker : Nat} {top : Session system} {shared : Shared system}
  {settings : Settings} {currencies : List String}

theorem BearsReserve.mono {writes more : List (Write schema)} (bears : BearsReserve writes) :
    BearsReserve (writes ++ more) := by
  obtain ⟨write, hwrite, htable⟩ := bears
  exact ⟨write, List.mem_append_left _ hwrite, htable⟩

theorem BearsReserve.posting (posting : Posting) (writes : List (Write schema)) :
    BearsReserve (writes ++ posting.writes) := by
  refine ⟨.insert Table.ledgerTransaction posting.header, List.mem_append_right _ ?_, .inl rfl⟩
  simp [Posting.writes, Posting.bookWrites, inserts]

/-- The transaction of an operation: as long as it has moved nothing it keeps the account
empty. -/
structure Steady (charges : List SettlementCharge) (operations : List ReserveOperation)
    (operation : ReserveOperation) (worker : Nat) (top : Session system)
    (shared : Shared system) : Prop where
  here : Progress (reserveDiscipline charges operations) worker [] top shared top shared
  keeps : ¬ (MovesReserve charges operation ∧ BearsReserve top.writes) →
    ¬ ReserveMoved charges operations shared →
      Keeps top.keys top.writes shared (Unreserved charges)

/-- The transaction has no other beside it, and is steady. -/
def SteadyStack (charges : List SettlementCharge) (operations : List ReserveOperation)
    (operation : ReserveOperation) (worker : Nat) (stack : List (Session system))
    (shared : Shared system) : Prop :=
  ∃ top, stack = [top] ∧ Steady charges operations operation worker top shared

theorem Steady.step {top' : Session system} {shared' : Shared system}
    {more : List (Write schema)} {Valid : Database → Prop}
    (steady : Steady charges operations operation worker top shared)
    (progress : Progress (reserveDiscipline charges operations) worker [] top shared top' shared')
    (hwrites : top'.writes = top.writes ++ more)
    (seen : Seen top'.keys top.writes shared' Valid)
    (keep : ¬ (MovesReserve charges operation ∧ BearsReserve top'.writes) →
      ¬ ReserveMoved charges operations shared' →
        ∀ db, Valid db → Unreserved charges db → Unreserved charges (applyAll more db)) :
    Steady charges operations operation worker top' shared' where
  here := progress.here
  keeps hmoves hmoved := by
    have hbefore : ¬ ReserveMoved charges operations shared := fun h =>
      hmoved (h.mono progress.rely.trace)
    have hearlier : ¬ (MovesReserve charges operation ∧ BearsReserve top.writes) := fun h =>
      hmoves ⟨h.1, hwrites ▸ h.2.mono⟩
    have keep := keep hmoves hmoved
    rw [hwrites]
    exact ((steady.keeps hearlier hbefore).later (progress.later steady.here.good)
      progress.keys).append seen keep

/-- Writes that never concern the reserve. -/
theorem Steady.quiet {top' : Session system} {shared' : Shared system}
    {more : List (Write schema)}
    (steady : Steady charges operations operation worker top shared)
    (progress : Progress (reserveDiscipline charges operations) worker [] top shared top' shared')
    (hwrites : top'.writes = top.writes ++ more)
    (keep : ∀ db, Unreserved charges db → Unreserved charges (applyAll more db)) :
    Steady charges operations operation worker top' shared' := by
  have seen : Seen (Y := system) top'.keys top.writes shared' fun _ => True :=
    fun _ _ => trivial
  exact steady.step progress hwrites seen fun _ _ db _ h => keep db h

theorem Steady.same {shared' : Shared system}
    (steady : Steady charges operations operation worker top shared)
    (progress : Progress (reserveDiscipline charges operations) worker [] top shared top shared') :
    Steady charges operations operation worker top shared' where
  here := progress.here
  keeps hmoves hmoved :=
    (steady.keeps hmoves fun h => hmoved (h.mono progress.rely.trace)).later
      (progress.later steady.here.good) fun _ h => h

/-- The commit of an operation either moves something or keeps the account empty. -/
theorem reserve_commit (hjob : operations[worker]? = some operation)
    (good : (reserveDiscipline charges operations).Good shared)
    (keeps : ¬ (MovesReserve charges operation ∧ BearsReserve top.writes) →
      ¬ ReserveMoved charges operations shared →
        Keeps top.keys top.writes shared (Unreserved charges)) :
    (reserveDiscipline charges operations).invariant (shared.commit worker top) := by
  have hmono (h : ReserveMoved charges operations shared) :
      ReserveMoved charges operations (shared.commit worker top) :=
    h.mono (List.prefix_append _ _)
  by_cases hmoved : ReserveMoved charges operations shared
  · exact .inl (hmono hmoved)
  · have hempty := good.2.resolve_left hmoved
    by_cases hmoves : MovesReserve charges operation ∧ BearsReserve top.writes
    · left
      refine ⟨worker, operation, hjob, hmoves.1, top.name, top.writes, hmoves.2, ?_⟩
      rw [Shared.eventsOf_commit]
      exact List.mem_append_right _ (List.mem_singleton_self _)
    · exact .inr ((keeps hmoves hmoved).now good.1 hempty)

theorem Steady.commits (steady : Steady charges operations operation worker top shared)
    (hjob : operations[worker]? = some operation) :
    Commits (reserveDiscipline charges operations) worker top [] shared fun _ => True := by
  intro shared' rely good foot _
  have progress := Progress.of_rely steady.here.good steady.here.foot rely
  exact ⟨trivial, reserve_commit hjob good (steady.same progress).keeps, trivial⟩

/-- A transaction has written nothing, or something that may move the reserve. -/
def EndsBearing (stack : List (Session system)) : Prop :=
  ∃ top, stack = [top] ∧ (top.writes = [] ∨ BearsReserve top.writes)

/-- So does the transaction of an operation that may move the reserve end. -/
theorem commits_moves (hjob : operations[worker]? = some operation)
    (hmoves : MovesReserve charges operation)
    (hbears : top.writes = [] ∨ BearsReserve top.writes) :
    Commits (reserveDiscipline charges operations) worker top [] shared fun _ => True := by
  intro shared' rely good foot _
  refine ⟨trivial, reserve_commit hjob good fun h _ => ?_, trivial⟩
  rcases hbears with hnone | hbears
  · rw [hnone]
    exact Keeps.nil
  · exact absurd ⟨hmoves, hbears⟩ h

/-- A posting of the operation, without a reserve leg where it must have none. -/
theorem Steady.wpr_post {request : PostRequest}
    (steady : Steady charges operations operation worker top shared)
    (hlines : ¬ MovesReserve charges operation → ¬ ReserveMoved charges operations shared →
      signedTotal request.lines .merchantReserve = 0) :
    wpr (reserveDiscipline charges operations) worker (LedgerPoster.post request)
      (fun _ => SteadyStack charges operations operation worker)
      (fun _ stack _ => ∃ top, stack = [top]) [top] shared := by
  refine LedgerPoster.wpr_post
    (fun shared' top' posting progress hrequest hwrites hvalid _ => ?_)
    (fun shared' existing progress _ _ _ => ?_) (fun _ _ _ _ => ⟨_, rfl⟩) steady.here
  · refine ⟨top', rfl, steady.step progress hwrites hvalid fun hmoves hmoved db valid h => ?_⟩
    refine h.posting valid ?_
    rw [hrequest]
    have hposted : BearsReserve top'.writes := by
      rw [hwrites]
      exact .posting posting _
    exact hlines (fun h => hmoves ⟨h, hposted⟩) fun h => hmoved (h.mono progress.rely.trace)
  · exact ⟨top, rfl, steady.same progress⟩

theorem PaymentEventConsumer.wpr_handlePaymentCaptured {eventId : String}
    {occurredAt : Instant} {livemode : Bool} {data : PaymentCapturedPayload}
    (hoperation : operation = .capture eventId occurredAt livemode data)
    (steady : Steady charges operations operation worker top shared)
    (hwrites : top.writes = []) :
    wpr (reserveDiscipline charges operations) worker
      (handlePaymentCaptured currencies eventId occurredAt livemode data)
      (fun _ => SteadyStack charges operations operation worker)
      (fun _ stack _ => ∃ top, stack = [top]) [top] shared := by
  unfold handlePaymentCaptured
  rw [wpr_bind]
  refine Async.wpr_getOrRaise (fun shared₁ charge progress₁ hcharge => ?_) fun _ _ _ => ⟨_, rfl⟩
  have steady₁ := steady.same progress₁
  have hreserve (hmoves : ¬ MovesReserve charges operation)
      (hmoved : ¬ ReserveMoved charges operations shared₁) :
      applyBps data.capturedAmountMinor charge.reserveBps = .ok 0 := by
    have hempty := progress₁.good.2.resolve_left hmoved
    obtain ⟨hrow, hkey⟩ := Schema.mem_holders.mp hcharge
    have hid : charge.chargeId = data.chargeId := by
      simpa [Table.keys, eq_comm] using hkey
    have hcommitted : charge ∈ (shared₁.committed : Database).charges := by
      change charge ∈ (applyAll top.writes shared₁.committed : Database).charges at hrow
      rw [hwrites] at hrow
      exact hrow
    obtain ⟨original, horiginal, hsame, hbps⟩ := hempty.terms charge hcommitted
    by_contra hne
    refine hmoves ?_
    rw [hoperation]
    exact ⟨original, horiginal, hsame.trans hid, by rw [hbps]; exact hne⟩
  split
  · exact ⟨top, rfl, steady₁⟩
  · rw [wpr_bind]
    have hnext (shared₂ : Shared system) (top₂ : Session system)
        (hlater : shared₁.trace <+: shared₂.trace)
        (steady₂ : Steady charges operations operation worker top₂ shared₂) :
        wpr (reserveDiscipline charges operations) worker (do
            let lines ← Async.check
              ((capturePostingRule currencies).build (captureContext charge data))
            let key ← Async.check (ledgerKey "capture" data.merchantId data.chargeId)
            let _ ← LedgerPoster.post (chargeRequest .capture data.merchantId data.chargeId
              data.currency livemode eventId key lines)
            pure ())
          (fun _ => SteadyStack charges operations operation worker)
          (fun _ stack _ => ∃ top, stack = [top]) [top₂] shared₂ := by
      rw [wpr_bind]
      refine Async.wpr_check (fun lines hlines => ?_) fun _ _ => ⟨_, rfl⟩
      rw [wpr_bind]
      refine Async.wpr_check (fun key _ => ?_) fun _ _ => ⟨_, rfl⟩
      rw [wpr_bind]
      refine wpr_mono (steady₂.wpr_post fun hmoves hmoved => ?_)
        (fun _ _ _ h => h) fun _ _ _ h => h
      exact capture_unreserved hlines (hreserve hmoves fun h => hmoved (h.mono hlater))
    refine Async.wpr_update (fun shared₂ row progress₂ hrow progress₂' => ?_)
      (fun shared₂ progress₂ _ => ?_) fun _ _ _ _ _ => ⟨_, rfl⟩
    · refine hnext shared₂ _ progress₂'.rely.trace (steady₁.quiet progress₂' rfl fun db h => ?_)
      obtain ⟨doubleEntry, empty, holds, terms⟩ := h
      refine ⟨⟨doubleEntry.two, doubleEntry.balance, doubleEntry.positive, doubleEntry.headed,
        doubleEntry.placed⟩, empty, holds, ?_⟩
      intro changed hchanged
      obtain ⟨source, hsource, rfl⟩ := List.mem_map.mp hchanged
      obtain ⟨original, horiginal, hid, hbps⟩ := terms source hsource
      refine ⟨original, horiginal, ?_⟩
      split
      · exact ⟨hid, hbps⟩
      · exact ⟨hid, hbps⟩
    · exact hnext shared₂ top progress₂.rely.trace (steady₁.same progress₂)

/-- The answer of an acquirer is no business of the reserve. -/
theorem Steady.wpr_call {request : Request}
    {ok : request.Reply → List (Session system) → Shared system → Prop}
    {error : Exception → List (Session system) → Shared system → Prop}
    (steady : Steady charges operations operation worker top shared)
    (h : ∀ shared' reply, Steady charges operations operation worker top shared' →
      ok reply [top] shared') :
    wpr (reserveDiscipline charges operations) worker (Async.call request) ok error [top]
      shared := by
  refine Library.wpr_call (Y := system) fun shared₁ choice reply world rely good _ _ => ?_
  have steady₁ := steady.same (.of_rely steady.here.good steady.here.foot rely)
  have hmono (moved : ReserveMoved charges operations shared₁) :
      ReserveMoved charges operations (shared₁.answer worker world request reply) :=
    moved.mono (List.prefix_append _ _)
  have good' : (reserveDiscipline charges operations).Good
      (shared₁.answer worker world request reply) := ⟨good.1, good.2.imp_left hmono⟩
  refine ⟨trivial, good'.2, h _ reply ⟨⟨.refl _ _ _, good', steady₁.here.foot, rfl, rfl,
    fun _ h => h, fun _ h => h⟩, fun hmoves hmoved => ?_⟩⟩
  exact steady₁.keeps hmoves fun moved => hmoved (hmono moved)

theorem SettlementPoster.steady_answered {α : Type} {item : ReconciliationItem}
    {reply : Except Exception α}
    {ok : α → List (Session system) → Shared system → Prop} {stack : List (Session system)}
    (hstack : ∃ top, stack = [top]) (h : ∀ value, ok value stack shared) :
    wpr (reserveDiscipline charges operations) worker (SettlementPoster.answered item reply) ok
      (fun _ stack _ => ∃ top, stack = [top]) stack shared := by
  cases reply with
  | ok value => exact h value
  | error raised =>
      obtain ⟨thrown, hthrown⟩ := SettlementPoster.answered_error (α := α) item raised
      rw [hthrown]
      exact hstack

theorem SettlementPoster.steady_publish {type stampName : String} {item : ReconciliationItem}
    {payload : List (String × Json)}
    (steady : Steady charges operations operation worker top shared) :
    wpr (reserveDiscipline charges operations) worker
      (SettlementPoster.publishItemEvent type stampName item payload)
      (fun _ => SteadyStack charges operations operation worker)
      (fun _ stack _ => ∃ top, stack = [top]) [top] shared := by
  unfold SettlementPoster.publishItemEvent
  rw [wpr_bind]
  refine Async.wpr_now fun shared₁ progress₁ => ?_
  refine OutboxPublisher.wpr_publish (fun shared₂ event _ _ progress₂ => ?_)
    fun _ _ => ⟨_, rfl⟩
  exact ⟨_, rfl, (steady.same progress₁).quiet progress₂ rfl fun db h => h.outbox event⟩

theorem SettlementPoster.steady_capture {item : ReconciliationItem} {charge : SettlementCharge}
    {chargeId : String} (steady : Steady charges operations operation worker top shared) :
    wpr (reserveDiscipline charges operations) worker
      (SettlementPoster.capture item charge chargeId)
      (fun _ => SteadyStack charges operations operation worker)
      (fun _ stack _ => ∃ top, stack = [top]) [top] shared := by
  unfold SettlementPoster.capture
  rw [wpr_bind]
  refine Async.wpr_check (fun key _ => ?_) fun _ _ => ⟨_, rfl⟩
  rw [wpr_bind]
  refine steady.wpr_call fun shared₁ reply steady₁ => ?_
  rw [wpr_bind]
  exact SettlementPoster.steady_answered ⟨top, rfl⟩ fun _ => ⟨top, rfl, steady₁⟩

theorem SettlementPoster.steady_publishDuplicate {item : ReconciliationItem} {key : String}
    {existing : LedgerTransaction} {caller : Caller}
    (steady : Steady charges operations operation worker top shared) :
    wpr (reserveDiscipline charges operations) worker
      (SettlementPoster.publishDuplicate settings item key existing caller)
      (fun _ => SteadyStack charges operations operation worker)
      (fun _ stack _ => ∃ top, stack = [top]) [top] shared := by
  unfold SettlementPoster.publishDuplicate
  rw [wpr_bind]
  refine wpr_mono (SettlementPoster.steady_publish steady) ?_ fun _ _ _ h => h
  rintro _ _ shared₁ ⟨top₁, rfl, steady₁⟩
  split
  · rw [wpr_bind]
    refine steady₁.wpr_call fun shared₂ counted steady₂ => ?_
    exact Async.wpr_check (fun _ _ => ⟨top₁, rfl, steady₂⟩) fun _ _ => ⟨top₁, rfl⟩
  · exact ⟨top₁, rfl, steady₁⟩

theorem SettlementPoster.steady_afterClaim {item : ReconciliationItem}
    {charge : SettlementCharge} {chargeId key : String} {caller : Caller} {posted : PostResult}
    (steady : Steady charges operations operation worker top shared) :
    wpr (reserveDiscipline charges operations) worker
      (SettlementPoster.afterClaim settings item charge chargeId key caller posted)
      (fun _ => SteadyStack charges operations operation worker)
      (fun _ stack _ => ∃ top, stack = [top]) [top] shared := by
  unfold SettlementPoster.afterClaim
  split
  · dsimp only
    split
    · rw [wpr_bind]
      refine wpr_mono (SettlementPoster.steady_capture steady) ?_ fun _ _ _ h => h
      rintro _ _ shared₁ ⟨top₁, rfl, steady₁⟩
      rw [wpr_bind]
      exact SettlementPoster.steady_publish steady₁
    · rw [wpr_bind]
      exact SettlementPoster.steady_publish steady
  · rw [wpr_bind]
    exact SettlementPoster.steady_publishDuplicate steady

/-- Only the two reserve lines of a file have a leg on the reserve account. -/
theorem SettlementPoster.steady_postSettlement {item : ReconciliationItem} {caller : Caller}
    (hoperation : operation = .settle item caller)
    (steady : Steady charges operations operation worker top shared) :
    wpr (reserveDiscipline charges operations) worker
      (SettlementPoster.postSettlement settings item caller)
      (fun _ => SteadyStack charges operations operation worker)
      (fun _ stack _ => ∃ top, stack = [top]) [top] shared := by
  unfold SettlementPoster.postSettlement
  rw [wpr_bind]
  refine Library.wpr_mark (Y := system) fun shared₁ rely good => ?_
  have steady₁ := steady.same (.of_rely steady.here.good steady.here.foot rely)
  have steady₂ : Steady charges operations operation worker
      (top.mark (.posting item.batchId item.id)) shared₁ :=
    ⟨⟨.refl _ _ _, good, steady₁.here.foot, rfl, rfl, fun _ h => h, fun _ h => h⟩, steady₁.keeps⟩
  have free (lock : Lock system) :
      (reserveDiscipline charges operations).required (.posting item.batchId item.id) ≠
        some lock := by
    simp [reserveDiscipline]
  refine ⟨⟨fun lock hlock => absurd hlock (free lock), fun lock hlock =>
    absurd hlock (free lock), trivial⟩, ?_⟩
  unfold SettlementPoster.confirm
  rw [wpr_bind, wpr_bind]
  refine steady₂.wpr_call fun shared₃ reply steady₃ => ?_
  refine SettlementPoster.steady_answered ⟨_, rfl⟩ fun _ => ?_
  cases item.chargeId with
  | none => exact ⟨_, rfl⟩
  | some chargeId =>
      dsimp only
      rw [wpr_bind]
      refine Async.wpr_check (fun key _ => ?_) fun _ _ => ⟨_, rfl⟩
      rw [wpr_bind]
      refine Async.wpr_getOrRaise (fun shared₄ charge progress₄ _ => ?_) fun _ _ _ => ⟨_, rfl⟩
      have steady₄ := steady₃.same progress₄
      rw [wpr_bind]
      cases item.merchantId with
      | none => exact ⟨_, rfl⟩
      | some merchantId =>
          refine Async.wpr_getOrRaise (fun shared₅ merchant progress₅ _ => ?_)
            fun _ _ _ => ⟨_, rfl⟩
          have steady₅ := steady₄.same progress₅
          split
          · rw [wpr_bind]
            refine wpr_mono (SettlementPoster.steady_publish steady₅) ?_ fun _ _ _ h => h
            rintro _ _ _ ⟨top₆, rfl, -⟩
            exact ⟨top₆, rfl⟩
          · rw [wpr_bind]
            refine Async.wpr_check (fun lines hlines => ?_) fun _ _ => ⟨_, rfl⟩
            rw [wpr_bind]
            refine wpr_mono (steady₅.wpr_post fun hmoves _ => ?_) ?_ fun _ _ _ h => h
            · rw [hoperation] at hmoves
              exact settleLines_unreserved hlines (fun h => hmoves (.inl h))
                fun h => hmoves (.inr h)
            · rintro posted _ shared₆ ⟨top₆, rfl, steady₆⟩
              exact SettlementPoster.steady_afterClaim steady₆

theorem ReserveService.ends_createHold {request : HoldRequest} {name : SessionName} :
    wpr (reserveDiscipline charges operations) worker (createHold request)
      (fun _ stack _ => EndsBearing stack) (fun _ stack _ => ∃ top, stack = [top])
      [Session.fresh name] shared := by
  unfold createHold
  split
  · exact ⟨_, rfl⟩
  · rw [wpr_bind]
    refine Async.wpr_check (fun _ _ => ?_) fun _ _ => ⟨_, rfl⟩
    rw [wpr_bind]
    refine Async.wpr_add (fun _ _ _ _ => ?_) fun _ _ _ => ⟨_, rfl⟩
    exact ⟨_, rfl, .inr ⟨_, List.mem_singleton_self _, .inr rfl⟩⟩

theorem ReserveService.ends_releaseOne {holdId : String} {name : SessionName} :
    wpr (reserveDiscipline charges operations) worker (releaseOne settings holdId)
      (fun _ stack _ => EndsBearing stack) (fun _ stack _ => ∃ top, stack = [top])
      [Session.fresh name] shared := by
  unfold releaseOne
  rw [wpr_bind]
  refine Async.wpr_getOrRaise (fun shared₁ hold progress₁ _ => ?_) fun _ _ _ => ⟨_, rfl⟩
  split
  · exact ⟨_, rfl, .inl rfl⟩
  · rw [wpr_bind]
    refine Async.wpr_check (fun _ _ => ?_) fun _ _ => ⟨_, rfl⟩
    rw [wpr_bind]
    refine Async.wpr_check (fun _ _ => ?_) fun _ _ => ⟨_, rfl⟩
    rw [wpr_bind]
    have hupdated (top : Session system) (row : ReserveHold)
        (change : ReserveHold → ReserveHold) (immutable) :
        BearsReserve (top.rewrite Table.reserveHold (.hold hold.id) change immutable row).writes :=
      ⟨_, List.mem_append_right _ (List.mem_singleton_self _), .inr rfl⟩
    refine LedgerPoster.wpr_post (fun shared₂ top₂ posting _ _ hwrites _ _ => ?_)
      (fun shared₂ _ _ _ _ _ => ?_) (fun _ _ _ _ => ⟨_, rfl⟩) progress₁.here
    · rw [wpr_bind]
      refine Async.wpr_update (fun _ row _ _ _ => ?_) (fun _ _ _ => ?_) fun _ _ _ _ _ => ⟨_, rfl⟩
      · exact ⟨_, rfl, .inr (hupdated top₂ row _ _)⟩
      · refine ⟨_, rfl, .inr ?_⟩
        rw [hwrites]
        exact .posting posting _
    · rw [wpr_bind]
      refine Async.wpr_update (fun _ row _ _ _ => ?_) (fun _ _ _ => ?_) fun _ _ _ _ _ => ⟨_, rfl⟩
      · exact ⟨_, rfl, .inr (hupdated _ row _ _)⟩
      · exact ⟨_, rfl, .inl rfl⟩

/-- The passes over the holds, one transaction a hold. -/
theorem ReserveService.moves_releaseAll {holdIds : List String} {released : Nat}
    (hjob : operations[worker]? = some operation) (hmoves : MovesReserve charges operation) :
    wpr (reserveDiscipline charges operations) worker (releaseAll settings holdIds released)
      (fun _ _ _ => True) (fun _ _ _ => True) [] shared := by
  induction holdIds generalizing released shared with
  | nil => trivial
  | cons holdId holdIds ih =>
      unfold releaseAll
      rw [wpr_bind]
      refine wpr_withSession fun shared₁ _ _ _ _ => ?_
      refine wpr_mono ReserveService.ends_releaseOne ?_ ?_
      · rintro done _ shared₂ ⟨top, rfl, hbears⟩
        refine ⟨top, rfl, fun shared₃ rely good foot permits => ?_⟩
        obtain ⟨hguarantee, hinvariant, -⟩ :=
          commits_moves hjob hmoves hbears shared₃ rely good foot permits
        exact ⟨hguarantee, hinvariant, ih⟩
      · rintro _ _ shared₂ ⟨top, rfl⟩
        exact ⟨top, rfl, fun _ _ _ _ => trivial⟩

theorem ReserveOperation.wp_run (hjob : operations[worker]? = some operation) :
    wp (reserveDiscipline charges operations) worker (operation.run settings currencies).run
      (fun _ _ _ => True) [] shared := by
  have hending : wpr (reserveDiscipline charges operations) worker
      (operation.run settings currencies) (fun _ _ _ => True) (fun _ _ _ => True) [] shared := by
    have hcommits (shared' : Shared system) (stack : List (Session system))
        (h : SteadyStack charges operations operation worker stack shared') :
        ∃ top, stack = [top] ∧
          Commits (reserveDiscipline charges operations) worker top [] shared' fun _ => True := by
      obtain ⟨top, rfl, steady⟩ := h
      exact ⟨top, rfl, steady.commits hjob⟩
    have hrollsBack (shared' : Shared system) (stack : List (Session system))
        (h : ∃ top, stack = [top]) :
        ∃ top, stack = [top] ∧ RollsBack (reserveDiscipline charges operations) worker top []
          shared' fun _ => True := by
      obtain ⟨top, rfl⟩ := h
      exact ⟨top, rfl, fun _ _ _ _ => trivial⟩
    cases hkind : operation with
    | capture eventId occurredAt livemode data =>
        simp only [ReserveOperation.run]
        refine wpr_withSession fun shared₁ _ _ _ good₁ => ?_
        refine wpr_mono (PaymentEventConsumer.wpr_handlePaymentCaptured hkind
          ⟨.start good₁, fun _ _ => Keeps.nil⟩ rfl) ?_ ?_
        · intro _ stack shared₂ h
          exact hcommits shared₂ stack h
        · intro _ stack shared₂ h
          exact hrollsBack shared₂ stack h
    | settle item caller =>
        simp only [ReserveOperation.run]
        rw [wpr_bind]
        refine wpr_withSession fun shared₁ _ _ _ good₁ => ?_
        refine wpr_mono (SettlementPoster.steady_postSettlement hkind
          ⟨.start good₁, fun _ _ => Keeps.nil⟩) ?_ ?_
        · intro _ stack shared₂ h
          exact hcommits shared₂ stack h
        · intro _ stack shared₂ h
          exact hrollsBack shared₂ stack h
    | createHold request =>
        simp only [ReserveOperation.run]
        rw [wpr_bind]
        refine wpr_withSession fun shared₁ _ _ _ _ => ?_
        refine wpr_mono ReserveService.ends_createHold ?_ ?_
        · rintro _ _ shared₂ ⟨top, rfl, hbears⟩
          exact ⟨top, rfl, commits_moves hjob (by rw [hkind]; trivial) hbears⟩
        · intro _ stack shared₂ h
          exact hrollsBack shared₂ stack h
    | releaseDue on limit =>
        simp only [ReserveOperation.run, ReserveService.releaseDue]
        have hmoves : MovesReserve charges operation := by
          rw [hkind]
          trivial
        rw [wpr_bind, wpr_bind]
        refine wpr_withSession fun shared₁ _ _ _ _ => ?_
        rw [wpr_bind]
        refine wpr_select (Y := system) fun shared₂ _ => ?_
        refine ⟨_, rfl, fun shared₃ rely good foot permits => ?_⟩
        obtain ⟨hguarantee, hinvariant, -⟩ :=
          commits_moves hjob hmoves (.inl rfl) shared₃ rely good foot permits
        exact ⟨hguarantee, hinvariant, ReserveService.moves_releaseAll hjob hmoves⟩
  refine wp_mono hending fun _ _ _ _ => trivial

end Operations

/-- As long as no operation that moves one of the two has posted or changed a hold, the reserve
account is what the holds say, in every reachable state. -/
theorem reserveBacked_run {settings : Settings} {currencies : List String} {db : Database}
    {world : World} (unique : Schema.Unique (S := schema) db) (ledger : DoubleEntry db)
    (hholds : db.holds = [])
    (hempty : ∀ merchantId currency livemode, reserveBalance merchantId currency livemode db = 0)
    (operations : List ReserveOperation) {config : Config system (Except Exception Unit)}
    (hrun : Config.Run anyMove
      (Config.start db world (reserveOperationWorkers settings currencies operations)) config)
    (hsteps : ∀ (worker : Nat) operation, operations[worker]? = some operation →
      CommittedWrites worker config.shared → ¬ MovesReserve db.charges operation) :
    ReserveBacked config.shared.committed := by
  have stable : StablePost (reserveDiscipline db.charges operations)
      (fun _ (_ : Except Exception Unit) _ _ => True) := fun _ _ _ _ _ _ _ _ => trivial
  have hstart : (reserveDiscipline db.charges operations).invariant
      (Config.start db world (reserveOperationWorkers settings currencies operations)).shared :=
    .inr ⟨ledger, hempty, hholds, fun charge hcharge => ⟨charge, hcharge, rfl, rfl⟩⟩
  have sound := Sound.run stable (Sound.start ⟨unique, hstart⟩
    fun worker program hprogram => by
      simp only [reserveOperationWorkers, List.getElem?_map, Option.map_eq_some_iff] at hprogram
      obtain ⟨operation, hjob, rfl⟩ := hprogram
      exact ReserveOperation.wp_run hjob) hrun
  rcases sound.good.2 with ⟨worker, operation, hjob, hmoves, hwrote⟩ | unreserved
  · exact absurd hmoves (hsteps worker operation hjob hwrote)
  · exact unreserved.backed

/-! ## One capture -/

/-- A charge of ten euros, of which the given rate goes to the reserve. -/
def sampleReservedCharge (reserveBps : Int) : SettlementCharge :=
  chargeProjection
    { chargeId := "ch_1"
      merchantId := "mer_1"
      amountMinor := 1000
      currency := "EUR"
      acquirer := "northgate"
      networkTransactionId := none
      processorReference := none
      captureMethod := "automatic"
      captureAtSettlement := false
      reserveBps := some reserveBps
      platformFeeBps := none
      platformFeeFixedMinor := none
      authorizedAt := 1 }
    "evt_1" 1 true

def sampleCapture : ReserveOperation :=
  .capture "evt_2" 2 true
    { chargeId := "ch_1"
      merchantId := "mer_1"
      capturedAmountMinor := 1000
      currency := "EUR"
      capturedAt := 2 }

def sampleCaptureStart (reserveBps : Int) : Config system (Except Exception Unit) :=
  Config.start { charges := [sampleReservedCharge reserveBps] } { clock := 10 }
    (reserveOperationWorkers sampleSettings ["EUR"] [sampleCapture])

/-- The steps of the capture up to its last leg, which go on as given. -/
def captureSchedule (rest : List Choice) : List (Action system) :=
  advances 0 (([.plain, .plain, .plain, .id "1", .instant 3, .plain, .plain, .plain, .id "2",
    .plain, .id "3", .instant 3, .plain, .id "4", .plain, .id "5", .instant 3, .plain, .id "6",
    .plain, .id "7", .instant 3, .plain, .id "8", .plain, .id "9", .instant 3,
    .plain] : List Choice) ++ rest)

/-- A capture that withholds nothing is committed. -/
theorem reserveBacked_run_capture :
    ∃ config, Config.Run anyMove (sampleCaptureStart 0) config ∧
      config.shared.committed.transactions.length = 1 ∧
      ReserveBacked config.shared.committed := by
  have hschedule : ((sampleCaptureStart 0).schedule anyMove (captureSchedule
      [.plain, .plain, .plain, .plain, .plain, .id "10", .plain, .plain])).map
        (fun config => config.shared.committed.transactions.length) = some 1 := by
    decide +kernel
  obtain ⟨config, hconfig, hposted⟩ := Option.map_eq_some_iff.mp hschedule
  have hrun := Config.run_of_schedule hconfig
  have unique : Schema.Unique (S := schema)
      ({ charges := [sampleReservedCharge 0] } : Database) :=
    Schema.unique_of_pairwise fun table => by cases table <;> first | exact .nil | simp [Table.rows]
  refine ⟨config, hrun, hposted, reserveBacked_run unique ⟨by simp, by simp, by simp, by simp,
    by simp⟩ rfl (fun _ _ _ => rfl) _ hrun ?_⟩
  intro worker operation hjob _
  obtain ⟨rfl, rfl⟩ : worker = 0 ∧ sampleCapture = operation := by
    rcases worker with _ | worker <;> simp at hjob
    exact ⟨rfl, hjob⟩
  rintro ⟨charge, hcharge, -, hreserve⟩
  obtain rfl := List.mem_singleton.mp hcharge
  exact hreserve rfl

/-- A capture at five per cent leaves half a euro on the reserve account and no hold
behind it. -/
theorem capture_without_hold :
    ∃ config, Config.Run anyMove (sampleCaptureStart 500) config ∧
      ¬ ReserveBacked config.shared.committed := by
  have hschedule : ((sampleCaptureStart 500).schedule anyMove (captureSchedule
      [.id "10", .plain, .id "11", .instant 3, .plain, .plain, .plain, .plain, .plain, .plain,
       .plain, .id "12", .plain, .plain])).map
        (fun config => (reserveBalance "mer_1" "EUR" true config.shared.committed,
          outstandingHolds "mer_1" "EUR" true config.shared.committed)) = some (50, 0) := by
    decide +kernel
  obtain ⟨config, hconfig, hends⟩ := Option.map_eq_some_iff.mp hschedule
  refine ⟨config, Config.run_of_schedule hconfig, fun backed => ?_⟩
  have hbacked := backed "mer_1" "EUR" true
  obtain ⟨hbalance, hholds⟩ := Prod.mk.inj hends
  rw [hbalance, hholds] at hbacked
  cases hbacked

end PayzenoLedger
