import PayzenoLedger.Ledger.BalanceCache
import PayzenoLedger.Payouts.Reversals

/-!
# The creation of a payout

The amount of a payout is read under the lock of its balance, as of a time at which every
entry on the books is dated.  Nobody else pays out of the balance until the payout is
committed, so that what was available then is still there.
-/

set_option autoImplicit false

namespace PayzenoLedger

open Library Write

/-! ## What is available -/

section Available

variable {merchantId currency : String} {livemode : Bool} {asOf : Option Instant}

/-- An entry counts only when it is dated until then. -/
def weightUntil (asOf : Option Instant) (weight : LedgerEntry → AccountIdentity → Int)
    (entry : LedgerEntry) (identity : AccountIdentity) : Int :=
  if ∀ instant ∈ asOf, entry.createdAt ≤ instant then weight entry identity else 0

/-- What is payable is the credits less the debits. -/
theorem sumBuckets_payable (db : Database) :
    LedgerEntryRepository.sumBuckets merchantId currency livemode asOf db .merchantPayable =
      weigh (weightUntil asOf (payableWeight .credit merchantId currency livemode)) db -
        weigh (weightUntil asOf (payableWeight .debit merchantId currency livemode)) db := by
  have hnormal : ¬ Bucket.merchantPayable.accountType.normalBalance = some .debit := by decide
  unfold LedgerEntryRepository.sumBuckets LedgerEntryRepository.bucketRows
  dsimp only
  rw [if_neg hnormal, creditPositive_filter, weigh, weigh]
  induction LedgerEntryRepository.joined db with
  | nil => rfl
  | cons row rows ih =>
      simp only [List.map_cons, List.sum_cons]
      rw [ih]
      have hrow : (if decide (row.2.merchantId = some merchantId ∧ row.1.currency = currency ∧
            row.1.livemode = livemode ∧ row.2.type.bucket.isSome ∧
            ∀ instant ∈ asOf, row.1.createdAt ≤ instant) = true ∧
            row.2.type = Bucket.merchantPayable.accountType then
          if row.1.direction = .credit then row.1.amountMinor else -row.1.amountMinor
          else 0) =
          weightUntil asOf (payableWeight .credit merchantId currency livemode) row.1
              row.2.identity -
            weightUntil asOf (payableWeight .debit merchantId currency livemode) row.1
              row.2.identity := by
        unfold weightUntil payableWeight
        by_cases hdated : ∀ instant ∈ asOf, row.1.createdAt ≤ instant
        · by_cases hcase : row.2.merchantId = some merchantId ∧ row.1.currency = currency ∧
              row.1.livemode = livemode ∧ row.2.type = .merchantPayable
          · obtain ⟨hmerchant, hcurrency, hlivemode, htype⟩ := hcase
            simp only [eq_true hdated, hmerchant, hcurrency, hlivemode, htype, Account.identity,
              Bucket.accountType, AccountType.bucket, Option.isSome_some, and_self, decide_true,
              if_true, true_and]
            cases row.1.direction <;> simp
          · rw [if_neg fun h => hcase ?_, if_pos hdated, if_pos hdated, if_neg fun h => hcase ?_,
              if_neg fun h => hcase ?_]
            · rfl
            · exact ⟨h.1, h.2.2.1, h.2.2.2.1, h.2.1⟩
            · exact ⟨h.1, h.2.2.1, h.2.2.2.1, h.2.1⟩
            · have h' := of_decide_eq_true h.1
              exact ⟨h'.1, h'.2.1, h'.2.2.1, h.2⟩
        · rw [if_neg fun h => hdated ?_, if_neg hdated, if_neg hdated]
          · rfl
          · exact (of_decide_eq_true h.1).2.2.2.2
      omega

/-- No entry counts for less than nothing. -/
theorem weightUntil_nonneg {db : Database} (ledger : DoubleEntry db) {direction : Direction}
    {entry : LedgerEntry} (hentry : entry ∈ db.entries) (identity : AccountIdentity) :
    0 ≤ weightUntil asOf (payableWeight direction merchantId currency livemode) entry
      identity := by
  unfold weightUntil
  split
  · exact payableWeight_nonneg ledger hentry identity
  · exact le_refl _

variable {settings : Settings} {quiet : Prop} {worker : Nat} {held : Lock system → Prop}
  {shared shared' : Shared system}

/-- What was available at the cutoff is still credited, beyond all that is paid out. -/
theorem funded_of_available
    (rely : (payoutDiscipline settings quiet).Rely worker held shared shared')
    (good : (payoutDiscipline settings quiet).Good shared)
    (hheld : held (balanceLock settings merchantId currency)) :
    Funded merchantId currency livemode
      (LedgerEntryRepository.sumBuckets merchantId currency livemode
        (some shared.world.clock) shared'.committed .merchantPayable) shared' := by
  have good' := rely.good good
  have grows := (rely.later good).grows
  have hdrawn := drawn_le_of_rely rely hheld livemode
  have hcovered := good.2.law.covered merchantId currency livemode
  have hcredit : weigh (weightUntil (some shared.world.clock)
        (payableWeight .credit merchantId currency livemode)) shared'.committed ≤
      payableSum .credit merchantId currency livemode shared'.committed := by
    refine weigh_le_of_extends (Schema.Extends.refl _) good'.1 good'.1 good'.2.law.ledger
      (fun entry hentry identity => ?_) fun entry hentry identity => ?_
    · unfold weightUntil
      split
      · exact le_refl _
      · exact payableWeight_nonneg good'.2.law.ledger hentry identity
    · exact payableWeight_nonneg good'.2.law.ledger hentry identity
  have hdebit : payableSum .debit merchantId currency livemode shared.committed ≤
      weigh (weightUntil (some shared.world.clock)
        (payableWeight .debit merchantId currency livemode)) shared'.committed := by
    refine weigh_le_of_extends grows good.1 good'.1 good.2.law.ledger
      (fun entry hentry identity => ?_) fun entry hentry identity => ?_
    · rw [weightUntil, if_pos]
      intro instant hinstant
      exact Option.mem_some_iff.mp hinstant ▸ good.2.dated entry hentry
    · exact weightUntil_nonneg good'.2.law.ledger hentry identity
  rw [Funded, sumBuckets_payable]
  omega

end Available

/-! ## The reads -/

section Reads

variable {service : PayoutService} {quiet : Prop} {worker : Nat} {top : Session system}
  {shared : Shared system} {merchantId : String} {request : CreatePayoutRequest}
  {cached : RateCache}

/-- The session has done nothing but read. -/
def Reads (settings : Settings) (quiet : Prop) (top : Session system)
    (stack : List (Session system)) (shared : Shared system) : Prop :=
  stack = [top] ∧ (payoutDiscipline settings quiet).Good shared

/-- The answer of the provider is no business of the others. -/
theorem wpr_fxRates {base : String}
    {ok : Except Exception FxRates → List (Session system) → Shared system → Prop}
    {error : Exception → List (Session system) → Shared system → Prop}
    (h : ∀ shared' reply, (payoutDiscipline service.settings quiet).Good shared' →
      ok reply [top] shared') :
    wpr (payoutDiscipline service.settings quiet) worker (Async.call (.fxRates base)) ok error
      [top] shared := by
  refine wpr_call (Y := system) fun shared₁ choice reply world _ good hrespond _ => ?_
  have hworld : world = shared₁.world := by
    change World.respond worker (.fxRates base) choice shared₁.world = some (reply, world)
      at hrespond
    cases choice <;> cases hrespond <;> rfl
  subst hworld
  have invariant : PayoutInvariant quiet
      (shared₁.answer worker shared₁.world (.fxRates base) reply) :=
    ⟨good.2.law, good.2.credited, good.2.dated⟩
  exact ⟨.same rfl rfl, invariant, h _ reply ⟨good.1, invariant⟩⟩

theorem FxRateService.wpr_rates :
    wpr (payoutDiscipline service.settings quiet) worker (FxRateService.rates cached)
      (fun _ => Reads service.settings quiet top) (fun _ stack _ => ∃ top, stack = [top])
      [top] shared := by
  unfold rates
  rw [wpr_bind]
  refine Async.wpr_now fun shared₁ progress₁ => ?_
  split
  · exact ⟨rfl, progress₁.good⟩
  · rw [wpr_bind]
    refine wpr_fxRates fun shared₂ reply good₂ => ?_
    exact Async.wpr_check (fun _ _ => ⟨rfl, good₂⟩) fun _ _ => ⟨_, rfl⟩

theorem PayoutService.wpr_rateFor {fromCurrency toCurrency : String}
    (good : (payoutDiscipline service.settings quiet).Good shared) :
    wpr (payoutDiscipline service.settings quiet) worker
      (service.rateFor cached merchantId fromCurrency toCurrency)
      (fun _ => Reads service.settings quiet top) (fun _ stack _ => ∃ top, stack = [top])
      [top] shared := by
  unfold rateFor
  split
  · exact ⟨rfl, good⟩
  · split
    · exact ⟨_, rfl⟩
    · unfold FxRateService.payoutRate
      rw [wpr_bind, wpr_bind]
      refine wpr_mono FxRateService.wpr_rates ?_ fun _ _ _ h => h
      rintro rates _ shared₁ ⟨rfl, good₁⟩
      dsimp only
      rw [wpr_bind]
      exact Async.wpr_check (fun _ _ => ⟨rfl, good₁⟩) fun _ _ => ⟨_, rfl⟩

theorem PayoutService.wpr_resolveBank {merchant : MerchantProjection} {currency : String}
    {livemode : Bool} {bankAccountId : Option String} :
    wpr (payoutDiscipline service.settings quiet) worker
      (PayoutService.resolveBank merchant currency livemode bankAccountId)
      (fun _ => Reads service.settings quiet top) (fun _ stack _ => ∃ top, stack = [top])
      [top] shared := by
  unfold resolveBank
  split
  · rw [wpr_bind]
    refine Async.wpr_get (fun shared₁ bank progress₁ _ => ?_) fun shared₁ progress₁ _ => ?_
    · exact ⟨rfl, progress₁.good⟩
    · dsimp only
      rw [wpr_bind]
      refine wpr_select fun shared₂ progress₂ => ?_
      split
      · exact ⟨rfl, progress₂.good⟩
      · exact ⟨_, rfl⟩
  · rw [wpr_bind]
    refine Async.wpr_getOrRaise (fun shared₁ bank progress₁ _ => ?_) fun _ _ _ => ⟨_, rfl⟩
    split
    · exact ⟨_, rfl⟩
    · exact ⟨rfl, progress₁.good⟩

theorem PayoutService.wpr_plan :
    wpr (payoutDiscipline service.settings quiet) worker
      (service.plan cached merchantId request)
      (fun _ => Reads service.settings quiet top) (fun _ stack _ => ∃ top, stack = [top])
      [top] shared := by
  unfold plan
  rw [wpr_bind]
  refine Async.wpr_check (fun currency _ => ?_) fun _ _ => ⟨_, rfl⟩
  rw [wpr_bind]
  refine Async.wpr_getOrRaise (fun shared₁ merchant progress₁ _ => ?_) fun _ _ _ => ⟨_, rfl⟩
  dsimp only
  split
  · exact ⟨_, rfl⟩
  · rw [wpr_bind]
    refine wpr_mono PayoutService.wpr_resolveBank ?_ fun _ _ _ h => h
    rintro bank _ shared₂ ⟨rfl, good₂⟩
    split
    · exact ⟨_, rfl⟩
    · rw [wpr_bind]
      refine wpr_mono (PayoutService.wpr_rateFor good₂) ?_ fun _ _ _ h => h
      rintro rate _ shared₃ reads
      exact reads

/-! ## The amount -/

/-- The amount is on the balance, the balance is locked, and nothing is written yet. -/
structure Reserved (settings : Settings) (quiet : Prop) (worker : Nat) (merchantId : String)
    (plan : PayoutService.Plan) (requested : Int) (top : Session system)
    (shared : Shared system) : Prop where
  session : PayoutSession settings quiet worker [] (PayoutLaw quiet) top shared
  locked : balanceLock settings merchantId plan.currency ∈ top.locks
  funded : Funded merchantId plan.currency plan.livemode requested shared

theorem requestedAmount_le {currency : String} {available requested : Int}
    (h : PayoutService.requestedAmount merchantId currency request available = .ok requested) :
    requested ≤ available := by
  have hroom (amount : Int) (raised refused : Exception)
      (h : (if available ≤ 0 ∨ available < amount then .error raised
        else if amount ≤ 0 then .error refused else .ok amount) = Except.ok requested) :
      requested ≤ available := by
    split at h
    · cases h
    · next hroom =>
        split at h
        · cases h
        · cases h
          exact not_lt.mp fun hlt => hroom (.inr hlt)
  exact hroom _ _ _ h

theorem PayoutService.wpr_reserveAmount {plan : Plan} {name : SessionName}
    (good : (payoutDiscipline service.settings quiet).Good shared) :
    wpr (payoutDiscipline service.settings quiet) worker
      (service.reserveAmount merchantId plan request)
      (fun reserved stack shared' => ∃ top, stack = [top] ∧
        Reserved service.settings quiet worker merchantId plan reserved.1 top shared')
      (fun _ stack _ => ∃ top, stack = [top]) [Session.fresh name] shared := by
  unfold reserveAmount
  rw [wpr_bind]
  refine wpr_acquire fun shared₁ progress₁ => ?_
  rw [wpr_bind]
  refine Async.wpr_get (fun shared₂ inFlight _ _ => ⟨_, rfl⟩) fun shared₂ progress₂ _ => ?_
  dsimp only
  rw [wpr_bind]
  refine Async.wpr_now fun shared₃ progress₃ => ?_
  rw [wpr_bind]
  refine wpr_select fun shared₄ progress₄ => ?_
  rw [wpr_bind]
  refine Async.wpr_check (fun requested hrequested => ?_) fun _ _ => ⟨_, rfl⟩
  have funded : Funded merchantId plan.currency plan.livemode _ shared₄ :=
    funded_of_available progress₄.rely progress₃.good
      ⟨_, List.mem_singleton_self _, List.mem_singleton_self _⟩
  refine ⟨_, rfl, ?_, List.mem_singleton_self _, ?_⟩
  · exact (PayoutSession.start good).locked
      (progress₁.trans (progress₂.trans (progress₃.trans progress₄))) rfl
  · exact (Int.add_le_add_left (requestedAmount_le hrequested) _).trans funded

end Reads

/-! ## The booking -/

/-- A payout on file of which this is posted so far, its row as it was created. -/
def Creating (quiet : Prop) (payout : Payout) (posted : PayoutLeg → Option String)
    (db : Database) : Prop :=
  PayoutDraft quiet payout posted db ∧ ∀ row ∈ db.payouts, row.id = payout.id → row = payout

/-- The payout is posted in full, under this identifier. -/
def BookedAs (quiet : Prop) (payout : Payout) (id : String) (db : Database) : Prop :=
  ∃ posted, Creating quiet payout posted db ∧ payout.Named ∧ posted .balance = some id ∧
    (posted .bank).isSome = payout.isConverted ∧ posted .balanceReversal = none ∧
    posted .bankReversal = none

section Booking

variable {service : PayoutService} {quiet : Prop} {worker : Nat} {top : Session system}
  {shared : Shared system} {payout : Payout}

theorem Creating.onFile {posted : PayoutLeg → Option String} {db : Database}
    (creating : Creating quiet payout posted db) : ∃ row ∈ db.payouts, row.id = payout.id := by
  obtain ⟨row, hrow, hterms⟩ := creating.1.onFile
  exact ⟨row, hrow, Payout.of_terms hterms Payout.id fun _ => rfl⟩

theorem Creating.post {posted : PayoutLeg → Option String} {db : Database}
    (creating : Creating quiet payout posted db) {posting : Posting} (valid : posting.Valid db)
    (named : payout.Named) {leg : PayoutLeg} {purpose : Purpose} {fingerprint : String}
    (hrequest : posting.request = PayoutService.postRequest payout purpose
      (payout.legCurrency leg) (payout.key leg) fingerprint (payout.lines leg)) :
    Creating quiet payout (Function.update posted leg (some posting.header.id))
      (applyAll posting.writes db) := by
  refine ⟨(creating.1.post valid named hrequest).2, ?_⟩
  rw [posting.applyAll_writes]
  exact creating.2

/-- The row is linked to what was posted for it, and the law holds. -/
theorem BookedAs.finish {id : String} {db : Database} (booked : BookedAs quiet payout id db)
    (complete : payout.isConverted = false → payout.sourceAmountMinor = none)
    (hreversal : payout.reversalTransactionId = none)
    (hstatus : payout.status.isReversed = false) (result : InitiationResult) :
    PayoutLaw quiet { db with
      payouts := rewritten payout.id (PayoutService.initiated id result) db.payouts } := by
  obtain ⟨posted, ⟨draft, hrows⟩, named, balance, bank, balanceReversal, bankReversal⟩ := booked
  have hsome : (posted .balance).isSome := by
    rw [balance]
    rfl
  have hterms (row : Payout) : (PayoutService.initiated id result row).terms = row.terms := rfl
  refine (draft.rewrite hterms).law named complete (fun row hrow hid => ?_) hsome
  rcases mem_rewritten hrow with ⟨old, hold, holdId, rfl⟩ | ⟨-, hne⟩
  · rw [hrows old hold holdId]
    refine ⟨rfl, hsome, balance, bank, ?_, ?_, fun h => ?_⟩
    · exact balanceReversal.trans hreversal.symm
    · change _ = (payout.isConverted && payout.reversalTransactionId.isSome)
      rw [bankReversal, hreversal, Option.isSome_none, Bool.and_false]
    · change payout.status.isReversed = true at h
      rw [hstatus] at h
      cases h
  · exact absurd hid hne

/-- The row of a new payout. -/
theorem PayoutSession.wpr_create
    (session : PayoutSession service.settings quiet worker [] (PayoutLaw quiet) top shared) :
    wpr (payoutDiscipline service.settings quiet) worker (Async.add .payout payout)
      (fun _ => Reached service.settings quiet worker [payout]
        (Creating quiet payout fun _ => none) top shared)
      (fun _ stack _ => ∃ top, stack = [top]) [top] shared := by
  refine Async.wpr_add (fun shared₁ progress₁ hfree progress₁' => ?_) fun _ _ _ => ⟨_, rfl⟩
  have hkey : Key.payout payout.id ∈ Table.payout.keys payout := payoutKey_mem.mpr rfl
  have hlocked : (top.insert Table.payout payout).keys (.payout payout.id) :=
    List.mem_append_right _ (List.mem_map_of_mem hkey)
  have seen := Seen.holders progress₁.foot progress₁'.keys progress₁.good.1 hlocked
    (hfree _ hkey)
  refine ⟨_, rfl, progress₁', ?_⟩
  refine session.append progress₁' rfl seen (fun db hnone law => ?_)
    (fun _ h => absurd h List.not_mem_nil) rfl
  have hfresh (other : Payout) (hother : other ∈ db.payouts) : other.id ≠ payout.id :=
    fun hid => Schema.holders_eq_nil_iff.mp hnone other hother (payoutKey_mem.mpr hid)
  refine ⟨law.create hfresh, fun row hrow hid => ?_⟩
  rcases List.mem_append.mp hrow with hold | hnew
  · exact absurd hid (hfresh row hold)
  · exact List.mem_singleton.mp hnew

/-- A payout in the currency of its balance is posted once. -/
theorem PayoutService.wpr_postPayout
    (session : PayoutSession service.settings quiet worker [payout]
      (Creating quiet payout fun _ => none) top shared)
    (hsource : payout.sourceCurrency = none) (hamount : payout.sourceAmountMinor = none) :
    wpr (payoutDiscipline service.settings quiet) worker (service.postPayout payout)
      (fun id => Reached service.settings quiet worker [payout] (BookedAs quiet payout id) top
        shared)
      (fun _ stack _ => ∃ top, stack = [top]) [top] shared := by
  have hconverted : payout.isConverted = false := by rw [Payout.isConverted, hsource]; rfl
  have hcurrency : payout.currency = payout.legCurrency .balance := by
    rw [Payout.legCurrency, Payout.balanceCurrency, hsource]
    rfl
  have hlines : [debit .merchantPayable payout.amountMinor, credit .cash payout.amountMinor] =
      payout.lines .balance := by
    change _ = payout.balanceLines
    rw [Payout.balanceLines, hconverted, Payout.balanceAmountMinor, hamount]
    rfl
  refine PayoutService.wpr_postFor .balance payout (BookedAs quiet payout) session rfl hcurrency
    hlines fun db posting _ valid named hrequest creating => ?_
  refine ⟨_, creating.post valid named hrequest, named, ?_, ?_, ?_, ?_⟩
  · rw [Function.update_self]
  · rw [Function.update_of_ne (by decide), hconverted]
    rfl
  · rw [Function.update_of_ne (by decide)]
  · rw [Function.update_of_ne (by decide)]

/-- A converted payout is posted twice, the balance first. -/
theorem PayoutService.wpr_postConvertedPayout {conversion : FxConversion}
    (session : PayoutSession service.settings quiet worker [payout]
      (Creating quiet payout fun _ => none) top shared)
    (hsource : payout.sourceCurrency = some conversion.source.currency)
    (hsourceAmount : payout.sourceAmountMinor = some conversion.source.amountMinor)
    (htarget : payout.currency = conversion.target.currency)
    (htargetAmount : payout.amountMinor = conversion.target.amountMinor)
    (hspread : payout.fxSpreadMinor = some conversion.spreadMinor) :
    wpr (payoutDiscipline service.settings quiet) worker
      (service.postConvertedPayout payout conversion)
      (fun id => Reached service.settings quiet worker [payout] (BookedAs quiet payout id) top
        shared)
      (fun _ stack _ => ∃ top, stack = [top]) [top] shared := by
  have hconverted : payout.isConverted = true := by rw [Payout.isConverted, hsource]; rfl
  have hbalance : payout.balanceAmountMinor = conversion.source.amountMinor := by
    rw [Payout.balanceAmountMinor, hsourceAmount]
    rfl
  have hcurrency : conversion.source.currency = payout.legCurrency .balance := by
    rw [Payout.legCurrency, Payout.balanceCurrency, hsource]
    rfl
  unfold postConvertedPayout
  rw [wpr_bind]
  refine Async.wpr_check (fun sourceLines hsourceLines => ?_) fun _ _ => ⟨_, rfl⟩
  rw [wpr_bind]
  refine Async.wpr_check (fun targetLines htargetLines => ?_) fun _ _ => ⟨_, rfl⟩
  rw [← hbalance] at hsourceLines
  have hspreadLines : conversion.spreadMinor = payout.fxSpreadMinor.getD 0 := by
    rw [hspread]
    rfl
  rw [← htargetAmount, hspreadLines] at htargetLines
  refine Reached.wpr_bind (PayoutService.wpr_postFor .balance payout
    (fun id db => payout.Named ∧ Creating quiet payout
      (Function.update (fun _ => none) PayoutLeg.balance (some id)) db) session rfl hcurrency
    (balanceLines_of_rule hconverted hsourceLines)
    fun db posting _ valid named hrequest creating =>
      ⟨named, creating.post valid named hrequest⟩) ?_
  intro id top₁ shared₁ session₁
  refine Reached.wpr_bind (PayoutService.wpr_postFor .bank payout
    (fun _ => BookedAs quiet payout id) session₁ rfl htarget.symm
    (bankLines_of_rule htargetLines)
    fun db posting _ valid named hrequest creating => ?_) ?_
  · refine ⟨_, creating.2.post valid named hrequest, named, ?_, ?_, ?_, ?_⟩
    · rw [Function.update_of_ne (by decide), Function.update_self]
    · rw [Function.update_self, hconverted]
      rfl
    · rw [Function.update_of_ne (by decide), Function.update_of_ne (by decide)]
    · rw [Function.update_of_ne (by decide), Function.update_of_ne (by decide)]
  · intro _ top₂ shared₂ session₂
    exact ⟨top₂, rfl, session₂.here, session₂⟩

/-- The rail takes the payout, and the law holds again. -/
theorem PayoutService.wpr_instruct {plan : Plan} {id : String}
    (session : PayoutSession service.settings quiet worker [payout] (BookedAs quiet payout id)
      top shared)
    (complete : payout.isConverted = false → payout.sourceAmountMinor = none)
    (hreversal : payout.reversalTransactionId = none)
    (hstatus : payout.status.isReversed = false) :
    wpr (payoutDiscipline service.settings quiet) worker (service.instruct payout plan id)
      (fun _ => Reached service.settings quiet worker [payout] (PayoutLaw quiet) top shared)
      (fun _ stack _ => ∃ top, stack = [top]) [top] shared := by
  unfold instruct
  rw [wpr_bind]
  refine Async.wpr_now fun shared₁ progress₁ => ?_
  have session₁ := session.same progress₁
  rw [wpr_bind]
  refine Async.wpr_check (fun result _ => ?_) fun _ _ => ⟨_, rfl⟩
  refine wpr_mono ?_ (fun _ _ _ reached => Reached.trans progress₁ reached) fun _ _ _ h => h
  refine Reached.wpr_bind (session₁.wpr_update (fun _ ⟨_, creating, _⟩ => creating.onFile)
    fun _ booked => booked.finish complete hreversal hstatus result) ?_
  intro _ top₂ shared₂ session₂
  unfold publishScheduled
  rw [wpr_bind, wpr_bind]
  refine Async.wpr_now fun shared₃ progress₃ => ?_
  refine wpr_mono (session₂.same progress₃).wpr_publish ?_ fun _ _ _ h => h
  rintro _ _ shared₄ reached
  obtain ⟨top₄, rfl, progress₄, session₄⟩ := reached.trans progress₃
  exact ⟨top₄, rfl, progress₄, session₄⟩

/-- The payout takes this amount out of the balance. -/
structure Draws (merchantId : String) (plan : PayoutService.Plan) (requested : Int)
    (payout : Payout) : Prop where
  merchant : payout.merchantId = merchantId
  currency : payout.balanceCurrency = plan.currency
  livemode : payout.livemode = plan.livemode
  amount : payout.balanceAmountMinor = requested

/-- From the row to the rail. -/
theorem PayoutService.wpr_created {merchantId : String} {plan : Plan} {requested : Int}
    {conversion : Option FxConversion} {before : Shared system}
    (progress : Progress (payoutDiscipline service.settings quiet) worker [] top before top shared)
    (session : PayoutSession service.settings quiet worker [] (PayoutLaw quiet) top shared)
    (draws : Draws merchantId plan requested payout)
    (complete : payout.isConverted = false → payout.sourceAmountMinor = none)
    (hreversal : payout.reversalTransactionId = none)
    (hstatus : payout.status.isReversed = false)
    (hposted : ∀ top' shared', PayoutSession service.settings quiet worker [payout]
        (Creating quiet payout fun _ => none) top' shared' →
      wpr (payoutDiscipline service.settings quiet) worker
        (service.postCreated payout conversion)
        (fun id => Reached service.settings quiet worker [payout] (BookedAs quiet payout id)
          top' shared')
        (fun _ stack _ => ∃ top, stack = [top]) [top'] shared') :
    wpr (payoutDiscipline service.settings quiet) worker
      (Async.add .payout payout >>= fun _ =>
        service.postCreated payout conversion >>= service.instruct payout plan)
      (fun _ stack shared' => ∃ payout, Draws merchantId plan requested payout ∧
        Reached service.settings quiet worker [payout] (PayoutLaw quiet) top before stack shared')
      (fun _ stack _ => ∃ top, stack = [top]) [top] shared := by
  refine wpr_mono (Reached.wpr_bind session.wpr_create ?_)
    (fun _ _ _ reached => ⟨payout, draws, reached.trans progress⟩) fun _ _ _ h => h
  intro _ top₁ shared₁ session₁
  refine Reached.wpr_bind (hposted top₁ shared₁ session₁) ?_
  intro id top₂ shared₂ session₂
  exact service.wpr_instruct session₂ complete hreversal hstatus

theorem PayoutService.conversionOf_source {plan : Plan} {requested : Int}
    {conversion : FxConversion}
    (h : service.conversionOf plan requested = .ok (some conversion)) :
    conversion.source = ⟨requested, plan.currency⟩ := by
  unfold conversionOf at h
  split at h
  · cases h
  · split at h
    · cases h
    · next converted hconverted =>
        cases h
        exact (quotePayoutConversion_cases hconverted).2.2.1

/-- The columns of a conversion are its own. -/
theorem PayoutService.columnsOf_some {conversion : FxConversion} {fx : Option PayoutFx}
    (h : columnsOf (some conversion) = .ok fx) : ∃ columns, fx = some columns ∧
      columns.sourceAmountMinor = conversion.source.amountMinor ∧
      columns.sourceCurrency = conversion.source.currency ∧
      columns.fxSpreadMinor = conversion.spreadMinor := by
  unfold columnsOf at h
  dsimp only at h
  split at h
  · cases h
  · next columns hcolumns =>
      cases h
      obtain ⟨fxRate, -, rfl⟩ := Option.map_eq_some_iff.mp hcolumns
      exact ⟨_, rfl, rfl, rfl, rfl⟩

theorem PayoutService.wpr_book {merchantId : String} {plan : Plan}
    {request : CreatePayoutRequest} {requested : Int} {cutoff : Instant}
    (session : PayoutSession service.settings quiet worker [] (PayoutLaw quiet) top shared) :
    wpr (payoutDiscipline service.settings quiet) worker
      (service.book merchantId plan request requested cutoff)
      (fun _ stack shared' => ∃ payout, Draws merchantId plan requested payout ∧
        Reached service.settings quiet worker [payout] (PayoutLaw quiet) top shared stack shared')
      (fun _ stack _ => ∃ top, stack = [top]) [top] shared := by
  unfold book
  rw [wpr_bind]
  refine Async.wpr_check (fun conversion hconversion => ?_) fun _ _ => ⟨_, rfl⟩
  dsimp only
  rw [wpr_bind]
  refine Async.wpr_check (fun availableOn _ => ?_) fun _ _ => ⟨_, rfl⟩
  rw [wpr_bind]
  refine Async.wpr_newId fun shared₁ body progress₁ => ?_
  rw [wpr_bind]
  refine Async.wpr_check (fun fx hfx => ?_) fun _ _ => ⟨_, rfl⟩
  have session₁ := session.same progress₁
  cases conversion with
  | none =>
      cases hfx
      exact service.wpr_created progress₁ session₁ ⟨rfl, rfl, rfl, rfl⟩ (fun _ => rfl) rfl rfl
        fun _ _ session₂ => service.wpr_postPayout session₂ rfl rfl
  | some conversion =>
      have hsource := service.conversionOf_source hconversion
      obtain ⟨columns, rfl, hamount, hcurrency, hspread⟩ := columnsOf_some hfx
      refine service.wpr_created progress₁ session₁ ⟨rfl, ?_, rfl, ?_⟩ (fun h => by cases h)
        rfl rfl
        fun _ _ session₂ => service.wpr_postConvertedPayout session₂ (congrArg some hcurrency)
          (congrArg some hamount) rfl rfl (congrArg some hspread)
      · exact hcurrency.trans (congrArg Money.currency hsource)
      · exact hamount.trans (congrArg Money.amountMinor hsource)

/-! ## The transaction -/

/-- What is drawn is what was reserved. -/
theorem Draws.share {merchantId : String} {plan : PayoutService.Plan} {requested : Int}
    (draws : Draws merchantId plan requested payout) (merchantId' currency : String)
    (livemode : Bool) : payout.share merchantId' currency livemode =
      if merchantId = merchantId' ∧ plan.currency = currency ∧ plan.livemode = livemode then
        requested
      else 0 := by
  rw [Payout.share, draws.merchant, draws.currency, draws.livemode, draws.amount]

theorem PayoutService.wpr_createPayout {cached : RateCache} {merchantId : String}
    {request : CreatePayoutRequest} {name : SessionName} :
    wpr (payoutDiscipline service.settings quiet) worker
      (service.createPayout cached merchantId request)
      (fun _ stack shared' => ∃ top, stack = [top] ∧
        Commits (payoutDiscipline service.settings quiet) worker top [] shared' fun _ => True)
      (fun _ stack _ => ∃ top, stack = [top]) [Session.fresh name] shared := by
  unfold createPayout
  rw [wpr_bind]
  refine wpr_mono PayoutService.wpr_plan ?_ fun _ _ _ h => h
  rintro plan _ shared₁ ⟨rfl, good₁⟩
  rw [wpr_bind]
  refine wpr_mono (service.wpr_reserveAmount good₁) ?_ fun _ _ _ h => h
  rintro ⟨requested, cutoff⟩ _ shared₂ ⟨top₂, rfl, reserved⟩
  refine wpr_mono (service.wpr_book reserved.session) ?_ fun _ _ _ h => h
  rintro _ _ shared₃ ⟨payout, draws, top₃, rfl, progress₃, session₃⟩
  refine ⟨top₃, rfl, fun shared₄ rely good₄ foot _ => ?_⟩
  have progress₄ := Progress.of_rely session₃.here.good session₃.here.foot rely
  have hlock := progress₃.locks _ reserved.locked
  have funded := (reserved.funded.rely progress₃.rely reserved.session.here.good
    ⟨_, List.mem_singleton_self _, reserved.locked⟩).rely rely progress₃.good
      ⟨_, List.mem_singleton_self _, hlock⟩
  have hlocked : ∀ created ∈ [payout],
      balanceLock service.settings created.merchantId created.balanceCurrency ∈ top₃.locks := by
    intro created hcreated
    rw [List.mem_singleton.mp hcreated, draws.merchant, draws.currency]
    exact hlock
  have hfunded (merchantId' currency : String) (livemode : Bool) :
      Funded merchantId' currency livemode
        ([payout].map (Payout.share merchantId' currency livemode)).sum shared₄ := by
    rw [List.map_singleton, List.sum_singleton, draws.share]
    split
    · next h =>
        obtain ⟨rfl, rfl, rfl⟩ := h
        exact funded
    · have h := good₄.2.credited merchantId' currency livemode
      unfold Funded
      omega
  obtain ⟨guarantee, invariant⟩ := (session₃.same progress₄).commit hlocked hfunded
  exact ⟨guarantee, invariant, trivial⟩

end Booking

end PayzenoLedger
