import PayzenoLedger.Consumers.Keys
import PayzenoLedger.Library.Records

/-!
# The hold of a charge

An authorisation books a hold, a capture releases its own amount of it and a
cancellation the authorized amount, each once and under its own key; no handler
looks at what another has released.  The hold is gone after the charge is captured
or canceled just when what is handled first releases it in full.
-/

set_option autoImplicit false

namespace PayzenoLedger

open Library ChargeState

/-! ## The events of one charge -/

/-- A charge, as all its events name it. -/
structure HeldCharge where
  chargeId : String
  merchantId : String
  currency : String
  amountMinor : Int

/-- The event is one of the charge's: an authorisation of its amount, a capture of any
amount or a cancellation that releases what was authorized. -/
def HeldCharge.Names (charge : HeldCharge) (event : PaymentEvent) : Prop :=
  match event.payload with
  | .charge (.authorized data) =>
      data.chargeId = charge.chargeId ∧ data.merchantId = charge.merchantId ∧
        data.currency = charge.currency ∧ data.amountMinor = charge.amountMinor
  | .charge (.captured data) =>
      data.chargeId = charge.chargeId ∧ data.merchantId = charge.merchantId ∧
        data.currency = charge.currency
  | .canceled data =>
      data.chargeId = some charge.chargeId ∧ data.merchantId = charge.merchantId ∧
        data.currency = charge.currency ∧ data.releasedAmountMinor = charge.amountMinor

def PaymentEvent.isAuthorized (event : PaymentEvent) : Bool :=
  match event.payload with
  | .charge payload => payload.isAuthorized
  | .canceled _ => false

/-- A queue that delivers events of the charge, in any order and any number of times. -/
structure DeliversHold (charge : HeldCharge) (deliveries : List PaymentDelivery) : Prop where
  ofCharge : ∀ delivery ∈ deliveries, charge.Names delivery.event
  identified : ∀ delivery ∈ deliveries, ∀ other ∈ deliveries,
    delivery.event.id = other.event.id → delivery.event = other.event

/-- The delivery is handled without an error after those before it. -/
def Handled (currencies : List String) (before : List PaymentDelivery)
    (delivery : PaymentDelivery) : Prop :=
  ∃ next, (consumePayments currencies before).handlePaymentMessage currencies delivery = .ok next

/-- The charge has been authorized. -/
def AuthorizedBy (currencies : List String) (deliveries : List PaymentDelivery) : Prop :=
  Somewhere (fun before delivery => delivery.event.isAuthorized = true ∧
    Handled currencies before delivery) deliveries

/-- The charge has been authorized and then captured or canceled. -/
def EndedBy (currencies : List String) (deliveries : List PaymentDelivery) : Prop :=
  Somewhere (fun before delivery => delivery.event.isAuthorized = false ∧
    Handled currencies before delivery ∧ AuthorizedBy currencies before) deliveries

/-! ## The law -/

/-- After every delivery, neither account is past zero once the authorization is posted,
and both are at zero once the charge is captured or canceled. -/
structure HoldReleasedOnce (currencies : List String) (deliveries : List PaymentDelivery) :
    Prop where
  within : ∀ before, before <+: deliveries →
    Posted (consumePayments currencies before).postings .auth →
      0 ≤ postedMovement .merchantReceivable (consumePayments currencies before).postings ∧
        postedMovement .authorizationHold (consumePayments currencies before).postings ≤ 0
  released : ∀ before, before <+: deliveries → EndedBy currencies before →
    postedMovement .merchantReceivable (consumePayments currencies before).postings = 0 ∧
      postedMovement .authorizationHold (consumePayments currencies before).postings = 0

/-- The event finds the hold as it has to: a capture that posts takes the authorized
amount from a hold that was not released, one that is dropped as stale finds it gone, and a
cancellation comes before any capture. -/
def FindsHold (charge : HeldCharge) (state : ChargeState) (event : PaymentEvent) : Prop :=
  match event.payload with
  | .charge (.authorized _) => True
  | .charge (.captured data) =>
      ∀ row, state.charge = some row →
        if event.occurredAt < row.sourceOccurredAt then
          Posted state.postings .capture ∨ Posted state.postings .authRelease
        else
          Posted state.postings .capture ∨
            (¬ Posted state.postings .authRelease ∧
              data.capturedAmountMinor = charge.amountMinor)
  | .canceled _ => ¬ Posted state.postings .capture

/-- Every event finds the hold as it has to, when it is first handled. -/
def HoldsMet (charge : HeldCharge) (currencies : List String)
    (deliveries : List PaymentDelivery) : Prop :=
  AtEach (fun before delivery =>
    delivery.event.id ∉ (consumePayments currencies before).processed →
    Handled currencies before delivery →
    FindsHold charge (consumePayments currencies before) delivery.event) deliveries

/-- What the postings of a charge say of its hold. -/
structure Hold where
  authorized : Bool := false
  captured : Option Int := none
  released : Bool := false

namespace Hold

/-- What stands on both accounts. -/
def balance (hold : Hold) (amountMinor : Int) : Int :=
  (if hold.authorized then amountMinor else 0) - hold.captured.getD 0 -
    (if hold.released then amountMinor else 0)

/-- An event that is handled; a capture takes what it captures unless one has before, and
nothing where it is stale. -/
def handle (hold : Hold) (stale : Bool) : PaymentPayload → Hold
  | .charge (.authorized _) => { hold with authorized := true }
  | .charge (.captured data) =>
      if stale then hold
      else { hold with captured := some (hold.captured.getD data.capturedAmountMinor) }
  | .canceled _ => { hold with released := true }

end Hold

/-- The key under which each kind of posting is made. -/
def holdKey : Purpose → String
  | .authRelease => "authrelease"
  | purpose => purpose.toString

theorem holdKey_injective {purpose purpose' : Purpose} (h : holdKey purpose = holdKey purpose') :
    purpose = purpose' := by
  cases purpose <;> cases purpose' <;> first | rfl | exact absurd h (by decide)

/-- The state holds the postings that the hold tells of. -/
structure HoldBooked (charge : HeldCharge) (hold : Hold) (state : ChargeState) : Prop where
  keyed : ∀ posted ∈ state.postings,
    ledgerKey (holdKey posted.purpose) charge.merchantId charge.chargeId =
      .ok posted.idempotencyKey
  row : state.charge.isSome = hold.authorized
  authorized : Posted state.postings .auth ↔ hold.authorized = true
  captured : Posted state.postings .capture ↔ hold.captured.isSome = true
  released : Posted state.postings .authRelease ↔ hold.released = true
  receivable : postedMovement .merchantReceivable state.postings = hold.balance charge.amountMinor
  held : postedMovement .authorizationHold state.postings = -hold.balance charge.amountMinor
  positive : hold.authorized = true → 0 < charge.amountMinor
  capturedAfter : ∀ amount, hold.captured = some amount → hold.authorized = true ∧ 0 < amount

theorem holdBooked_nil (charge : HeldCharge) : HoldBooked charge {} {} where
  keyed posted hposted := by cases hposted
  row := rfl
  authorized := by simp [Posted]
  captured := by simp [Posted]
  released := by simp [Posted]
  receivable := rfl
  held := rfl
  positive h := by cases h
  capturedAfter amount h := by cases h

section Rules

variable {ctx : PostingContext} {lines : List PostingLine}

/-- A posting moves the receivable by an amount and the hold by as much. -/
def MovesHold (lines : List PostingLine) (amountMinor : Int) : Prop :=
  netMovement .merchantReceivable lines = amountMinor ∧
    netMovement .authorizationHold lines = -amountMinor

theorem gross_pos_of_built {purpose : Purpose} {debited credited : AccountType}
    (h : PostingRule.built purpose ctx
      [debit debited ctx.grossMinor, credit credited ctx.grossMinor] = .ok lines) :
    0 < ctx.grossMinor := by
  obtain ⟨line, hline, hzero⟩ := built_ne_zero h
  have hpos := built_pos h hline hzero
  rcases List.mem_cons.mp hline with rfl | hrest
  · exact hpos
  · rw [List.mem_singleton] at hrest
    rw [hrest] at hpos
    exact hpos

theorem authPostingRule_moves (h : authPostingRule.build ctx = .ok lines) :
    0 < ctx.grossMinor ∧ MovesHold lines ctx.grossMinor := by
  constructor
  · exact gross_pos_of_built h
  · constructor
    · rw [netMovement_built h]
      simp
    · rw [netMovement_built h]
      simp

theorem authReleasePostingRule_moves (h : authReleasePostingRule.build ctx = .ok lines) :
    0 < ctx.grossMinor ∧ MovesHold lines (-ctx.grossMinor) := by
  constructor
  · exact gross_pos_of_built h
  · constructor
    · rw [netMovement_built h]
      simp
    · rw [netMovement_built h]
      simp

theorem applyBps_zero {bps result : Int} (h : applyBps 0 bps = .ok result) : result = 0 := by
  by_cases hbps : bps < 0
  · unfold applyBps at h
    rw [if_pos hbps] at h
    cases h
  · rw [applyBps_eq (not_lt.mp hbps) (by simp [decimalPrecision]), Int.zero_mul] at h
    exact (Except.ok.inj h).symm

theorem computePlatformFee_zero {bps fixedMinor result : Int}
    (h : computePlatformFee 0 bps fixedMinor = .ok result) : result = 0 := by
  unfold computePlatformFee at h
  by_cases hnegative : fixedMinor < 0
  · rw [if_pos hnegative] at h
    cases h
  · rw [if_neg hnegative] at h
    cases hrate : applyBps 0 bps with
    | error raised =>
        rw [hrate] at h
        cases h
    | ok rate =>
        rw [hrate] at h
        have hresult : min (rate + fixedMinor) 0 = result := Except.ok.inj h
        rw [applyBps_zero hrate] at hresult
        omega

theorem capturePostingRule_moves {currencies : List String}
    (h : (capturePostingRule currencies).build ctx = .ok lines) :
    0 < ctx.grossMinor ∧ MovesHold lines (-ctx.grossMinor) := by
  unfold capturePostingRule at h
  cases hcurrency : checkCurrency currencies ctx.currency with
  | error raised =>
      simp only [hcurrency, bind, Except.bind] at h
      cases h
  | ok _ =>
  cases hfee : computePlatformFee ctx.grossMinor ctx.platformFeeBps ctx.platformFeeFixedMinor with
  | error raised =>
      simp only [hcurrency, hfee, bind, Except.bind] at h
      cases h
  | ok markup =>
  cases hreserve : applyBps ctx.grossMinor ctx.reserveBps with
  | error raised =>
      simp only [hcurrency, hfee, hreserve, bind, Except.bind] at h
      cases h
  | ok reserve =>
  simp only [hcurrency, hfee, hreserve, bind, Except.bind] at h
  split at h
  · cases h
  have hbuilt : PostingRule.built .capture ctx
      [debit .processorClearing ctx.grossMinor,
        credit .merchantPayable (ctx.grossMinor - markup - reserve),
        credit .platformFeeRevenue markup, credit .reserve reserve,
        debit .authorizationHold ctx.grossMinor,
        credit .merchantReceivable ctx.grossMinor] = .ok lines := h
  constructor
  · -- a capture of nothing has no leg at all
    have hzero : ctx.grossMinor ≠ 0 := by
      intro hzero
      rw [hzero] at hfee hreserve
      rw [hzero, computePlatformFee_zero hfee, applyBps_zero hreserve] at hbuilt
      obtain ⟨line, hline, hne⟩ := built_ne_zero hbuilt
      simp only [sub_zero, List.mem_cons, List.not_mem_nil, or_false] at hline
      rcases hline with rfl | rfl | rfl | rfl | rfl | rfl <;> exact hne rfl
    exact built_pos hbuilt List.mem_cons_self hzero
  · constructor
    · rw [netMovement_built hbuilt]
      simp
    · rw [netMovement_built hbuilt]
      simp

end Rules

/-! ## One event -/

section Step

variable {charge : HeldCharge} {hold : Hold} {state next : ChargeState}

/-- A posting under the key of its purpose is made unless one of the purpose is there. -/
theorem HoldBooked.posts (booked : HoldBooked charge hold state) {request : PostRequest}
    {row : Option SettlementCharge}
    (hpost : post { state with charge := row } request = .ok next)
    (hkey : ledgerKey (holdKey request.purpose) charge.merchantId charge.chargeId =
      .ok request.idempotencyKey) :
    next.charge = row ∧
      (∀ posted ∈ next.postings,
        ledgerKey (holdKey posted.purpose) charge.merchantId charge.chargeId =
          .ok posted.idempotencyKey) ∧
      ((Posted state.postings request.purpose ∧ next.postings = state.postings) ∨
        (¬ Posted state.postings request.purpose ∧
          next.postings = state.postings ++ [request])) := by
  obtain ⟨hcharge, -, happends⟩ := post_ok hpost
  refine ⟨hcharge, ?_⟩
  generalize next.postings = postings at happends
  cases happends with
  | taken htaken =>
      refine ⟨booked.keyed, .inl ⟨?_, rfl⟩⟩
      obtain ⟨posted, hposted, hsame⟩ := htaken
      have hkey' := booked.keyed posted hposted
      rw [hsame] at hkey'
      exact ⟨posted, hposted, holdKey_injective (ledgerKey_injective hkey' hkey).1⟩
  | free hfree =>
      constructor
      · intro posted hposted
        rcases List.mem_append.mp hposted with hold | hnew
        · exact booked.keyed posted hold
        · rw [List.mem_singleton.mp hnew]
          exact hkey
      · refine .inr ⟨?_, rfl⟩
        rintro ⟨posted, hposted, hpurpose⟩
        have hkey' := booked.keyed posted hposted
        rw [hpurpose, hkey] at hkey'
        exact hfree posted hposted (Except.ok.inj hkey').symm

/-- What a posting of one purpose leaves of the hold: nothing new where one is there,
else its own mark and movement. -/
theorem HoldBooked.step (booked : HoldBooked charge hold state) {request : PostRequest}
    {hold' : Hold} {delta : Int}
    {row : Option SettlementCharge}
    (hpost : post { state with charge := row } request = .ok next)
    (hkey : ledgerKey (holdKey request.purpose) charge.merchantId charge.chargeId =
      .ok request.idempotencyKey)
    (hmoves : MovesHold request.lines delta)
    (hsame : Posted state.postings request.purpose → hold' = hold)
    (hrow : row.isSome = hold'.authorized)
    (hauthorized : hold'.authorized = true ↔ hold.authorized = true ∨ request.purpose = .auth)
    (hcaptured : hold'.captured.isSome = true ↔
      hold.captured.isSome = true ∨ request.purpose = .capture)
    (hreleased : hold'.released = true ↔ hold.released = true ∨ request.purpose = .authRelease)
    (hbalance : ¬ Posted state.postings request.purpose →
      hold'.balance charge.amountMinor = hold.balance charge.amountMinor + delta)
    (hpositive : hold'.authorized = true → 0 < charge.amountMinor)
    (hcapturedAfter : ∀ amount, hold'.captured = some amount →
      hold'.authorized = true ∧ 0 < amount) :
    HoldBooked charge hold' next := by
  obtain ⟨hcharge, hkeyed, ⟨hposted, hpostings⟩ | ⟨hnew, hpostings⟩⟩ := booked.posts hpost hkey
  · obtain rfl := hsame hposted
    constructor
    · exact hkeyed
    · rw [hcharge]
      exact hrow
    · rw [hpostings]
      exact booked.authorized
    · rw [hpostings]
      exact booked.captured
    · rw [hpostings]
      exact booked.released
    · rw [hpostings]
      exact booked.receivable
    · rw [hpostings]
      exact booked.held
    · exact hpositive
    · exact hcapturedAfter
  · obtain ⟨hreceivable, hheld⟩ := hmoves
    constructor
    · exact hkeyed
    · rw [hcharge]
      exact hrow
    · rw [hpostings, posted_append, posted_singleton, booked.authorized, hauthorized]
    · rw [hpostings, posted_append, posted_singleton, booked.captured, hcaptured]
    · rw [hpostings, posted_append, posted_singleton, booked.released, hreleased]
    · rw [hpostings, postedMovement_append, postedMovement_singleton, booked.receivable,
        hreceivable, hbalance hnew]
    · rw [hpostings, postedMovement_append, postedMovement_singleton, booked.held, hheld,
        hbalance hnew]
      omega
    · exact hpositive
    · exact hcapturedAfter

/-- What is read of a posting that a rule builds. -/
theorem postCharge_posts {rule : PostingRule} {context : PostingContext}
    {merchantId chargeId eventId : String} {livemode : Bool}
    (h : state.postCharge rule context merchantId chargeId livemode eventId = .ok next) :
    ∃ lines key, rule.build context = .ok lines ∧
      ledgerKey rule.purpose.toString merchantId chargeId = .ok key ∧
      state.post (chargeRequest rule.purpose merchantId chargeId context.currency livemode
        eventId key lines) = .ok next := by
  unfold postCharge at h
  cases hlines : rule.build context with
  | error raised =>
      rw [hlines] at h
      cases h
  | ok lines =>
      rw [hlines] at h
      cases hkey : ledgerKey rule.purpose.toString merchantId chargeId with
      | error raised =>
          simp only [hkey, bind, Except.bind] at h
          cases h
      | ok key =>
          simp only [hkey, bind, Except.bind] at h
          exact ⟨lines, key, rfl, rfl, h⟩

theorem HoldBooked.authorize (booked : HoldBooked charge hold state)
    {data : PaymentAuthorizedPayload} {eventId : String} {occurredAt : Instant}
    {livemode : Bool} (hcharge : data.chargeId = charge.chargeId)
    (hmerchant : data.merchantId = charge.merchantId)
    (hamount : data.amountMinor = charge.amountMinor)
    (h : state.handlePaymentAuthorized data eventId occurredAt livemode = .ok next) :
    HoldBooked charge { hold with authorized := true } next := by
  unfold handlePaymentAuthorized at h
  cases hupsert : SettlementChargeRepository.upsertIfNewer state.charge
      (chargeProjection data eventId occurredAt livemode) with
  | mk written flag =>
  simp only [hupsert] at h
  cases flag with
  | false =>
      -- a row is there, so the charge was authorized before
      cases h
      have hrow : state.charge.isSome = true := by
        cases hstate : state.charge with
        | none =>
            rw [hstate] at hupsert
            cases hupsert
        | some row => rfl
      have hauthorized : hold.authorized = true := booked.row.symm.trans hrow
      have hsame : { hold with authorized := true } = hold := by
        cases hold
        cases hauthorized
        rfl
      rw [hsame]
      exact booked
  | true =>
      obtain ⟨lines, key, hlines, hkey, hpost⟩ := postCharge_posts h
      obtain ⟨hpos, hmoves⟩ := authPostingRule_moves hlines
      rw [hcharge, hmerchant] at hkey
      refine booked.step hpost hkey hmoves ?_ rfl ?_ ?_ ?_ ?_ ?_ ?_
      · intro hposted
        have hauthorized := booked.authorized.mp hposted
        cases hold
        cases hauthorized
        rfl
      · simp [chargeRequest, authPostingRule]
      · simp [chargeRequest, authPostingRule]
      · simp [chargeRequest, authPostingRule]
      · intro hnew
        have hnone : hold.authorized = false := by
          rw [← Bool.not_eq_true, ← booked.authorized]
          exact hnew
        simp only [Hold.balance, hnone, hamount, if_true, Bool.false_eq_true, if_false]
        omega
      · intro _
        rw [← hamount]
        exact hpos
      · intro amount hamount
        exact ⟨rfl, (booked.capturedAfter amount hamount).2⟩

theorem HoldBooked.capture (booked : HoldBooked charge hold state) {currencies : List String}
    {data : PaymentCapturedPayload} {eventId : String} {occurredAt : Instant}
    {livemode : Bool} (hcharge : data.chargeId = charge.chargeId)
    (hmerchant : data.merchantId = charge.merchantId)
    (h : state.handlePaymentCaptured currencies data eventId occurredAt livemode = .ok next) :
    ∃ row, state.charge = some row ∧
      HoldBooked charge (hold.handle (decide (occurredAt < row.sourceOccurredAt))
        (.charge (.captured data))) next := by
  unfold handlePaymentCaptured SettlementChargeRepository.existingOrRaise at h
  cases hrow : state.charge with
  | none =>
      rw [hrow] at h
      cases h
  | some row =>
  refine ⟨row, rfl, ?_⟩
  rw [hrow] at h
  change (if _ then _ else _) = _ at h
  split at h
  · next hstale =>
      cases h
      rw [Hold.handle, if_pos (decide_eq_true hstale)]
      exact booked
  · next hfresh =>
      have hauthorized : hold.authorized = true := by
        rw [← booked.row, hrow]
        rfl
      obtain ⟨lines, key, hlines, hkey, hpost⟩ := postCharge_posts h
      obtain ⟨hpos, hmoves⟩ := capturePostingRule_moves hlines
      rw [hcharge, hmerchant] at hkey
      rw [Hold.handle, if_neg (by simpa using hfresh)]
      refine booked.step hpost hkey hmoves ?_ hauthorized.symm ?_ ?_ ?_ ?_ booked.positive ?_
      · intro hposted
        obtain ⟨amount, hamount⟩ := Option.isSome_iff_exists.mp (booked.captured.mp hposted)
        cases hold
        cases hamount
        rfl
      · simp [chargeRequest, capturePostingRule]
      · simp [chargeRequest, capturePostingRule]
      · simp [chargeRequest, capturePostingRule]
      · intro hnew
        have hnone : hold.captured = none := by
          rw [← Option.not_isSome_iff_eq_none, ← booked.captured]
          exact hnew
        simp only [Hold.balance, hnone, Option.getD_none, Option.getD_some, captureContext]
        omega
      · intro amount hamount
        refine ⟨hauthorized, ?_⟩
        rw [Option.some.injEq] at hamount
        rw [← hamount]
        cases hbefore : hold.captured with
        | none => exact hpos
        | some before => exact (booked.capturedAfter before hbefore).2

theorem HoldBooked.cancel (booked : HoldBooked charge hold state)
    {data : PaymentCanceledPayload} {eventId : String} {livemode : Bool}
    (hcharge : data.chargeId = some charge.chargeId)
    (hmerchant : data.merchantId = charge.merchantId)
    (hamount : data.releasedAmountMinor = charge.amountMinor)
    (h : state.handlePaymentCanceled data eventId livemode = .ok next) :
    HoldBooked charge { hold with released := true } next := by
  unfold handlePaymentCanceled at h
  rw [hcharge] at h
  cases hlines : authReleasePostingRule.build (releaseContext data) with
  | error raised =>
      simp only [hlines] at h
      cases h
  | ok lines =>
  cases hkey : ledgerKey "authrelease" data.merchantId charge.chargeId with
  | error raised =>
      simp only [hlines, hkey, bind, Except.bind] at h
      cases h
  | ok key =>
  simp only [hlines, hkey, bind, Except.bind] at h
  obtain ⟨-, hmoves⟩ := authReleasePostingRule_moves hlines
  rw [hmerchant] at hkey
  refine booked.step h hkey hmoves ?_ booked.row ?_ ?_ ?_ ?_ booked.positive
    booked.capturedAfter
  · intro hposted
    have hreleased := booked.released.mp hposted
    cases hold
    cases hreleased
    rfl
  · simp [chargeRequest]
  · simp [chargeRequest]
  · simp [chargeRequest]
  · intro hnew
    have hnone : hold.released = false := by
      rw [← Bool.not_eq_true, ← booked.released]
      exact hnew
    simp only [Hold.balance, hnone, if_true, Bool.false_eq_true, if_false, releaseContext,
      hamount]
    omega

/-- The row is newer than the event. -/
def ChargeState.isNewer (state : ChargeState) (event : PaymentEvent) : Bool :=
  match state.charge with
  | none => false
  | some row => decide (event.occurredAt < row.sourceOccurredAt)

theorem HoldBooked.handlePayment (booked : HoldBooked charge hold state)
    {currencies : List String} {event : PaymentEvent} (hnames : charge.Names event)
    (h : state.handlePayment currencies event = .ok next) :
    HoldBooked charge (hold.handle (state.isNewer event) event.payload) next := by
  unfold ChargeState.handlePayment at h
  unfold HeldCharge.Names at hnames
  cases hpayload : event.payload with
  | charge payload =>
      rw [hpayload] at h hnames
      cases payload with
      | authorized data =>
          obtain ⟨hcharge, hmerchant, -, hamount⟩ := hnames
          exact booked.authorize hcharge hmerchant hamount h
      | captured data =>
          obtain ⟨hcharge, hmerchant, -⟩ := hnames
          obtain ⟨row, hrow, hbooked⟩ := booked.capture hcharge hmerchant h
          rw [ChargeState.isNewer, hrow]
          exact hbooked
  | canceled data =>
      rw [hpayload] at h hnames
      obtain ⟨hcharge, hmerchant, -, hamount⟩ := hnames
      exact booked.cancel hcharge hmerchant hamount h

/-- A capture finds a row. -/
theorem charge_isSome_of_captured {currencies : List String} {data : PaymentCapturedPayload}
    {eventId : String} {occurredAt : Instant} {livemode : Bool}
    (h : state.handlePaymentCaptured currencies data eventId occurredAt livemode = .ok next) :
    state.charge.isSome = true := by
  unfold handlePaymentCaptured SettlementChargeRepository.existingOrRaise at h
  cases hrow : state.charge with
  | none =>
      rw [hrow] at h
      cases h
  | some row => rfl

theorem processed_of_postCharge {rule : PostingRule} {context : PostingContext}
    {merchantId chargeId eventId : String} {livemode : Bool}
    (h : state.postCharge rule context merchantId chargeId livemode eventId = .ok next) :
    next.processed = state.processed := by
  obtain ⟨lines, key, -, -, hpost⟩ := postCharge_posts h
  exact (post_ok hpost).2.1

/-- No handler claims an event. -/
theorem processed_of_handlePayment {currencies : List String} {event : PaymentEvent}
    (h : state.handlePayment currencies event = .ok next) :
    next.processed = state.processed := by
  unfold ChargeState.handlePayment at h
  split at h
  · next payload hpayload =>
      cases payload with
      | authorized data =>
          change state.handlePaymentAuthorized _ _ _ _ = _ at h
          unfold handlePaymentAuthorized at h
          dsimp only at h
          split at h
          · have hprocessed := processed_of_postCharge h
            exact hprocessed
          · cases h
            rfl
      | captured data =>
          change state.handlePaymentCaptured _ _ _ _ _ = _ at h
          unfold handlePaymentCaptured SettlementChargeRepository.existingOrRaise at h
          cases hrow : state.charge with
          | none =>
              rw [hrow] at h
              cases h
          | some row =>
              rw [hrow] at h
              change (if _ then _ else _) = _ at h
              split at h
              · cases h
                rfl
              · have hprocessed := processed_of_postCharge h
                exact hprocessed
  · next data hpayload =>
      unfold handlePaymentCanceled at h
      split at h
      · cases h
        rfl
      · next chargeId hcharge =>
          cases hlines : authReleasePostingRule.build (releaseContext data) with
          | error raised =>
              simp only [hlines] at h
              cases h
          | ok lines =>
              cases hkey : ledgerKey "authrelease" data.merchantId chargeId with
              | error raised =>
                  simp only [hlines, hkey, bind, Except.bind] at h
                  cases h
              | ok key =>
                  simp only [hlines, hkey, bind, Except.bind] at h
                  exact (post_ok h).2.1

end Step

/-! ## Every run -/

section Run

variable {charge : HeldCharge} {currencies : List String}

theorem consumePayments_concat (before : List PaymentDelivery) (delivery : PaymentDelivery) :
    consumePayments currencies (before ++ [delivery]) =
      match (consumePayments currencies before).handlePaymentMessage currencies delivery with
      | .ok next => next
      | .error _ => consumePayments currencies before := by
  unfold consumePayments
  rw [List.foldl_append]
  rfl

/-- The ways in which a message ends: it is refused, it was handled before, or its event is
handled and claimed. -/
theorem handlePaymentMessage_cases (currencies : List String) (state : ChargeState)
    (delivery : PaymentDelivery) :
    (∃ raised, state.handlePaymentMessage currencies delivery = .error raised) ∨
      (delivery.event.id ∈ state.processed ∧
        state.handlePaymentMessage currencies delivery = .ok state) ∨
      (delivery.event.id ∉ state.processed ∧
        ∃ next, state.handlePayment currencies delivery.event = .ok next ∧
          state.handlePaymentMessage currencies delivery =
            .ok { next with processed := state.processed ++ [delivery.event.id] }) := by
  by_cases hclaimed : delivery.event.id ∈ state.processed
  · exact .inr (.inl ⟨hclaimed, if_pos hclaimed⟩)
  · unfold handlePaymentMessage
    rw [if_neg hclaimed]
    cases hraises : delivery.raises with
    | some raised => exact .inl ⟨raised, rfl⟩
    | none =>
        cases hhandle : state.handlePayment currencies delivery.event with
        | error raised => exact .inl ⟨raised, rfl⟩
        | ok next =>
            refine .inr (.inr ⟨hclaimed, next, rfl, ?_⟩)
            rw [← processed_of_handlePayment hhandle]
            rfl

/-- The hold was released by a full capture or by a cancellation, never by both. -/
structure Hold.Sound (hold : Hold) (amountMinor : Int) : Prop where
  once : hold.captured.isSome = true → hold.released = false
  full : ∀ amount, hold.captured = some amount → amount = amountMinor

/-- A capture or a cancellation has been handled. -/
def CapturedOrCanceledBy (currencies : List String) (deliveries : List PaymentDelivery) : Prop :=
  Somewhere (fun before delivery => delivery.event.isAuthorized = false ∧
    Handled currencies before delivery) deliveries

/-- What the deliveries handled so far leave of the hold. -/
structure HoldRun (charge : HeldCharge) (currencies : List String)
    (before : List PaymentDelivery) (hold : Hold) : Prop where
  booked : HoldBooked charge hold (consumePayments currencies before)
  claimed : ∀ id ∈ (consumePayments currencies before).processed,
    Somewhere (fun earlier delivery => delivery.event.id = id ∧
      Handled currencies earlier delivery) before
  authorized : hold.authorized = true ↔ AuthorizedBy currencies before
  sound : HoldsMet charge currencies before → hold.Sound charge.amountMinor
  gone : HoldsMet charge currencies before → CapturedOrCanceledBy currencies before →
    hold.captured.isSome = true ∨ hold.released = true

theorem holdRun_nil : HoldRun charge currencies [] {} where
  booked := holdBooked_nil charge
  claimed id hid := by cases hid
  authorized := by
    constructor
    · intro h
      cases h
    · intro h
      exact absurd h (not_somewhere_nil _)
  sound _ :=
    { once := fun h => by cases h
      full := fun amount h => by cases h }
  gone _ h := absurd h (not_somewhere_nil _)

/-- An event that finds the hold as it has to leaves it sound. -/
theorem Hold.Sound.handle {hold : Hold} {state : ChargeState} {event : PaymentEvent}
    (sound : hold.Sound charge.amountMinor) (booked : HoldBooked charge hold state)
    (hrow : event.isAuthorized = false → (∃ data, event.payload = .canceled data) ∨
      state.charge.isSome = true) (hfinds : FindsHold charge state event) :
    (hold.handle (state.isNewer event) event.payload).Sound charge.amountMinor ∧
      (event.isAuthorized = false →
        (hold.handle (state.isNewer event) event.payload).captured.isSome = true ∨
          (hold.handle (state.isNewer event) event.payload).released = true) := by
  unfold FindsHold at hfinds
  unfold PaymentEvent.isAuthorized at hrow ⊢
  cases hpayload : event.payload with
  | canceled data =>
      rw [hpayload] at hfinds
      constructor
      · constructor
        · intro hcaptured
          exact absurd (booked.captured.mpr hcaptured) hfinds
        · exact sound.full
      · intro _
        exact .inr rfl
  | charge payload =>
  cases payload with
  | authorized data =>
      constructor
      · exact ⟨sound.once, sound.full⟩
      · intro h
        cases h
  | captured data =>
  rw [hpayload] at hfinds hrow
  obtain ⟨data', hcanceled⟩ | hisSome := hrow rfl
  · cases hcanceled
  obtain ⟨row, hstate⟩ := Option.isSome_iff_exists.mp hisSome
  have hfound := hfinds row hstate
  rw [ChargeState.isNewer, hstate]
  by_cases hstale : event.occurredAt < row.sourceOccurredAt
  · rw [if_pos hstale, booked.captured, booked.released] at hfound
    simp only [Hold.handle, hstale, decide_true, if_true]
    exact ⟨sound, fun _ => hfound⟩
  · rw [if_neg hstale, booked.captured, booked.released] at hfound
    simp only [Hold.handle, hstale, decide_false, Bool.false_eq_true, if_false]
    refine ⟨?_, fun _ => .inl rfl⟩
    rcases hfound with hcaptured | ⟨hnot, hamount⟩
    · obtain ⟨amount, hbefore⟩ := Option.isSome_iff_exists.mp hcaptured
      constructor
      · intro _
        exact sound.once hcaptured
      · intro other hother
        rw [hbefore, Option.getD_some, Option.some.injEq] at hother
        rw [← hother]
        exact sound.full amount hbefore
    · constructor
      · intro _
        exact Bool.not_eq_true _ ▸ hnot
      · intro other hother
        rw [Option.some.injEq] at hother
        rw [← hother]
        cases hbefore : hold.captured with
        | none => exact hamount
        | some amount => exact sound.full amount hbefore

/-- A capture or a cancellation that is handled: the first finds a row. -/
theorem canceled_or_row {state next : ChargeState} {event : PaymentEvent}
    (h : state.handlePayment currencies event = .ok next) (hother : event.isAuthorized = false) :
    (∃ data, event.payload = .canceled data) ∨ state.charge.isSome = true := by
  unfold ChargeState.handlePayment at h
  unfold PaymentEvent.isAuthorized at hother
  cases hpayload : event.payload with
  | canceled data => exact .inl ⟨data, rfl⟩
  | charge payload =>
      rw [hpayload] at h hother
      cases payload with
      | authorized data => cases hother
      | captured data => exact .inr (charge_isSome_of_captured h)

theorem HoldBooked.claim {hold : Hold} {state : ChargeState}
    (booked : HoldBooked charge hold state) (processed : List String) :
    HoldBooked charge hold { state with processed := processed } :=
  { booked with }

section Deliver

variable {before : List PaymentDelivery} {delivery : PaymentDelivery} {hold : Hold}

theorem HoldRun.refused (run : HoldRun charge currencies before hold) {raised : Exception}
    (h : (consumePayments currencies before).handlePaymentMessage currencies delivery =
      .error raised) : HoldRun charge currencies (before ++ [delivery]) hold := by
  have hstate : consumePayments currencies (before ++ [delivery]) =
      consumePayments currencies before := by
    rw [consumePayments_concat, h]
  have hnot : ¬ Handled currencies before delivery := by
    rintro ⟨next, hnext⟩
    rw [h] at hnext
    cases hnext
  constructor
  · rw [hstate]
    exact run.booked
  · intro id hid
    rw [hstate] at hid
    exact somewhere_concat.mpr (.inl (run.claimed id hid))
  · rw [run.authorized, AuthorizedBy, AuthorizedBy, somewhere_concat]
    constructor
    · exact .inl
    · rintro (hbefore | ⟨-, hhandled⟩)
      · exact hbefore
      · exact absurd hhandled hnot
  · intro hmet
    exact run.sound (atEach_concat.mp hmet).1
  · intro hmet hended
    rcases somewhere_concat.mp hended with hbefore | ⟨-, hhandled⟩
    · exact run.gone (atEach_concat.mp hmet).1 hbefore
    · exact absurd hhandled hnot

/-- A delivery of an event that was handled before changes nothing. -/
theorem HoldRun.repeated (run : HoldRun charge currencies before hold)
    (delivers : DeliversHold charge (before ++ [delivery]))
    (hclaimed : delivery.event.id ∈ (consumePayments currencies before).processed)
    (h : (consumePayments currencies before).handlePaymentMessage currencies delivery =
      .ok (consumePayments currencies before)) :
    HoldRun charge currencies (before ++ [delivery]) hold := by
  have hstate : consumePayments currencies (before ++ [delivery]) =
      consumePayments currencies before := by
    rw [consumePayments_concat, h]
  -- the event itself is among those handled before
  have hbefore (test : PaymentEvent → Prop) (htest : test delivery.event) :
      Somewhere (fun earlier other => test other.event ∧ Handled currencies earlier other)
        before := by
    obtain ⟨earlier, other, later, rfl, hid, hhandled⟩ := run.claimed _ hclaimed
    have hsame := delivers.identified other (by simp) delivery (by simp) hid
    exact ⟨earlier, other, later, rfl, hsame ▸ htest, hhandled⟩
  constructor
  · rw [hstate]
    exact run.booked
  · intro id hid
    rw [hstate] at hid
    exact somewhere_concat.mpr (.inl (run.claimed id hid))
  · rw [run.authorized, AuthorizedBy, AuthorizedBy, somewhere_concat]
    constructor
    · exact .inl
    · rintro (hearlier | ⟨hauthorized, -⟩)
      · exact hearlier
      · exact hbefore (fun event => event.isAuthorized = true) hauthorized
  · intro hmet
    exact run.sound (atEach_concat.mp hmet).1
  · intro hmet hended
    rcases somewhere_concat.mp hended with hearlier | ⟨hother, -⟩
    · exact run.gone (atEach_concat.mp hmet).1 hearlier
    · exact run.gone (atEach_concat.mp hmet).1
        (hbefore (fun event => event.isAuthorized = false) hother)

/-- The event is handled for the first time. -/
theorem HoldRun.handled (run : HoldRun charge currencies before hold)
    (hnames : charge.Names delivery.event) {next : ChargeState}
    (hfresh : delivery.event.id ∉ (consumePayments currencies before).processed)
    (hhandle : (consumePayments currencies before).handlePayment currencies delivery.event =
      .ok next)
    (h : (consumePayments currencies before).handlePaymentMessage currencies delivery =
      .ok { next with processed :=
        (consumePayments currencies before).processed ++ [delivery.event.id] }) :
    HoldRun charge currencies (before ++ [delivery])
      (hold.handle ((consumePayments currencies before).isNewer delivery.event)
        delivery.event.payload) := by
  have hstate : consumePayments currencies (before ++ [delivery]) =
      { next with processed :=
        (consumePayments currencies before).processed ++ [delivery.event.id] } := by
    rw [consumePayments_concat, h]
  have hhandled : Handled currencies before delivery := ⟨_, h⟩
  have hrow := canceled_or_row hhandle
  constructor
  · rw [hstate]
    exact (run.booked.handlePayment hnames hhandle).claim _
  · intro id hid
    rw [hstate] at hid
    rcases List.mem_append.mp hid with hold' | hnew
    · exact somewhere_concat.mpr (.inl (run.claimed id hold'))
    · rw [List.mem_singleton] at hnew
      exact somewhere_concat.mpr (.inr ⟨hnew.symm, hhandled⟩)
  · rw [AuthorizedBy, somewhere_concat, ← AuthorizedBy, ← run.authorized]
    unfold PaymentEvent.isAuthorized
    cases hpayload : delivery.event.payload with
    | canceled data => simp [Hold.handle]
    | charge payload =>
        cases payload with
        | authorized data => simp [Hold.handle, ChargePayload.isAuthorized, hhandled]
        | captured data =>
            simp only [Hold.handle, ChargePayload.isAuthorized, Bool.false_eq_true, false_and,
              or_false]
            split <;> rfl
  · intro hmet
    obtain ⟨hearlier, hlast⟩ := atEach_concat.mp hmet
    exact ((run.sound hearlier).handle run.booked hrow (hlast hfresh hhandled)).1
  · intro hmet hended
    obtain ⟨hearlier, hlast⟩ := atEach_concat.mp hmet
    have hsound := (run.sound hearlier).handle run.booked hrow (hlast hfresh hhandled)
    rcases somewhere_concat.mp hended with hbefore | ⟨hother, -⟩
    · -- what is gone stays gone
      have hgone := run.gone hearlier hbefore
      cases hpayload : delivery.event.payload with
      | canceled data => exact .inr rfl
      | charge payload =>
          cases payload with
          | authorized data => exact hgone
          | captured data =>
              cases hstale : (consumePayments currencies before).isNewer delivery.event with
              | true => exact hgone
              | false => exact .inl rfl
    · exact hsound.2 hother

/-- A message leaves the hold as its event says, or as it was. -/
theorem HoldRun.deliver (run : HoldRun charge currencies before hold)
    (delivers : DeliversHold charge (before ++ [delivery])) :
    ∃ hold', HoldRun charge currencies (before ++ [delivery]) hold' := by
  rcases handlePaymentMessage_cases currencies
    (consumePayments currencies before) delivery with
    ⟨raised, h⟩ | ⟨hclaimed, h⟩ | ⟨hfresh, next, hhandle, h⟩
  · exact ⟨_, run.refused h⟩
  · exact ⟨_, run.repeated delivers hclaimed h⟩
  · exact ⟨_, run.handled (delivers.ofCharge delivery (by simp)) hfresh hhandle h⟩

end Deliver

theorem DeliversHold.initial {before after : List PaymentDelivery}
    (delivers : DeliversHold charge (before ++ after)) : DeliversHold charge before where
  ofCharge delivery hdelivery := delivers.ofCharge delivery (List.mem_append_left _ hdelivery)
  identified delivery hdelivery other hother :=
    delivers.identified delivery (List.mem_append_left _ hdelivery) other
      (List.mem_append_left _ hother)

theorem hold_run (currencies : List String) {deliveries : List PaymentDelivery}
    (delivers : DeliversHold charge deliveries) :
    ∃ hold, HoldRun charge currencies deliveries hold := by
  induction deliveries using List.reverseRecOn with
  | nil => exact ⟨_, holdRun_nil⟩
  | append_singleton before delivery ih =>
      obtain ⟨hold, run⟩ := ih delivers.initial
      exact run.deliver delivers

/-- A sound hold is never past zero. -/
theorem Hold.Sound.balance_nonneg {hold : Hold} {amountMinor : Int}
    (sound : hold.Sound amountMinor) (hpos : 0 < amountMinor)
    (hauthorized : hold.authorized = true) : 0 ≤ hold.balance amountMinor := by
  unfold Hold.balance
  rw [if_pos hauthorized]
  cases hcaptured : hold.captured with
  | none =>
      rw [Option.getD_none]
      split <;> omega
  | some amount =>
      have hreleased := sound.once (by rw [hcaptured]; rfl)
      have hamount := sound.full amount hcaptured
      rw [Option.getD_some, hreleased, if_neg Bool.false_ne_true]
      omega

/-- A sound hold that is gone is at zero. -/
theorem Hold.Sound.balance_eq_zero {hold : Hold} {amountMinor : Int}
    (sound : hold.Sound amountMinor) (hauthorized : hold.authorized = true)
    (hgone : hold.captured.isSome = true ∨ hold.released = true) :
    hold.balance amountMinor = 0 := by
  unfold Hold.balance
  rw [if_pos hauthorized]
  cases hcaptured : hold.captured with
  | none =>
      rw [hcaptured] at hgone
      rcases hgone with hnone | hreleased
      · cases hnone
      · rw [if_pos hreleased, Option.getD_none]
        omega
  | some amount =>
      have hreleased := sound.once (by rw [hcaptured]; rfl)
      have hamount := sound.full amount hcaptured
      rw [Option.getD_some, hreleased, if_neg Bool.false_ne_true]
      omega

theorem EndedBy.capturedOrCanceled {deliveries : List PaymentDelivery}
    (h : EndedBy currencies deliveries) :
    AuthorizedBy currencies deliveries ∧ CapturedOrCanceledBy currencies deliveries := by
  obtain ⟨before, delivery, after, rfl, hother, hhandled, first, authorized, between, rfl,
    hauthorized⟩ := h
  constructor
  · exact ⟨first, authorized, between ++ delivery :: after, by simp, hauthorized⟩
  · exact ⟨_, delivery, after, rfl, hother, hhandled⟩

/-- A capture that leaves nothing of an authorized hold took all of it, or found it gone. -/
theorem Hold.found {hold : Hold} {amountMinor : Int} {data : PaymentCapturedPayload}
    (stale : Bool) (hauthorized : hold.authorized = true) (hpos : 0 < amountMinor)
    (hcaptured : ∀ amount, (hold.handle stale (.charge (.captured data))).captured = some amount →
      0 < amount)
    (hbalance : (hold.handle stale (.charge (.captured data))).balance amountMinor = 0) :
    if stale then hold.captured.isSome = true ∨ hold.released = true
    else hold.captured.isSome = true ∨
      (¬ hold.released = true ∧ data.capturedAmountMinor = amountMinor) := by
  cases hbefore : hold.captured with
  | some amount => cases stale <;> exact .inl rfl
  | none =>
      cases stale with
      | true =>
          refine .inr (by_contra fun hnot => ?_)
          have hkept : hold.balance amountMinor = 0 := hbalance
          rw [Hold.balance, if_pos hauthorized, hbefore, if_neg hnot, Option.getD_none] at hkept
          omega
      | false =>
          have htaken : (hold.handle false (.charge (.captured data))).captured =
              some data.capturedAmountMinor := by
            simp [Hold.handle, hbefore]
          have hamount := hcaptured _ htaken
          rw [Hold.balance, htaken, Option.getD_some] at hbalance
          simp only [Hold.handle, Bool.false_eq_true, if_false, hauthorized, if_true] at hbalance
          refine .inr ⟨fun hreleased => ?_, ?_⟩
          · rw [if_pos hreleased] at hbalance
            omega
          · split at hbalance <;> omega

end Run

/-- The hold of a charge is released exactly once just when every event finds it as it has
to: no capture of another amount than the authorized one and none after a cancellation, no
cancellation after a capture, and no stale capture before the hold is gone. -/
theorem hold_released_once_iff (charge : HeldCharge) (currencies : List String)
    (deliveries : List PaymentDelivery) (delivers : DeliversHold charge deliveries) :
    HoldReleasedOnce currencies deliveries ↔ HoldsMet charge currencies deliveries := by
  constructor
  · rintro law before delivery after rfl hfresh hhandled
    have delivers' : DeliversHold charge (before ++ [delivery]) := by
      rw [List.append_cons] at delivers
      exact delivers.initial
    have hnames := delivers'.ofCharge delivery (by simp)
    obtain ⟨hold, run⟩ := hold_run currencies delivers'.initial
    obtain ⟨next, hhandle, hmessage⟩ : ∃ next,
        (consumePayments currencies before).handlePayment currencies delivery.event = .ok next ∧
          (consumePayments currencies before).handlePaymentMessage currencies delivery =
            .ok { next with processed :=
              (consumePayments currencies before).processed ++ [delivery.event.id] } := by
      rcases handlePaymentMessage_cases currencies
        (consumePayments currencies before) delivery with
        ⟨raised, h⟩ | ⟨hclaimed, -⟩ | ⟨-, next, hhandle, h⟩
      · obtain ⟨next, hnext⟩ := hhandled
        rw [h] at hnext
        cases hnext
      · exact absurd hclaimed hfresh
      · exact ⟨next, hhandle, h⟩
    have run' := run.handled hnames hfresh hhandle hmessage
    -- what the law says once the charge is authorized and this event is handled
    have hzero (hother : delivery.event.isAuthorized = false)
        (hauthorized : hold.authorized = true) :
        (hold.handle ((consumePayments currencies before).isNewer delivery.event)
          delivery.event.payload).balance charge.amountMinor = 0 := by
      rw [← run'.booked.receivable]
      refine (law.released (before ++ [delivery]) ⟨after, by simp⟩ ?_).1
      exact somewhere_concat.mpr (.inr ⟨hother, hhandled, run.authorized.mp hauthorized⟩)
    unfold FindsHold
    unfold PaymentEvent.isAuthorized at hzero
    cases hpayload : delivery.event.payload with
    | canceled data =>
        intro hposted
        obtain ⟨amount, hamount⟩ := Option.isSome_iff_exists.mp (run.booked.captured.mp hposted)
        obtain ⟨hauthorized, hpos⟩ := run.booked.capturedAfter amount hamount
        rw [hpayload] at hzero
        have hbalance := hzero rfl hauthorized
        simp only [Hold.handle, Hold.balance, hauthorized, hamount, Option.getD_some,
          if_true] at hbalance
        omega
    | charge payload =>
    cases payload with
    | authorized data => trivial
    | captured data =>
    intro row hrow
    have hauthorized : hold.authorized = true := by
      rw [← run.booked.row, hrow]
      rfl
    have hpos := run.booked.positive hauthorized
    rw [hpayload, ChargeState.isNewer, hrow] at hzero
    have hbalance := hzero rfl hauthorized
    have hbooked := run'.booked
    rw [hpayload, ChargeState.isNewer, hrow] at hbooked
    have hfound := Hold.found _ hauthorized hpos
      (fun amount hamount => (hbooked.capturedAfter amount hamount).2) hbalance
    rw [run.booked.captured, run.booked.released]
    simpa only [decide_eq_true_eq] using hfound
  · intro hmet
    have hpart {before after : List PaymentDelivery} (h : deliveries = before ++ after) :
        HoldsMet charge currencies before := by
      intro earlier delivery later hsplit
      exact hmet earlier delivery (later ++ after) (by rw [h, hsplit]; simp)
    constructor
    · rintro before ⟨after, rfl⟩ hposted
      obtain ⟨hold, run⟩ := hold_run currencies delivers.initial
      have hauthorized := run.booked.authorized.mp hposted
      have hbalance := (run.sound (hpart rfl)).balance_nonneg
        (run.booked.positive hauthorized) hauthorized
      rw [run.booked.receivable, run.booked.held]
      constructor
      · exact hbalance
      · omega
    · rintro before ⟨after, rfl⟩ hended
      obtain ⟨hauthorizedBy, hgone⟩ := hended.capturedOrCanceled
      obtain ⟨hold, run⟩ := hold_run currencies delivers.initial
      have hauthorized := run.authorized.mpr hauthorizedBy
      have hbalance := (run.sound (hpart rfl)).balance_eq_zero hauthorized
        (run.gone (hpart rfl) hgone)
      rw [run.booked.receivable, run.booked.held]
      constructor
      · exact hbalance
      · omega

namespace HoldSample

/-- A charge of one hundred. -/
def charge : HeldCharge where
  chargeId := "ch_1"
  merchantId := "mer_1"
  currency := "EUR"
  amountMinor := 100

def authorized (id : String) (occurredAt : Instant) : PaymentDelivery where
  event :=
    { id := id
      occurredAt := occurredAt
      livemode := true
      payload := .charge (.authorized
        { chargeId := "ch_1"
          merchantId := "mer_1"
          amountMinor := 100
          currency := "EUR"
          acquirer := "northgate"
          networkTransactionId := none
          processorReference := none
          captureMethod := "manual"
          captureAtSettlement := false
          reserveBps := none
          platformFeeBps := none
          platformFeeFixedMinor := none
          authorizedAt := occurredAt }) }

def captured (id : String) (occurredAt : Instant) (amountMinor : Int) : PaymentDelivery where
  event :=
    { id := id
      occurredAt := occurredAt
      livemode := true
      payload := .charge (.captured
        { chargeId := "ch_1"
          merchantId := "mer_1"
          capturedAmountMinor := amountMinor
          currency := "EUR"
          capturedAt := occurredAt }) }

def canceled (id : String) (occurredAt : Instant) : PaymentDelivery where
  event :=
    { id := id
      occurredAt := occurredAt
      livemode := true
      payload := .canceled
        { chargeId := some "ch_1"
          merchantId := "mer_1"
          currency := "EUR"
          releasedAmountMinor := 100 } }

/-- Two fifths of the hold are captured. -/
def partlyCaptured : List PaymentDelivery :=
  [authorized "evt_1" 1, captured "evt_2" 2 40]

/-- A cancellation comes after the whole amount was captured. -/
def canceledLate : List PaymentDelivery :=
  [authorized "evt_1" 1, captured "evt_2" 2 100, canceled "evt_3" 3]

/-- The cancellation is delivered twice. -/
def canceledTwice : List PaymentDelivery :=
  [authorized "evt_1" 1, canceled "evt_2" 2, canceled "evt_2" 2]

end HoldSample

open HoldSample in
theorem hold_released_once_canceledTwice : HoldReleasedOnce ["EUR"] canceledTwice := by
  refine (hold_released_once_iff charge ["EUR"] canceledTwice ⟨?_, by decide⟩).mpr ?_
  · intro delivery hdelivery
    simp only [canceledTwice, List.mem_cons, List.not_mem_nil, or_false] at hdelivery
    rcases hdelivery with rfl | rfl | rfl
    · exact ⟨rfl, rfl, rfl, rfl⟩
    · exact ⟨rfl, rfl, rfl, rfl⟩
    · exact ⟨rfl, rfl, rfl, rfl⟩
  · refine atEach_cons.mpr ⟨fun _ _ => trivial, atEach_cons.mpr ⟨fun _ _ => ?_,
      atEach_cons.mpr ⟨fun hfresh => absurd ?_ hfresh, atEach_nil _⟩⟩⟩
    · change ¬ Posted (consumePayments ["EUR"] [authorized "evt_1" 1]).postings .capture
      decide +kernel
    · decide +kernel

open HoldSample in
/-- A partial capture leaves the rest of the hold in place for good, and a cancellation
after a capture takes the hold below zero. -/
theorem hold_drifts :
    (DeliversHold charge partlyCaptured ∧ ¬ HoldReleasedOnce ["EUR"] partlyCaptured) ∧
      (DeliversHold charge canceledLate ∧ ¬ HoldReleasedOnce ["EUR"] canceledLate) := by
  constructor
  · refine ⟨⟨?_, by decide⟩, fun law => ?_⟩
    · intro delivery hdelivery
      simp only [partlyCaptured, List.mem_cons, List.not_mem_nil, or_false] at hdelivery
      rcases hdelivery with rfl | rfl
      · exact ⟨rfl, rfl, rfl, rfl⟩
      · exact ⟨rfl, rfl, rfl⟩
    · have hended : EndedBy ["EUR"] partlyCaptured :=
        ⟨[authorized "evt_1" 1], _, [], rfl, rfl, ⟨_, rfl⟩, [], _, [], rfl, rfl, _, rfl⟩
      have hzero := (law.released _ (List.prefix_refl _) hended).1
      have hleft : postedMovement .merchantReceivable
          (consumePayments ["EUR"] partlyCaptured).postings = 60 := by
        decide +kernel
      omega
  · refine ⟨⟨?_, by decide⟩, fun law => ?_⟩
    · intro delivery hdelivery
      simp only [canceledLate, List.mem_cons, List.not_mem_nil, or_false] at hdelivery
      rcases hdelivery with rfl | rfl | rfl
      · exact ⟨rfl, rfl, rfl, rfl⟩
      · exact ⟨rfl, rfl, rfl⟩
      · exact ⟨rfl, rfl, rfl, rfl⟩
    · have hposted : Posted (consumePayments ["EUR"] canceledLate).postings .auth := by
        decide +kernel
      have hwithin := (law.within _ (List.prefix_refl _) hposted).1
      have hbelow : postedMovement .merchantReceivable
          (consumePayments ["EUR"] canceledLate).postings = -100 := by
        decide +kernel
      omega

end PayzenoLedger
