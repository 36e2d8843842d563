import PayzenoLedger.Consumers.Payments

/-!
# Convergence of a charge

What the events of one charge leave depends on the order in which they are first
handled.  The row is the newest authorisation, stamped by the captures that come
after it; an authorisation that writes the row and a capture that stamps it are
posted, once for each merchant that they name.
-/

set_option autoImplicit false

namespace PayzenoLedger

open Library ChargeState

/-! ## Events -/

namespace ChargeEvent

def isAuthorized (event : ChargeEvent) : Bool :=
  event.payload.isAuthorized

def merchantId (event : ChargeEvent) : String :=
  event.payload.merchantId

/-- The row that an authorisation writes. -/
def row (event : ChargeEvent) : Option SettlementCharge :=
  match event.payload with
  | .authorized data => some (chargeProjection data event.id event.occurredAt event.livemode)
  | .captured _ => none

/-- The newest authorisation among the events. -/
def newestAuthorized (events : List ChargeEvent) : Option ChargeEvent :=
  newest occurredAt (events.filter isAuthorized)

end ChargeEvent

open ChargeEvent

/-- The row without its capture. -/
def SettlementCharge.uncaptured (charge : SettlementCharge) : SettlementCharge :=
  { charge with capturedAt := none }

/-- The event is an authorisation newer than all those handled before. -/
def Writes (before : List ChargeEvent) (event : ChargeEvent) : Prop :=
  event.isAuthorized = true ∧
    ∀ other ∈ before, other.isAuthorized = true → other.occurredAt < event.occurredAt

/-- The event is a capture no older than the authorisations handled before. -/
def Stamps (before : List ChargeEvent) (event : ChargeEvent) : Prop :=
  event.isAuthorized = false ∧
    ∀ other ∈ before, other.isAuthorized = true → other.occurredAt ≤ event.occurredAt

/-- No authorisation among the events is later than this one. -/
def LatestOf (events : List ChargeEvent) (latest : ChargeEvent) : Prop :=
  latest.isAuthorized = true ∧
    ∀ other ∈ events, other.isAuthorized = true → other.occurredAt ≤ latest.occurredAt

/-- A capture that is not older than the latest authorisation is handled after it. -/
def CapturedAfterLatest (events : List ChargeEvent) : Prop :=
  Somewhere (fun before event => event.isAuthorized = false ∧
    ∃ latest ∈ before, LatestOf events latest ∧ latest.occurredAt ≤ event.occurredAt) events

/-! ## The law -/

/-- The row is captured and otherwise what a latest authorisation says, and one
posting of each kind is committed. -/
structure ChargeConverged (events : List ChargeEvent) (state : ChargeState) : Prop where
  row : ∃ charge, state.charge = some charge ∧ charge.capturedAt ≠ none ∧
    ∃ latest ∈ events, LatestOf events latest ∧ latest.row = some charge.uncaptured
  authorized :
    (state.postings.filter fun posted => posted.purpose = .auth).length = 1
  captured :
    (state.postings.filter fun posted => posted.purpose = .capture).length = 1

/-- The events in the order in which they are first handled without an error. -/
def handledFrom (currencies : List String) :
    ChargeState → List ChargeDelivery → List ChargeEvent
  | _, [] => []
  | state, delivery :: deliveries =>
      match state.handleMessage currencies delivery with
      | .error _ => handledFrom currencies state deliveries
      | .ok next =>
          if delivery.event.id ∈ state.processed then handledFrom currencies next deliveries
          else delivery.event :: handledFrom currencies next deliveries

def handledEvents (currencies : List String) (deliveries : List ChargeDelivery) :
    List ChargeEvent :=
  handledFrom currencies {} deliveries

/-- A finite set of a charge's events, with an authorisation and a capture and every
capture later than the first authorisation, and a queue that delivers them, in any
order and any number of times, until each has been handled without an error. -/
structure DeliversCharge (currencies : List String) (chargeId : String)
    (events : List ChargeEvent) (deliveries : List ChargeDelivery) : Prop where
  ofCharge : ∀ event ∈ events, event.payload.chargeId = chargeId
  identified : ∀ event ∈ events, ∀ other ∈ events, event.id = other.id → event = other
  authorized : ∃ event ∈ events, event.isAuthorized = true
  captured : ∃ event ∈ events, event.isAuthorized = false
  later : ∀ event ∈ events, event.isAuthorized = false →
    ∃ first ∈ events, first.isAuthorized = true ∧ first.occurredAt < event.occurredAt
  only : ∀ delivery ∈ deliveries, delivery.event ∈ events
  complete : ∀ event ∈ events, Somewhere (fun before delivery => delivery.event = event ∧
    ∃ next, (ChargeState.consume currencies before).handleMessage currencies delivery =
      .ok next) deliveries

/-- The order in which the events are handled leaves the charge captured, and the events
that are posted name one merchant. -/
structure ConvergesInOrder (handled : List ChargeEvent) : Prop where
  afterLatest : CapturedAfterLatest handled
  authorizedFor : ∀ merchant merchant',
    Somewhere (fun before event => Writes before event ∧ event.merchantId = merchant) handled →
    Somewhere (fun before event => Writes before event ∧ event.merchantId = merchant') handled →
    merchant = merchant'
  capturedFor : ∀ merchant merchant',
    Somewhere (fun before event => Stamps before event ∧ event.merchantId = merchant) handled →
    Somewhere (fun before event => Stamps before event ∧ event.merchantId = merchant') handled →
    merchant = merchant'

theorem Purpose.toString_injective {purpose purpose' : Purpose}
    (h : purpose.toString = purpose'.toString) : purpose = purpose' := by
  cases purpose <;> cases purpose' <;> first | rfl | exact absurd h (by decide)

/-- A posting under the key of a purpose, a merchant and the charge, unless the key is
taken. -/
def PostsOnce (chargeId : String) (postings : List PostRequest) (purpose : Purpose)
    (merchantId : String) (postings' : List PostRequest) : Prop :=
  ∃ key, ledgerKey purpose.toString merchantId chargeId = .ok key ∧
    (((∃ posted ∈ postings, posted.idempotencyKey = key) ∧ postings' = postings) ∨
      ((∀ posted ∈ postings, posted.idempotencyKey ≠ key) ∧
        ∃ request : PostRequest, request.purpose = purpose ∧
          request.merchantId = some merchantId ∧ request.idempotencyKey = key ∧
          postings' = postings ++ [request]))

theorem ChargeState.postCharge_ok {state next : ChargeState} {rule : PostingRule}
    {context : PostingContext} {merchantId chargeId eventId : String} {livemode : Bool}
    (h : state.postCharge rule context merchantId chargeId livemode eventId = .ok next) :
    next.charge = state.charge ∧ next.processed = state.processed ∧
      PostsOnce chargeId state.postings rule.purpose merchantId next.postings := by
  unfold postCharge at h
  cases hlines : rule.build context with
  | error raised =>
      rw [hlines] at h
      cases h
  | ok lines =>
      rw [hlines] at h
      cases hkey : ledgerKey rule.purpose.toString merchantId chargeId with
      | error raised =>
          simp only [hkey, bind, Except.bind] at h
          cases h
      | ok key =>
          simp only [hkey, bind, Except.bind, post] at h
          split at h
          · cases h
          · split at h
            · next hany =>
                cases h
                obtain ⟨posted, hposted, hsame⟩ := List.any_eq_true.mp hany
                exact ⟨rfl, rfl, key, hkey, .inl ⟨⟨posted, hposted, of_decide_eq_true hsame⟩,
                  rfl⟩⟩
            · next hany =>
                cases h
                refine ⟨rfl, rfl, key, hkey, .inr ⟨?_, _, rfl, rfl, rfl, rfl⟩⟩
                intro posted hposted hsame
                exact hany (List.any_eq_true.mpr ⟨posted, hposted, decide_eq_true hsame⟩)

/-- The postings about the charge: one for each purpose and merchant posted for. -/
structure Booked (chargeId : String) (postings : List PostRequest)
    (postedFor : Purpose → String → Prop) : Prop where
  keyed : ∀ posted ∈ postings, ∃ merchant, posted.merchantId = some merchant ∧
    ledgerKey posted.purpose.toString merchant chargeId = .ok posted.idempotencyKey
  nodup : (postings.map PostRequest.idempotencyKey).Nodup
  mem : ∀ purpose merchant,
    (∃ posted ∈ postings, posted.purpose = purpose ∧ posted.merchantId = some merchant) ↔
      postedFor purpose merchant

section Booked

variable {chargeId merchantId : String} {postings postings' : List PostRequest}
  {postedFor : Purpose → String → Prop} {purpose : Purpose}

theorem Booked.posts (booked : Booked chargeId postings postedFor)
    (posts : PostsOnce chargeId postings purpose merchantId postings') :
    Booked chargeId postings' fun other merchant =>
      postedFor other merchant ∨ (other = purpose ∧ merchant = merchantId) := by
  obtain ⟨key, hkey, ⟨⟨posted, hposted, hsame⟩, rfl⟩ |
    ⟨hfree, request, hpurpose, hmerchant, hrequest, rfl⟩⟩ := posts
  · refine ⟨booked.keyed, booked.nodup, fun other merchant => ?_⟩
    rw [booked.mem]
    constructor
    · exact .inl
    · rintro (h | ⟨rfl, rfl⟩)
      · exact h
      · obtain ⟨named, hnamed, hposted'⟩ := booked.keyed posted hposted
        rw [hsame] at hposted'
        obtain ⟨hpurpose, rfl, -⟩ := ledgerKey_injective hposted' hkey
        exact (booked.mem _ _).mp ⟨posted, hposted, Purpose.toString_injective hpurpose, hnamed⟩
  · constructor
    · intro posted hposted
      rcases List.mem_append.mp hposted with hold | hnew
      · exact booked.keyed posted hold
      · rw [List.mem_singleton.mp hnew]
        exact ⟨merchantId, hmerchant, by rw [hpurpose, hrequest]; exact hkey⟩
    · rw [List.map_append, List.nodup_append]
      refine ⟨booked.nodup, List.nodup_singleton _, ?_⟩
      intro taken htaken new hnew
      obtain ⟨posted, hposted, rfl⟩ := List.mem_map.mp htaken
      rw [List.map_singleton, List.mem_singleton] at hnew
      rw [hnew, hrequest]
      exact hfree posted hposted
    · intro other merchant
      rw [← booked.mem]
      constructor
      · rintro ⟨posted, hposted, hother, hnamed⟩
        rcases List.mem_append.mp hposted with hold | hnew
        · exact .inl ⟨posted, hold, hother, hnamed⟩
        · obtain rfl := List.mem_singleton.mp hnew
          rw [hmerchant, Option.some.injEq] at hnamed
          exact .inr ⟨hother.symm.trans hpurpose, hnamed.symm⟩
      · rintro (⟨posted, hposted, hother⟩ | ⟨rfl, rfl⟩)
        · exact ⟨posted, List.mem_append_left _ hposted, hother⟩
        · exact ⟨request, List.mem_append_right _ (List.mem_singleton_self _), hpurpose,
            hmerchant⟩

/-- One posting of a purpose is committed just when it is posted for one merchant. -/
theorem Booked.length_eq_one_iff (booked : Booked chargeId postings postedFor)
    (purpose : Purpose) :
    (postings.filter fun posted => posted.purpose = purpose).length = 1 ↔
      (∃ merchant, postedFor purpose merchant) ∧
        ∀ merchant merchant', postedFor purpose merchant → postedFor purpose merchant' →
          merchant = merchant' := by
  have hmem (posted : PostRequest) :
      posted ∈ postings.filter (fun posted => posted.purpose = purpose) ↔
        posted ∈ postings ∧ posted.purpose = purpose := by
    rw [List.mem_filter, decide_eq_true_eq]
  constructor
  · intro hlength
    obtain ⟨only, honly⟩ := List.length_eq_one_iff.mp hlength
    have hthe (merchant : String) (h : postedFor purpose merchant) :
        only.merchantId = some merchant := by
      obtain ⟨posted, hposted, hpurpose, hnamed⟩ := (booked.mem purpose merchant).mpr h
      have hin := (hmem posted).mpr ⟨hposted, hpurpose⟩
      rw [honly, List.mem_singleton] at hin
      rw [← hin]
      exact hnamed
    obtain ⟨hin, hpurpose⟩ := (hmem only).mp (honly ▸ List.mem_singleton_self only)
    obtain ⟨merchant, hnamed, -⟩ := booked.keyed only hin
    refine ⟨⟨merchant, (booked.mem _ _).mp ⟨only, hin, hpurpose, hnamed⟩⟩, ?_⟩
    intro first second hfirst hsecond
    exact Option.some.inj ((hthe first hfirst).symm.trans (hthe second hsecond))
  · rintro ⟨⟨merchant, hmerchant⟩, hunique⟩
    obtain ⟨only, honly, hpurpose, hnamed⟩ := (booked.mem purpose merchant).mpr hmerchant
    have hsame (posted : PostRequest)
        (hposted : posted ∈ postings.filter fun posted => posted.purpose = purpose) :
        posted = only := by
      obtain ⟨hin, hpurpose'⟩ := (hmem posted).mp hposted
      obtain ⟨merchant', hnamed', hkey'⟩ := booked.keyed posted hin
      obtain ⟨merchant'', hnamed'', hkey''⟩ := booked.keyed only honly
      have hfirst := hunique merchant' merchant
        ((booked.mem _ _).mp ⟨posted, hin, hpurpose', hnamed'⟩) hmerchant
      have hsecond := Option.some.inj (hnamed''.symm.trans hnamed)
      rw [hpurpose', hfirst] at hkey'
      rw [hpurpose, hsecond] at hkey''
      have hkeys := Except.ok.inj (hkey'.symm.trans hkey'')
      exact List.inj_on_of_nodup_map booked.nodup hin honly hkeys
    have hnodup : (postings.filter fun posted => posted.purpose = purpose).Nodup :=
      (List.Nodup.of_map _ booked.nodup).filter _
    have hone := List.eq_replicate_of_mem hsame
    rw [hone] at hnodup
    have hle := List.nodup_replicate.mp hnodup
    have hpos := List.length_pos_of_mem ((hmem only).mpr ⟨honly, hpurpose⟩)
    omega

end Booked

/-! ## One event -/

/-- For whom a purpose is posted when the events are handled in this order. -/
def PostedFor (handled : List ChargeEvent) (purpose : Purpose) (merchant : String) : Prop :=
  (purpose = .auth ∧
      Somewhere (fun before event => Writes before event ∧ event.merchantId = merchant) handled) ∨
    (purpose = .capture ∧
      Somewhere (fun before event => Stamps before event ∧ event.merchantId = merchant) handled)

/-- What the events handled so far have left of a charge. -/
structure Mirrors (chargeId : String) (handled : List ChargeEvent) (state : ChargeState) :
    Prop where
  claimed : ∀ id, id ∈ state.processed ↔ ∃ event ∈ handled, event.id = id
  row : state.charge.map SettlementCharge.uncaptured =
    (newestAuthorized handled).bind ChargeEvent.row
  stamped : (∃ charge, state.charge = some charge ∧ charge.capturedAt ≠ none) ↔
    CapturedAfterLatest handled
  booked : Booked chargeId state.postings (PostedFor handled)

theorem mirrors_nil (chargeId : String) : Mirrors chargeId [] {} where
  claimed id := by simp
  row := rfl
  stamped := by
    constructor
    · rintro ⟨charge, hcharge, -⟩
      cases hcharge
    · intro h
      exact absurd h (not_somewhere_nil _)
  booked :=
    { keyed := fun posted hposted => by cases hposted
      nodup := List.nodup_nil
      mem := fun purpose merchant => by
        constructor
        · rintro ⟨posted, hposted, -⟩
          cases hposted
        · rintro (⟨-, h⟩ | ⟨-, h⟩)
          · exact absurd h (not_somewhere_nil _)
          · exact absurd h (not_somewhere_nil _) }

theorem newestAuthorized_mem {events : List ChargeEvent} {event : ChargeEvent}
    (h : newestAuthorized events = some event) : event ∈ events ∧ event.isAuthorized = true :=
  List.mem_filter.mp (newest_mem h)

theorem occurredAt_le_newestAuthorized {events : List ChargeEvent} {last event : ChargeEvent}
    (h : newestAuthorized events = some last) (hmem : event ∈ events)
    (hauthorized : event.isAuthorized = true) : event.occurredAt ≤ last.occurredAt :=
  time_le_newest h (List.mem_filter.mpr ⟨hmem, hauthorized⟩)

theorem newestAuthorized_concat (events : List ChargeEvent) (event : ChargeEvent) :
    newestAuthorized (events ++ [event]) =
      if event.isAuthorized then newer occurredAt (newestAuthorized events) event
      else newestAuthorized events := by
  unfold newestAuthorized
  rw [List.filter_append]
  split
  · next hauthorized => rw [List.filter_cons_of_pos hauthorized, List.filter_nil, newest_concat]
  · next hother =>
      rw [List.filter_cons_of_neg hother, List.filter_nil, List.append_nil]

theorem row_isSome_iff (event : ChargeEvent) :
    event.row.isSome = event.isAuthorized := by
  unfold ChargeEvent.row isAuthorized ChargePayload.isAuthorized
  cases event.payload <;> rfl

section Step

variable {chargeId : String} {handled : List ChargeEvent} {state next : ChargeState}
  {event : ChargeEvent}

/-- The times of the row are those of the newest authorisation. -/
theorem Mirrors.newest (mirrors : Mirrors chargeId handled state) :
    (state.charge = none ∧ newestAuthorized handled = none) ∨
      ∃ charge last, state.charge = some charge ∧ newestAuthorized handled = some last ∧
        last.row = some charge.uncaptured ∧ charge.sourceOccurredAt = last.occurredAt := by
  have hrow := mirrors.row
  cases hnewest : newestAuthorized handled with
  | none =>
      rw [hnewest] at hrow
      cases hcharge : state.charge with
      | none => exact .inl ⟨rfl, rfl⟩
      | some charge =>
          rw [hcharge] at hrow
          cases hrow
  | some last =>
      rw [hnewest] at hrow
      have hauthorized := (newestAuthorized_mem hnewest).2
      rw [← row_isSome_iff] at hauthorized
      obtain ⟨row, hlast⟩ := Option.isSome_iff_exists.mp hauthorized
      cases hcharge : state.charge with
      | none =>
          rw [hcharge, Option.bind_some, hlast] at hrow
          cases hrow
      | some charge =>
          rw [hcharge, Option.bind_some] at hrow
          refine .inr ⟨charge, last, rfl, rfl, hrow.symm, ?_⟩
          have htime : row.sourceOccurredAt = last.occurredAt := by
            unfold ChargeEvent.row at hlast
            split at hlast
            · cases hlast
              rfl
            · cases hlast
          rw [hlast, Option.map_some, Option.some.injEq] at hrow
          rw [← htime, ← hrow]
          rfl

theorem writes_iff (handled : List ChargeEvent) (event : ChargeEvent) :
    Writes handled event ↔ event.isAuthorized = true ∧
      ∀ last, newestAuthorized handled = some last → last.occurredAt < event.occurredAt := by
  unfold Writes
  refine and_congr_right fun _ => ?_
  constructor
  · intro h last hlast
    obtain ⟨hmem, hauthorized⟩ := newestAuthorized_mem hlast
    exact h last hmem hauthorized
  · intro h other hother hauthorized
    cases hnewest : newestAuthorized handled with
    | none =>
        have hnil := newest_eq_none_iff.mp hnewest
        have hmem := List.mem_filter.mpr ⟨hother, hauthorized⟩
        rw [hnil] at hmem
        cases hmem
    | some last =>
        exact lt_of_le_of_lt (occurredAt_le_newestAuthorized hnewest hother hauthorized)
          (h last hnewest)

theorem stamps_iff (handled : List ChargeEvent) (event : ChargeEvent) :
    Stamps handled event ↔ event.isAuthorized = false ∧
      ∀ last, newestAuthorized handled = some last → last.occurredAt ≤ event.occurredAt := by
  unfold Stamps
  refine and_congr_right fun _ => ?_
  constructor
  · intro h last hlast
    obtain ⟨hmem, hauthorized⟩ := newestAuthorized_mem hlast
    exact h last hmem hauthorized
  · intro h other hother hauthorized
    cases hnewest : newestAuthorized handled with
    | none =>
        have hnil := newest_eq_none_iff.mp hnewest
        have hmem := List.mem_filter.mpr ⟨hother, hauthorized⟩
        rw [hnil] at hmem
        cases hmem
    | some last =>
        exact le_trans (occurredAt_le_newestAuthorized hnewest hother hauthorized)
          (h last hnewest)

/-- A later authorisation undoes every capture before it. -/
theorem not_capturedAfterLatest_of_writes (writes : Writes handled event) :
    ¬ CapturedAfterLatest (handled ++ [event]) := by
  rintro ⟨before, capture, after, hsplit, hcapture, latest, hlatest, hmost, -⟩
  have hevent := hmost.2 event (List.mem_append_right _ (List.mem_singleton_self _)) writes.1
  have hmem : latest ∈ handled := by
    cases after using List.reverseRecOn with
    | nil =>
        obtain ⟨rfl, -⟩ := List.append_inj' hsplit rfl
        exact hlatest
    | append_singleton after final =>
        rw [← List.cons_append, ← List.append_assoc] at hsplit
        obtain ⟨rfl, -⟩ := List.append_inj' hsplit rfl
        exact List.mem_append_left _ hlatest
  exact absurd (writes.2 latest hmem hmost.1) (not_lt.mpr hevent)

theorem latestOf_concat_iff (latest : ChargeEvent)
    (hold : event.isAuthorized = true →
      ∃ other ∈ handled, other.isAuthorized = true ∧ event.occurredAt ≤ other.occurredAt) :
    LatestOf (handled ++ [event]) latest ↔ LatestOf handled latest := by
  unfold LatestOf
  refine and_congr_right fun _ => ?_
  constructor
  · intro h other hother
    exact h other (List.mem_append_left _ hother)
  · intro h other hother hauthorized
    rcases List.mem_append.mp hother with hother | hother
    · exact h other hother hauthorized
    · rw [List.mem_singleton.mp hother] at hauthorized ⊢
      obtain ⟨newer, hnewer, hauthorized', hle⟩ := hold hauthorized
      exact le_trans hle (h newer hnewer hauthorized')

/-- An event that is no newer authorisation adds a capture just when it stamps. -/
theorem capturedAfterLatest_concat (hnot : ¬ Writes handled event) :
    CapturedAfterLatest (handled ++ [event]) ↔
      CapturedAfterLatest handled ∨ (Stamps handled event ∧ newestAuthorized handled ≠ none) := by
  have hold (hauthorized : event.isAuthorized = true) :
      ∃ other ∈ handled, other.isAuthorized = true ∧ event.occurredAt ≤ other.occurredAt := by
    by_contra hnone
    push Not at hnone
    exact hnot ⟨hauthorized, hnone⟩
  unfold CapturedAfterLatest
  simp only [latestOf_concat_iff _ hold]
  rw [somewhere_concat]
  refine or_congr_right ?_
  rw [stamps_iff]
  constructor
  · rintro ⟨hcapture, latest, hlatest, hmost, hle⟩
    refine ⟨⟨hcapture, fun last hlast => ?_⟩, fun hnone => ?_⟩
    · obtain ⟨hmem, hauthorized⟩ := newestAuthorized_mem hlast
      exact le_trans (hmost.2 last hmem hauthorized) hle
    · have hmem := List.mem_filter.mpr ⟨hlatest, hmost.1⟩
      rw [newest_eq_none_iff.mp hnone] at hmem
      cases hmem
  · rintro ⟨⟨hcapture, hle⟩, hsome⟩
    obtain ⟨last, hlast⟩ := Option.ne_none_iff_exists'.mp hsome
    obtain ⟨hmem, hauthorized⟩ := newestAuthorized_mem hlast
    exact ⟨hcapture, last, hmem, ⟨hauthorized, fun other hother hauthorized' =>
      occurredAt_le_newestAuthorized hlast hother hauthorized'⟩, hle last hlast⟩

theorem postedFor_concat (purpose : Purpose) (merchant : String) :
    PostedFor (handled ++ [event]) purpose merchant ↔ PostedFor handled purpose merchant ∨
      (purpose = .auth ∧ Writes handled event ∧ event.merchantId = merchant) ∨
      (purpose = .capture ∧ Stamps handled event ∧ event.merchantId = merchant) := by
  unfold PostedFor
  rw [somewhere_concat, somewhere_concat]
  tauto

theorem Booked.of_iff {postings : List PostRequest} {postedFor postedFor' : Purpose → String → Prop}
    (booked : Booked chargeId postings postedFor)
    (h : ∀ purpose merchant, postedFor' purpose merchant ↔ postedFor purpose merchant) :
    Booked chargeId postings postedFor' where
  keyed := booked.keyed
  nodup := booked.nodup
  mem purpose merchant := (booked.mem purpose merchant).trans (h purpose merchant).symm

theorem Mirrors.claim (mirrors : Mirrors chargeId handled state) (event : ChargeEvent)
    (id : String) :
    id ∈ state.processed ++ [event.id] ↔ ∃ other ∈ handled ++ [event], other.id = id := by
  simp only [List.mem_append, List.mem_singleton, mirrors.claimed]
  constructor
  · rintro (⟨other, hother, rfl⟩ | rfl)
    · exact ⟨other, .inl hother, rfl⟩
    · exact ⟨event, .inr rfl, rfl⟩
  · rintro ⟨other, hother | rfl, rfl⟩
    · exact .inl ⟨other, hother, rfl⟩
    · exact .inr rfl

/-- An event that neither writes nor stamps only is claimed. -/
theorem Mirrors.drop (mirrors : Mirrors chargeId handled state)
    (hwrites : ¬ Writes handled event) (hstamps : ¬ Stamps handled event) :
    Mirrors chargeId (handled ++ [event])
      { state with processed := state.processed ++ [event.id] } where
  claimed := mirrors.claim event
  row := by
    rw [mirrors.row, newestAuthorized_concat]
    split
    · next hauthorized =>
        cases hnewest : newestAuthorized handled with
        | none =>
            refine absurd ((writes_iff _ _).mpr ⟨hauthorized, fun last hlast => ?_⟩) hwrites
            rw [hnewest] at hlast
            cases hlast
        | some last =>
            have hnot : ¬ last.occurredAt < event.occurredAt := by
              intro hlt
              refine hwrites ((writes_iff _ _).mpr ⟨hauthorized, fun other hother => ?_⟩)
              rw [hnewest, Option.some.injEq] at hother
              rw [← hother]
              exact hlt
            simp only [newer, if_neg hnot]
    · rfl
  stamped := by
    rw [capturedAfterLatest_concat hwrites, mirrors.stamped]
    constructor
    · exact .inl
    · rintro (h | ⟨h, -⟩)
      · exact h
      · exact absurd h hstamps
  booked := mirrors.booked.of_iff fun purpose merchant => by
    rw [postedFor_concat]
    constructor
    · rintro (h | ⟨-, h, -⟩ | ⟨-, h, -⟩)
      · exact h
      · exact absurd h hwrites
      · exact absurd h hstamps
    · exact .inl

/-- A newer authorisation replaces the row, the capture with it. -/
theorem Mirrors.write {row : SettlementCharge} (mirrors : Mirrors chargeId handled state)
    (hwrites : Writes handled event) (hrow : event.row = some row)
    (hcharge : next.charge = some row) (hprocessed : next.processed = state.processed)
    (hposts : PostsOnce chargeId state.postings .auth event.merchantId next.postings) :
    Mirrors chargeId (handled ++ [event])
      { next with processed := next.processed ++ [event.id] } where
  claimed := by
    rw [hprocessed]
    exact mirrors.claim event
  row := by
    have hnewest : newestAuthorized (handled ++ [event]) = some event := by
      rw [newestAuthorized_concat, if_pos hwrites.1]
      unfold newer
      cases hlast : newestAuthorized handled with
      | none => rfl
      | some last => exact if_pos (((writes_iff _ _).mp hwrites).2 last hlast)
    rw [hnewest, Option.bind_some, hrow]
    change next.charge.map _ = _
    rw [hcharge]
    unfold ChargeEvent.row at hrow
    split at hrow <;> cases hrow
    rfl
  stamped := by
    constructor
    · rintro ⟨charge, hsame, hcaptured⟩
      rw [hcharge, Option.some.injEq] at hsame
      subst hsame
      unfold ChargeEvent.row at hrow
      split at hrow <;> cases hrow
      exact absurd rfl hcaptured
    · intro h
      exact absurd h (not_capturedAfterLatest_of_writes hwrites)
  booked := (mirrors.booked.posts hposts).of_iff fun purpose merchant => by
    rw [postedFor_concat]
    constructor
    · rintro (h | ⟨hpurpose, -, hmerchant⟩ | ⟨-, hstamps, -⟩)
      · exact .inl h
      · exact .inr ⟨hpurpose, hmerchant.symm⟩
      · exact absurd hstamps.1 (by rw [hwrites.1]; decide)
    · rintro (h | ⟨hpurpose, hmerchant⟩)
      · exact .inl h
      · exact .inr (.inl ⟨hpurpose, hwrites, hmerchant.symm⟩)

/-- A capture that is not older than the row stamps it. -/
theorem Mirrors.stamp {charge : SettlementCharge} {capturedAt : Instant}
    (mirrors : Mirrors chargeId handled state) (hstamps : Stamps handled event)
    (hbefore : state.charge = some charge)
    (hcharge : next.charge = some { charge with capturedAt := some capturedAt })
    (hprocessed : next.processed = state.processed)
    (hposts : PostsOnce chargeId state.postings .capture event.merchantId next.postings) :
    Mirrors chargeId (handled ++ [event])
      { next with processed := next.processed ++ [event.id] } where
  claimed := by
    rw [hprocessed]
    exact mirrors.claim event
  row := by
    have hrow := mirrors.row
    rw [newestAuthorized_concat, if_neg (by rw [hstamps.1]; decide), ← hrow, hbefore]
    change next.charge.map _ = _
    rw [hcharge]
    rfl
  stamped := by
    have hwrites : ¬ Writes handled event := fun h =>
      absurd h.1 (by rw [hstamps.1]; decide)
    rw [capturedAfterLatest_concat hwrites]
    constructor
    · intro _
      refine .inr ⟨hstamps, fun hnone => ?_⟩
      rcases mirrors.newest with ⟨hnocharge, -⟩ | ⟨_, last, -, hlast, -⟩
      · rw [hnocharge] at hbefore
        cases hbefore
      · rw [hnone] at hlast
        cases hlast
    · intro _
      exact ⟨_, hcharge, by simp⟩
  booked := (mirrors.booked.posts hposts).of_iff fun purpose merchant => by
    rw [postedFor_concat]
    constructor
    · rintro (h | ⟨-, hwrites, -⟩ | ⟨hpurpose, -, hmerchant⟩)
      · exact .inl h
      · exact absurd hwrites.1 (by rw [hstamps.1]; decide)
      · exact .inr ⟨hpurpose, hmerchant.symm⟩
    · rintro (h | ⟨hpurpose, hmerchant⟩)
      · exact .inl h
      · exact .inr (.inr ⟨hpurpose, hstamps, hmerchant.symm⟩)

/-- An event that is handled without an error. -/
theorem Mirrors.handle {currencies : List String} (mirrors : Mirrors chargeId handled state)
    (hof : event.payload.chargeId = chargeId)
    (h : state.handle currencies event = .ok next) :
    Mirrors chargeId (handled ++ [event])
      { next with processed := next.processed ++ [event.id] } := by
  unfold ChargeState.handle at h
  cases hpayload : event.payload with
  | authorized data =>
      have hauthorized : event.isAuthorized = true := by
        unfold isAuthorized
        rw [hpayload]
        rfl
      have hmerchant : data.merchantId = event.merchantId := by
        unfold ChargeEvent.merchantId
        rw [hpayload]
        rfl
      have hrow : event.row =
          some (chargeProjection data event.id event.occurredAt event.livemode) := by
        unfold ChargeEvent.row
        rw [hpayload]
      rw [hpayload] at h hof
      have hchargeId : data.chargeId = chargeId := hof
      have hstamps : ¬ Stamps handled event := fun hstamps => by
        rw [hstamps.1] at hauthorized
        cases hauthorized
      simp only [handlePaymentAuthorized] at h
      by_cases hwrites : Writes handled event
      · have hupsert : SettlementChargeRepository.upsertIfNewer state.charge
            (chargeProjection data event.id event.occurredAt event.livemode) =
              (chargeProjection data event.id event.occurredAt event.livemode, true) := by
          rcases mirrors.newest with ⟨hnone, -⟩ | ⟨charge, last, hcharge, hlast, -, htime⟩
          · rw [hnone]
            rfl
          · rw [hcharge]
            refine if_pos ?_
            rw [htime]
            exact ((writes_iff _ _).mp hwrites).2 last hlast
        rw [hupsert] at h
        obtain ⟨hcharge, hprocessed, hposts⟩ := postCharge_ok h
        rw [hchargeId, hmerchant] at hposts
        exact mirrors.write hwrites hrow hcharge hprocessed hposts
      · rcases mirrors.newest with ⟨-, hnone⟩ | ⟨charge, last, hcharge, hlast, -, htime⟩
        · refine absurd ((writes_iff _ _).mpr ⟨hauthorized, fun last hlast => ?_⟩) hwrites
          rw [hnone] at hlast
          cases hlast
        · have hstale : ¬ charge.sourceOccurredAt < event.occurredAt := by
            intro hlt
            refine hwrites ((writes_iff _ _).mpr ⟨hauthorized, fun other hother => ?_⟩)
            rw [hlast, Option.some.injEq] at hother
            rw [← hother, ← htime]
            exact hlt
          have hupsert : SettlementChargeRepository.upsertIfNewer state.charge
              (chargeProjection data event.id event.occurredAt event.livemode) =
                (charge, false) := by
            rw [hcharge]
            exact if_neg hstale
          rw [hupsert] at h
          cases h
          exact mirrors.drop hwrites hstamps
  | captured data =>
      have hcaptured : event.isAuthorized = false := by
        unfold isAuthorized
        rw [hpayload]
        rfl
      have hmerchant : data.merchantId = event.merchantId := by
        unfold ChargeEvent.merchantId
        rw [hpayload]
        rfl
      rw [hpayload] at h hof
      have hchargeId : data.chargeId = chargeId := hof
      have hwrites : ¬ Writes handled event := fun hwrites => by
        rw [hwrites.1] at hcaptured
        cases hcaptured
      simp only [handlePaymentCaptured] at h
      rcases mirrors.newest with ⟨hnone, -⟩ | ⟨charge, last, hcharge, hlast, -, htime⟩
      · rw [hnone] at h
        cases h
      · rw [hcharge] at h
        simp only [SettlementChargeRepository.existingOrRaise, bind, Except.bind] at h
        split at h
        · next hstale =>
            cases h
            refine mirrors.drop hwrites fun hstamps => ?_
            rw [htime] at hstale
            exact absurd hstale (not_lt.mpr (((stamps_iff _ _).mp hstamps).2 last hlast))
        · next hnewer =>
            have hstamps : Stamps handled event := by
              refine (stamps_iff _ _).mpr ⟨hcaptured, fun other hother => ?_⟩
              rw [hlast, Option.some.injEq] at hother
              rw [← hother, ← htime]
              exact not_lt.mp hnewer
            obtain ⟨hafter, hprocessed, hposts⟩ := postCharge_ok h
            rw [hchargeId, hmerchant] at hposts
            exact mirrors.stamp hstamps hcharge hafter hprocessed hposts

end Step

/-! ## All the deliveries -/

section Run

variable {currencies : List String} {chargeId : String} {events : List ChargeEvent}
  {deliveries : List ChargeDelivery}

theorem consume_concat_delivery (deliveries : List ChargeDelivery) (delivery : ChargeDelivery) :
    ChargeState.consume currencies (deliveries ++ [delivery]) =
      match (ChargeState.consume currencies deliveries).handleMessage currencies delivery with
      | .ok next => next
      | .error _ => ChargeState.consume currencies deliveries := by
  unfold ChargeState.consume
  rw [List.foldl_append]
  rfl

theorem handledFrom_concat (state : ChargeState) (deliveries : List ChargeDelivery)
    (delivery : ChargeDelivery) :
    handledFrom currencies state (deliveries ++ [delivery]) =
      handledFrom currencies state deliveries ++
        handledFrom currencies (deliveries.foldl (fun state delivery =>
          match state.handleMessage currencies delivery with
          | .ok next => next
          | .error _ => state) state) [delivery] := by
  induction deliveries generalizing state with
  | nil => rfl
  | cons first rest ih =>
      rw [List.cons_append, List.foldl_cons]
      unfold handledFrom
      cases hmessage : state.handleMessage currencies first with
      | error raised => exact ih state
      | ok next =>
          simp only
          split
          · exact ih next
          · rw [ih next]
            rfl

/-- One message of the queue: the event is claimed and dropped, raises and leaves
nothing, or is handled for the first time. -/
theorem handledEvents_concat (currencies : List String) (deliveries : List ChargeDelivery)
    (delivery : ChargeDelivery) :
    (handledEvents currencies (deliveries ++ [delivery]) = handledEvents currencies deliveries ∧
        ChargeState.consume currencies (deliveries ++ [delivery]) =
          ChargeState.consume currencies deliveries) ∨
      ∃ next, (ChargeState.consume currencies deliveries).handle currencies delivery.event =
          .ok next ∧
        handledEvents currencies (deliveries ++ [delivery]) =
          handledEvents currencies deliveries ++ [delivery.event] ∧
        ChargeState.consume currencies (deliveries ++ [delivery]) =
          { next with processed := next.processed ++ [delivery.event.id] } := by
  have hhandled : handledEvents currencies (deliveries ++ [delivery]) =
      handledEvents currencies deliveries ++
        handledFrom currencies (ChargeState.consume currencies deliveries) [delivery] :=
    handledFrom_concat {} deliveries delivery
  rw [hhandled, consume_concat_delivery]
  simp only [handledFrom]
  by_cases hclaimed : delivery.event.id ∈ (ChargeState.consume currencies deliveries).processed
  · left
    simp only [ChargeState.handleMessage, if_pos hclaimed, List.append_nil, and_self]
  · simp only [ChargeState.handleMessage, if_neg hclaimed]
    cases hraises : delivery.raises with
    | some raised =>
        left
        simp only [List.append_nil, and_self]
    | none =>
        cases hhandle :
          (ChargeState.consume currencies deliveries).handle currencies delivery.event with
        | error raised =>
            left
            simp only [bind, Except.bind, List.append_nil, and_self]
        | ok next => exact .inr ⟨next, rfl, rfl, rfl⟩

theorem consume_mirrors (hof : ∀ delivery ∈ deliveries,
      delivery.event.payload.chargeId = chargeId) :
    Mirrors chargeId (handledEvents currencies deliveries)
      (ChargeState.consume currencies deliveries) := by
  induction deliveries using List.reverseRecOn with
  | nil => exact mirrors_nil chargeId
  | append_singleton deliveries delivery ih =>
      have mirrors := ih fun other hother => hof other (List.mem_append_left _ hother)
      rcases handledEvents_concat currencies deliveries delivery with
        ⟨hhandled, hconsume⟩ | ⟨next, hhandle, hhandled, hconsume⟩
      · rw [hhandled, hconsume]
        exact mirrors
      · rw [hhandled, hconsume]
        exact mirrors.handle
          (hof delivery (List.mem_append_right _ (List.mem_singleton_self _))) hhandle

theorem mem_of_mem_handledEvents {event : ChargeEvent}
    (hmem : event ∈ handledEvents currencies deliveries) :
    ∃ delivery ∈ deliveries, delivery.event = event := by
  induction deliveries using List.reverseRecOn with
  | nil => cases hmem
  | append_singleton deliveries delivery ih =>
      have hold (h : event ∈ handledEvents currencies deliveries) :
          ∃ other ∈ deliveries ++ [delivery], other.event = event := by
        obtain ⟨other, hother, hsame⟩ := ih h
        exact ⟨other, List.mem_append_left _ hother, hsame⟩
      rcases handledEvents_concat currencies deliveries delivery with
        ⟨hhandled, -⟩ | ⟨next, -, hhandled, -⟩
      · exact hold (hhandled ▸ hmem)
      · rw [hhandled] at hmem
        rcases List.mem_append.mp hmem with h | h
        · exact hold h
        · exact ⟨delivery, List.mem_append_right _ (List.mem_singleton_self _),
            (List.mem_singleton.mp h).symm⟩

theorem handledEvents_mono {event : ChargeEvent} {before : List ChargeDelivery}
    (hmem : event ∈ handledEvents currencies before) (after : List ChargeDelivery) :
    event ∈ handledEvents currencies (before ++ after) := by
  induction after using List.reverseRecOn with
  | nil => rwa [List.append_nil]
  | append_singleton after delivery ih =>
      rw [← List.append_assoc]
      rcases handledEvents_concat currencies (before ++ after) delivery with
        ⟨hhandled, -⟩ | ⟨next, -, hhandled, -⟩
      · rw [hhandled]
        exact ih
      · rw [hhandled]
        exact List.mem_append_left _ ih

theorem DeliversCharge.mem_handledEvents
    (delivers : DeliversCharge currencies chargeId events deliveries) (event : ChargeEvent) :
    event ∈ handledEvents currencies deliveries ↔ event ∈ events := by
  constructor
  · intro hmem
    obtain ⟨delivery, hdelivery, rfl⟩ := mem_of_mem_handledEvents hmem
    exact delivers.only delivery hdelivery
  · intro hmem
    obtain ⟨before, delivery, after, hsplit, hevent, next, hnext⟩ :=
      delivers.complete event hmem
    have honly (other : ChargeDelivery) (hother : other ∈ before ++ [delivery]) :
        other.event ∈ events := by
      refine delivers.only other ?_
      rw [hsplit, List.append_cons]
      exact List.mem_append_left _ hother
    have mirrors : Mirrors chargeId (handledEvents currencies (before ++ [delivery]))
        (ChargeState.consume currencies (before ++ [delivery])) :=
      consume_mirrors fun other hother => delivers.ofCharge _ (honly other hother)
    have hclaimed :
        event.id ∈ (ChargeState.consume currencies (before ++ [delivery])).processed := by
      rw [consume_concat_delivery, hnext]
      unfold ChargeState.handleMessage at hnext
      rw [← hevent]
      split at hnext
      · next hclaimed =>
          cases hnext
          exact hclaimed
      · split at hnext
        · cases hnext
        · cases hhandle :
            (ChargeState.consume currencies before).handle currencies delivery.event with
          | error raised =>
              rw [hhandle] at hnext
              cases hnext
          | ok state =>
              rw [hhandle] at hnext
              cases hnext
              exact List.mem_append_right _ (List.mem_singleton_self _)
    obtain ⟨other, hother, hid⟩ := (mirrors.claimed _).mp hclaimed
    obtain ⟨source, hsource, hsame⟩ := mem_of_mem_handledEvents hother
    have hin : other ∈ events := hsame ▸ honly source hsource
    obtain rfl := delivers.identified other hin event hmem hid
    rw [hsplit, List.append_cons]
    exact handledEvents_mono hother after

/-- The first authorisation writes the row. -/
theorem exists_writes {handled : List ChargeEvent} (h : newestAuthorized handled ≠ none) :
    ∃ merchant, Somewhere (fun before event => Writes before event ∧
      event.merchantId = merchant) handled := by
  induction handled using List.reverseRecOn with
  | nil => exact absurd rfl h
  | append_singleton handled event ih =>
      by_cases hnone : newestAuthorized handled = none
      · rw [newestAuthorized_concat] at h
        split at h
        · next hauthorized =>
            refine ⟨event.merchantId, somewhere_concat.mpr (.inr ⟨(writes_iff _ _).mpr
              ⟨hauthorized, fun last hlast => ?_⟩, rfl⟩)⟩
            rw [hnone] at hlast
            cases hlast
        · exact absurd hnone h
      · obtain ⟨merchant, hsome⟩ := ih hnone
        exact ⟨merchant, somewhere_concat.mpr (.inl hsome)⟩

theorem exists_stamps {handled : List ChargeEvent} (h : CapturedAfterLatest handled) :
    ∃ merchant, Somewhere (fun before event => Stamps before event ∧
      event.merchantId = merchant) handled := by
  obtain ⟨before, event, after, rfl, hcapture, latest, -, hmost, hle⟩ := h
  refine ⟨event.merchantId, before, event, after, rfl, ⟨hcapture, ?_⟩, rfl⟩
  intro other hother hauthorized
  exact le_trans (hmost.2 other (List.mem_append_left _ hother) hauthorized) hle

theorem postedFor_auth (handled : List ChargeEvent) (merchant : String) :
    PostedFor handled .auth merchant ↔
      Somewhere (fun before event => Writes before event ∧ event.merchantId = merchant)
        handled := by
  simp [PostedFor]

theorem postedFor_capture (handled : List ChargeEvent) (merchant : String) :
    PostedFor handled .capture merchant ↔
      Somewhere (fun before event => Stamps before event ∧ event.merchantId = merchant)
        handled := by
  simp [PostedFor]

/-- The charge converges just when a capture that is not older than the latest
authorisation is handled after it, and what is posted names one merchant. -/
theorem chargeConverged_iff
    (delivers : DeliversCharge currencies chargeId events deliveries) :
    ChargeConverged events (ChargeState.consume currencies deliveries) ↔
      ConvergesInOrder (handledEvents currencies deliveries) := by
  have mirrors : Mirrors chargeId (handledEvents currencies deliveries)
      (ChargeState.consume currencies deliveries) :=
    consume_mirrors fun delivery hdelivery =>
      delivers.ofCharge _ (delivers.only delivery hdelivery)
  have hauth := mirrors.booked.length_eq_one_iff .auth
  have hcapture := mirrors.booked.length_eq_one_iff .capture
  simp only [postedFor_auth] at hauth
  simp only [postedFor_capture] at hcapture
  constructor
  · intro law
    obtain ⟨charge, hcharge, hcaptured, -⟩ := law.row
    exact ⟨mirrors.stamped.mp ⟨charge, hcharge, hcaptured⟩, (hauth.mp law.authorized).2,
      (hcapture.mp law.captured).2⟩
  · intro once
    obtain ⟨charge, hcharge, hcaptured⟩ := mirrors.stamped.mpr once.afterLatest
    rcases mirrors.newest with ⟨hnone, -⟩ | ⟨same, last, hsame, hlast, hrow, -⟩
    · rw [hnone] at hcharge
      cases hcharge
    · rw [hcharge, Option.some.injEq] at hsame
      subst hsame
      obtain ⟨hmem, hauthorized⟩ := newestAuthorized_mem hlast
      constructor
      · refine ⟨charge, hcharge, hcaptured, last, (delivers.mem_handledEvents last).mp hmem,
          ⟨hauthorized, fun other hother hauthorized' => ?_⟩, hrow⟩
        exact occurredAt_le_newestAuthorized hlast
          ((delivers.mem_handledEvents other).mpr hother) hauthorized'
      · refine hauth.mpr ⟨exists_writes ?_, once.authorizedFor⟩
        rw [hlast]
        simp
      · exact hcapture.mpr ⟨exists_stamps once.afterLatest, once.capturedFor⟩

end Run

namespace ChargeSample

def authorized (id : String) (occurredAt : Instant) : ChargeEvent where
  id := id
  occurredAt := occurredAt
  livemode := true
  payload := .authorized
    { chargeId := "ch_1"
      merchantId := "mer_1"
      amountMinor := 1000
      currency := "EUR"
      acquirer := "northgate"
      networkTransactionId := none
      processorReference := none
      captureMethod := "automatic"
      captureAtSettlement := false
      reserveBps := some 500
      platformFeeBps := some 200
      platformFeeFixedMinor := none
      authorizedAt := occurredAt }

def captured (id : String) (occurredAt : Instant) : ChargeEvent where
  id := id
  occurredAt := occurredAt
  livemode := true
  payload := .captured
    { chargeId := "ch_1"
      merchantId := "mer_1"
      capturedAmountMinor := 1000
      currency := "EUR"
      capturedAt := occurredAt }

/-- The capture is delivered first and raises; then both authorisations and the
capture are handled, and the first authorisation comes again. -/
def overtaken : List ChargeDelivery :=
  [{ event := captured "evt_3" 3 }, { event := authorized "evt_2" 2 },
   { event := authorized "evt_1" 1, raises := some .integrityError },
   { event := captured "evt_3" 3 }, { event := authorized "evt_1" 1 },
   { event := authorized "evt_1" 1 }]

/-- Authorised, captured and authorised again, delivered in this order. -/
def reauthorized : List ChargeDelivery :=
  [{ event := authorized "evt_1" 1 }, { event := captured "evt_2" 2 },
   { event := authorized "evt_3" 3 }]

theorem delivers_overtaken : DeliversCharge ["EUR"] "ch_1"
    [authorized "evt_1" 1, authorized "evt_2" 2, captured "evt_3" 3] overtaken where
  ofCharge := by decide
  identified := by decide
  authorized := by decide
  captured := by decide
  later := by decide
  only := by decide
  complete := by
    intro event hevent
    simp only [List.mem_cons, List.not_mem_nil, or_false] at hevent
    rcases hevent with rfl | rfl | rfl
    · exact ⟨overtaken.take 4, _, [_], rfl, rfl, _, rfl⟩
    · exact ⟨overtaken.take 1, _, overtaken.drop 2, rfl, rfl, _, rfl⟩
    · exact ⟨overtaken.take 3, _, overtaken.drop 4, rfl, rfl, _, rfl⟩

theorem handledEvents_overtaken : handledEvents ["EUR"] overtaken =
    [authorized "evt_2" 2, captured "evt_3" 3, authorized "evt_1" 1] := by
  decide +kernel

theorem delivers_reauthorized : DeliversCharge ["EUR"] "ch_1"
    [authorized "evt_1" 1, captured "evt_2" 2, authorized "evt_3" 3] reauthorized where
  ofCharge := by decide
  identified := by decide
  authorized := by decide
  captured := by decide
  later := by decide
  only := by decide
  complete := by
    intro event hevent
    simp only [List.mem_cons, List.not_mem_nil, or_false] at hevent
    rcases hevent with rfl | rfl | rfl
    · exact ⟨[], _, reauthorized.drop 1, rfl, rfl, _, rfl⟩
    · exact ⟨reauthorized.take 1, _, reauthorized.drop 2, rfl, rfl, _, rfl⟩
    · exact ⟨reauthorized.take 2, _, [], rfl, rfl, _, rfl⟩

end ChargeSample

open ChargeSample in
theorem chargeConverged_iff_overtaken :
    ChargeConverged [authorized "evt_1" 1, authorized "evt_2" 2, captured "evt_3" 3]
      (ChargeState.consume ["EUR"] overtaken) := by
  refine (chargeConverged_iff delivers_overtaken).mpr ?_
  rw [handledEvents_overtaken]
  have hmerchant (P : List ChargeEvent → ChargeEvent → Prop) (merchant : String)
      (h : Somewhere (fun before event => P before event ∧ event.merchantId = merchant)
        [authorized "evt_2" 2, captured "evt_3" 3, authorized "evt_1" 1]) :
      merchant = "mer_1" := by
    obtain ⟨before, event, after, hsplit, -, rfl⟩ := h
    have hmem : event ∈ [authorized "evt_2" 2, captured "evt_3" 3, authorized "evt_1" 1] := by
      rw [hsplit]
      exact List.mem_append_right _ List.mem_cons_self
    simp only [List.mem_cons, List.not_mem_nil, or_false] at hmem
    rcases hmem with rfl | rfl | rfl <;> rfl
  constructor
  · exact ⟨[authorized "evt_2" 2], captured "evt_3" 3, [authorized "evt_1" 1], rfl, rfl,
      authorized "evt_2" 2, List.mem_singleton_self _, ⟨rfl, by decide⟩, by decide⟩
  · intro merchant merchant' h h'
    rw [hmerchant _ merchant h, hmerchant _ merchant' h']
  · intro merchant merchant' h h'
    rw [hmerchant _ merchant h, hmerchant _ merchant' h']

open ChargeSample in
/-- The second authorisation overwrites `captured_at`: the charge ends as not captured. -/
theorem reauthorized_charge_uncaptured :
    DeliversCharge ["EUR"] "ch_1"
        [authorized "evt_1" 1, captured "evt_2" 2, authorized "evt_3" 3] reauthorized ∧
      ¬ ChargeConverged [authorized "evt_1" 1, captured "evt_2" 2, authorized "evt_3" 3]
        (ChargeState.consume ["EUR"] reauthorized) := by
  refine ⟨delivers_reauthorized, fun law => ?_⟩
  obtain ⟨charge, hcharge, hcaptured, -⟩ := law.row
  have hrow :
      (ChargeState.consume ["EUR"] reauthorized).charge.bind SettlementCharge.capturedAt =
        none := by
    decide +kernel
  rw [hcharge, Option.bind_some] at hrow
  exact hcaptured hrow

end PayzenoLedger
