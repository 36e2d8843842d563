import Mathlib.Data.List.Induction
import Mathlib.Data.List.TakeWhile
import PayzenoLedger.Consumers.Merchants

/-!
# Convergence of the merchant projection

What a sequence of deliveries leaves depends on the events that were applied: the
first creation that is handled and, after it, every event that is newer than all
handled since.  The row takes its country and currency from the last creation
applied, its other terms from the last creation or update, and its status from
the last event of all.
-/

set_option autoImplicit false

namespace PayzenoLedger

open Library

namespace MerchantEvent

def isCreated (event : MerchantEvent) : Bool :=
  match event.payload with
  | .created _ => true
  | _ => false

/-- Creations and updates write the terms; a change of status does not. -/
def writesTerms (event : MerchantEvent) : Bool :=
  match event.payload with
  | .statusChanged _ => false
  | _ => true

def status (event : MerchantEvent) : String :=
  match event.payload with
  | .created data => data.status
  | .updated data => data.status
  | .statusChanged data => data.status

/-- The row after an event that is applied to it. -/
def overwrite (row : MerchantProjection) (event : MerchantEvent) : MerchantProjection :=
  match event.payload with
  | .created data => projectionFrom data event.id event.occurredAt event.livemode
  | .updated data => updatedProjection row data event.id event.occurredAt event.livemode
  | .statusChanged data =>
      { row with
        status := data.status
        sourceEventId := event.id
        sourceOccurredAt := event.occurredAt }

theorem overwrite_sourceOccurredAt (row : MerchantProjection) (event : MerchantEvent) :
    (overwrite row event).sourceOccurredAt = event.occurredAt := by
  unfold overwrite
  split <;> rfl

end MerchantEvent

open MerchantEvent

/-- The events from the first creation on. -/
def fromCreation (events : List MerchantEvent) : List MerchantEvent :=
  events.dropWhile fun event => !event.isCreated

/-- The events that pass the freshness guard, of those handled in this order. -/
def applied (events : List MerchantEvent) : List MerchantEvent :=
  records occurredAt (fromCreation events)

/-- The events in the order in which they are first handled. -/
def firstHandled : List String → List Delivery → List MerchantEvent
  | _, [] => []
  | processed, delivery :: deliveries =>
      if delivery.event.id ∈ processed then firstHandled processed deliveries
      else if delivery.raises then firstHandled processed deliveries
      else
        delivery.event :: firstHandled (processed ++ [delivery.event.id]) deliveries

/-- Each event handled once, in this order. -/
def handleAll (events : List MerchantEvent) : Option MerchantProjection :=
  events.foldl handle none

/-! ## What was applied decides the row -/

theorem projection_foldl (state : ConsumerState) (deliveries : List Delivery) :
    (deliveries.foldl handleMessage state).projection =
      (firstHandled state.processed deliveries).foldl handle state.projection := by
  induction deliveries generalizing state with
  | nil => rfl
  | cons delivery deliveries ih =>
      rw [List.foldl_cons, ih]
      by_cases hclaimed : delivery.event.id ∈ state.processed
      · simp only [handleMessage, firstHandled, if_pos hclaimed]
      · by_cases hraises : delivery.raises = true
        · simp only [handleMessage, firstHandled, if_neg hclaimed, if_pos hraises]
        · simp only [handleMessage, firstHandled, if_neg hclaimed, if_neg hraises,
            List.foldl_cons]

theorem projection_consume (deliveries : List Delivery) :
    (consume deliveries).projection = handleAll (firstHandled [] deliveries) :=
  projection_foldl {} deliveries

theorem handle_some (row : MerchantProjection) (event : MerchantEvent) :
    handle (some row) event =
      some (if row.sourceOccurredAt < event.occurredAt then overwrite row event else row) := by
  cases hpayload : event.payload <;>
    by_cases hnewer : row.sourceOccurredAt < event.occurredAt <;>
    simp [handle, overwrite, hpayload, hnewer, handleMerchantCreated, handleMerchantUpdated,
      handleMerchantStatusChanged, MerchantProjectionRepository.upsertIfNewer,
      MerchantProjectionRepository.updateStatusIfNewer, projectionFrom, updatedProjection]

theorem foldl_handle_some (row : MerchantProjection) (events : List MerchantEvent) :
    events.foldl handle (some row) =
      some ((recordsAbove occurredAt row.sourceOccurredAt events).foldl overwrite row) := by
  induction events generalizing row with
  | nil => rfl
  | cons event events ih =>
      rw [List.foldl_cons, handle_some, ih]
      by_cases hnewer : row.sourceOccurredAt < event.occurredAt
      · simp only [recordsAbove, if_pos hnewer, overwrite_sourceOccurredAt, List.foldl_cons]
      · simp only [recordsAbove, if_neg hnewer]

/-- Where the columns of a row come from. -/
def compose (creation terms last : MerchantEvent) (row : MerchantProjection) :
    MerchantProjection :=
  { overwrite (overwrite row creation) terms with
    status := last.status
    sourceEventId := last.id
    sourceOccurredAt := last.occurredAt }

theorem overwrite_created {event : MerchantEvent} (hcreated : event.isCreated = true)
    (row row' : MerchantProjection) : overwrite row event = overwrite row' event := by
  unfold isCreated at hcreated
  unfold overwrite
  split at hcreated
  · next data hdata => rw [hdata]
  · cases hcreated

theorem compose_self {event : MerchantEvent} (hcreated : event.isCreated = true)
    (row : MerchantProjection) : compose event event event row = overwrite row event := by
  unfold isCreated at hcreated
  unfold compose overwrite status
  split at hcreated
  · next data hdata => simp only [hdata, projectionFrom]
  · cases hcreated

theorem overwrite_updated {event : MerchantEvent} {data : MerchantUpdatedPayload}
    (hpayload : event.payload = .updated data) (row : MerchantProjection) :
    overwrite row event =
      updatedProjection row data event.id event.occurredAt event.livemode := by
  unfold overwrite
  rw [hpayload]

/-- An update keeps the country and the currency. -/
theorem overwrite_keeps_origin {creation terms : MerchantEvent}
    (hterms : terms.isCreated = true → terms = creation) (hwrites : terms.writesTerms = true)
    (row : MerchantProjection) :
    (overwrite (overwrite row creation) terms).country =
        (overwrite row creation).country ∧
      (overwrite (overwrite row creation) terms).defaultCurrency =
        (overwrite row creation).defaultCurrency := by
  by_cases hcreated : terms.isCreated = true
  · obtain rfl := hterms hcreated
    rw [overwrite_created hcreated _ row]
    exact ⟨rfl, rfl⟩
  · unfold isCreated at hcreated
    unfold writesTerms at hwrites
    cases hbody : terms.payload with
    | created data => simp [hbody] at hcreated
    | updated data => simp [overwrite, hbody, updatedProjection]
    | statusChanged data => simp [hbody] at hwrites

/-- One more event applied, where the last creation wrote the terms unless a later
update did. -/
theorem overwrite_compose {creation terms : MerchantEvent} (last event : MerchantEvent)
    (row : MerchantProjection) (hterms : terms.isCreated = true → terms = creation)
    (hwrites : terms.writesTerms = true) :
    overwrite (compose creation terms last row) event =
      compose (if event.isCreated then event else creation)
        (if event.writesTerms then event else terms) event row := by
  cases hpayload : event.payload with
  | created data =>
      simp [compose, overwrite, writesTerms, status, hpayload, projectionFrom]
  | statusChanged data =>
      simp [compose, overwrite, isCreated, writesTerms, status, hpayload]
  | updated data =>
      obtain ⟨hcountry, hcurrency⟩ := overwrite_keeps_origin hterms hwrites row
      have hcreated : event.isCreated = false := by simp [isCreated, hpayload]
      have htermsOf : event.writesTerms = true := by simp [writesTerms, hpayload]
      rw [hcreated, htermsOf, if_neg Bool.false_ne_true, if_pos rfl, overwrite_updated hpayload]
      unfold compose
      rw [overwrite_updated hpayload]
      simp [updatedProjection, status, hpayload, hcountry, hcurrency]

/-- The events of a list that decide the columns of a row: its last creation, its
last creation or update, and its last event of all. -/
structure Lasts (events : List MerchantEvent) (creation terms last : MerchantEvent) :
    Prop where
  ofCreation : (events.filter isCreated).getLast? = some creation
  ofTerms : (events.filter writesTerms).getLast? = some terms
  ofLast : events.getLast? = some last
  created : terms.isCreated = true → terms = creation

theorem Lasts.snoc {events : List MerchantEvent} {creation terms last : MerchantEvent}
    (lasts : Lasts events creation terms last) (event : MerchantEvent) :
    Lasts (events ++ [event]) (if event.isCreated then event else creation)
      (if event.writesTerms then event else terms) event := by
  constructor
  · rw [List.filter_append, List.getLast?_append, lasts.ofCreation]
    cases hkind : event.isCreated <;> simp [hkind]
  · rw [List.filter_append, List.getLast?_append, lasts.ofTerms]
    cases hkind : event.writesTerms <;> simp [hkind]
  · exact List.getLast?_concat
  · unfold isCreated writesTerms
    have hcreated := lasts.created
    unfold isCreated at hcreated
    cases hpayload : event.payload with
    | created data => simp
    | updated data => simp [hpayload]
    | statusChanged data => simpa using hcreated

theorem foldl_overwrite {first : MerchantEvent} (hcreated : first.isCreated = true)
    (rest : List MerchantEvent) :
    ∃ creation terms last, Lasts (first :: rest) creation terms last ∧
      ∀ row, rest.foldl overwrite (overwrite row first) =
        compose creation terms last row := by
  have hterms : first.writesTerms = true := by
    unfold isCreated at hcreated
    unfold writesTerms
    split at hcreated
    · next data hdata => rw [hdata]
    · cases hcreated
  induction rest using List.reverseRecOn with
  | nil =>
      refine ⟨first, first, first, ⟨?_, ?_, rfl, fun _ => rfl⟩, fun row =>
        (compose_self hcreated row).symm⟩
      · simp [hcreated]
      · simp [hterms]
  | append_singleton rest event ih =>
      obtain ⟨creation, terms, last, lasts, hfold⟩ := ih
      refine ⟨_, _, event, lasts.snoc event, fun row => ?_⟩
      rw [List.foldl_append, hfold]
      have hwrites := (List.mem_filter.mp (List.mem_of_getLast? lasts.ofTerms)).2
      exact overwrite_compose last event row lasts.created hwrites

theorem handle_none {event : MerchantEvent} (hcreated : event.isCreated = false) :
    handle none event = none := by
  unfold isCreated at hcreated
  unfold handle
  split at hcreated
  · cases hcreated
  · next hother =>
      cases hpayload : event.payload with
      | created data => exact absurd hpayload (hother data)
      | updated data => rfl
      | statusChanged data => rfl

theorem handle_none_created {event : MerchantEvent} (hcreated : event.isCreated = true)
    (row : MerchantProjection) : handle none event = some (overwrite row event) := by
  unfold isCreated at hcreated
  unfold handle overwrite
  split at hcreated
  · next data hdata => rw [hdata]; rfl
  · cases hcreated

theorem handleAll_fromCreation (events : List MerchantEvent) :
    handleAll events = handleAll (fromCreation events) := by
  induction events with
  | nil => rfl
  | cons event events ih =>
      cases hcreated : event.isCreated with
      | true => rw [fromCreation, List.dropWhile_cons_of_neg (by simp [hcreated])]
      | false =>
          rw [fromCreation, List.dropWhile_cons_of_pos (by simp [hcreated])]
          change events.foldl handle (handle none event) = _
          rw [handle_none hcreated]
          exact ih

/-- The row that a sequence of events leaves: none without a creation, else one
made up of the last events applied. -/
theorem handleAll_eq (events : List MerchantEvent) :
    (fromCreation events = [] ∧ handleAll events = none) ∨
      ∃ creation terms last, Lasts (applied events) creation terms last ∧
        ∀ row, handleAll events = some (compose creation terms last row) := by
  cases hfrom : fromCreation events with
  | nil =>
      left
      rw [handleAll_fromCreation, hfrom]
      exact ⟨rfl, rfl⟩
  | cons first rest =>
      right
      have hcreated : first.isCreated = true := by
        have hhead := List.head?_dropWhile_not (fun event => !event.isCreated) events
        unfold fromCreation at hfrom
        rw [hfrom] at hhead
        simpa using hhead
      have happlied : applied events =
          first :: recordsAbove occurredAt first.occurredAt rest := by
        unfold applied
        rw [hfrom]
        rfl
      have hrow (row : MerchantProjection) : handleAll events =
          some ((recordsAbove occurredAt first.occurredAt rest).foldl overwrite
            (overwrite row first)) := by
        rw [handleAll_fromCreation, hfrom]
        change rest.foldl handle (handle none first) = _
        rw [handle_none_created hcreated row, foldl_handle_some, overwrite_sourceOccurredAt]
      obtain ⟨creation, terms, last, lasts, hfold⟩ := foldl_overwrite hcreated
        (recordsAbove occurredAt first.occurredAt rest)
      refine ⟨creation, terms, last, happlied ▸ lasts, fun row => ?_⟩
      rw [hrow row, hfold]

/-! ## When the row converges -/

/-- The columns of a row by the events that write them. -/
inductive ColumnGroup where
  | origin
  | terms
  | stamp
deriving DecidableEq, Repr

namespace ColumnGroup

def writes : ColumnGroup → MerchantEvent → Bool
  | origin, event => event.isCreated
  | terms, event => event.writesTerms
  | stamp, _ => true

/-- The columns of the group; those of the other groups are blank. -/
def columns : ColumnGroup → MerchantProjection → MerchantProjection
  | origin, row =>
      { (default : MerchantProjection) with
        country := row.country
        defaultCurrency := row.defaultCurrency }
  | terms, row =>
      { row with
        country := none
        defaultCurrency := none
        status := default
        sourceEventId := default
        sourceOccurredAt := default }
  | stamp, row =>
      { (default : MerchantProjection) with
        status := row.status
        sourceEventId := row.sourceEventId
        sourceOccurredAt := row.sourceOccurredAt }

/-- What an event says in the columns of the group. -/
def content (group : ColumnGroup) (event : MerchantEvent) : MerchantProjection :=
  group.columns (overwrite default event)

end ColumnGroup

/-- The newest event that writes the group, of those applied when the events are
handled in this order. -/
structure LastApplied (group : ColumnGroup) (events : List MerchantEvent)
    (event : MerchantEvent) : Prop where
  applied : event ∈ applied events
  writes : group.writes event = true
  newest : ∀ other ∈ PayzenoLedger.applied events, group.writes other = true →
    other.occurredAt ≤ event.occurredAt

theorem lastApplied_iff {group : ColumnGroup} {events : List MerchantEvent}
    {event : MerchantEvent} : LastApplied group events event ↔
      ((applied events).filter group.writes).getLast? = some event := by
  have sorted : ((applied events).filter group.writes).Pairwise
      fun a b => a.occurredAt < b.occurredAt := (pairwise_records _).filter _
  constructor
  · intro hlast
    refine getLast?_eq_some_of_newest sorted
      (List.mem_filter.mpr ⟨hlast.applied, hlast.writes⟩) ?_
    intro other hother
    obtain ⟨happlied, hwrites⟩ := List.mem_filter.mp hother
    exact hlast.newest other happlied hwrites
  · intro hlast
    obtain ⟨happlied, hwrites⟩ := List.mem_filter.mp (List.mem_of_getLast? hlast)
    refine ⟨happlied, hwrites, ?_⟩
    intro other hother hother'
    exact time_le_of_getLast? sorted hlast (List.mem_filter.mpr ⟨hother, hother'⟩)

theorem LastApplied.unique {group : ColumnGroup} {events : List MerchantEvent}
    {event event' : MerchantEvent} (hlast : LastApplied group events event)
    (hlast' : LastApplied group events event') : event = event' := by
  rw [lastApplied_iff] at hlast hlast'
  exact Option.some.inj (hlast.symm.trans hlast')

theorem Lasts.lastApplied {events : List MerchantEvent} {creation terms last : MerchantEvent}
    (lasts : Lasts (applied events) creation terms last) :
    LastApplied .origin events creation ∧ LastApplied .terms events terms ∧
      LastApplied .stamp events last := by
  refine ⟨lastApplied_iff.mpr lasts.ofCreation, lastApplied_iff.mpr lasts.ofTerms,
    lastApplied_iff.mpr ?_⟩
  change ((applied events).filter fun _ => true).getLast? = some last
  rw [List.filter_true]
  exact lasts.ofLast

/-- Every group of columns is what its newest event says. -/
theorem Lasts.columns {events : List MerchantEvent} {creation terms last : MerchantEvent}
    (lasts : Lasts events creation terms last) (row : MerchantProjection) :
    ColumnGroup.origin.columns (compose creation terms last row) =
        ColumnGroup.origin.content creation ∧
      ColumnGroup.terms.columns (compose creation terms last row) =
        ColumnGroup.terms.content terms ∧
      ColumnGroup.stamp.columns (compose creation terms last row) =
        ColumnGroup.stamp.content last := by
  obtain ⟨hcreation, hcreated⟩ := List.mem_filter.mp (List.mem_of_getLast? lasts.ofCreation)
  obtain ⟨hterms, hwrites⟩ := List.mem_filter.mp (List.mem_of_getLast? lasts.ofTerms)
  refine ⟨?_, ?_, ?_⟩
  · obtain ⟨hcountry, hcurrency⟩ := overwrite_keeps_origin lasts.created hwrites default
    simp only [ColumnGroup.content, ColumnGroup.columns, compose,
      overwrite_created hcreated row default, hcountry, hcurrency]
  · unfold writesTerms at hwrites
    cases hpayload : terms.payload with
    | created data =>
        simp [ColumnGroup.content, ColumnGroup.columns, compose, overwrite, hpayload]
    | updated data =>
        simp [ColumnGroup.content, ColumnGroup.columns, compose, overwrite, hpayload,
          updatedProjection]
    | statusChanged data => simp [hpayload] at hwrites
  · cases hpayload : last.payload <;>
      simp [ColumnGroup.content, ColumnGroup.columns, compose, overwrite, status, hpayload,
        projectionFrom, updatedProjection]

theorem row_ext {row row' : MerchantProjection}
    (hgroups : ∀ group : ColumnGroup, group.columns row = group.columns row') :
    row = row' := by
  have horigin := hgroups .origin
  have hterms := hgroups .terms
  have hstamp := hgroups .stamp
  cases row
  cases row'
  simp only [ColumnGroup.columns, MerchantProjection.mk.injEq] at horigin hterms hstamp ⊢
  tauto

/-- A finite set of a merchant's events, in the order of their times, and a queue that
delivers all of them, in any order and any number of times. -/
structure Delivers (merchant : String) (events : List MerchantEvent)
    (deliveries : List Delivery) : Prop where
  ofMerchant : ∀ event ∈ events, event.payload.merchantId = merchant
  sorted : events.Pairwise fun a b => a.occurredAt ≤ b.occurredAt
  distinct : (events.map (·.id)).Nodup
  only : ∀ delivery ∈ deliveries, delivery.event ∈ events
  complete : ∀ event ∈ events,
    ∃ delivery ∈ deliveries, delivery.event = event ∧ delivery.raises = false

theorem mem_of_mem_firstHandled {processed : List String} {deliveries : List Delivery}
    {event : MerchantEvent} (hmem : event ∈ firstHandled processed deliveries) :
    ∃ delivery ∈ deliveries, delivery.event = event := by
  induction deliveries generalizing processed with
  | nil => cases hmem
  | cons delivery deliveries ih =>
      have hrest {claimed : List String} (hin : event ∈ firstHandled claimed deliveries) :
          ∃ other ∈ delivery :: deliveries, other.event = event := by
        obtain ⟨other, hother, heq⟩ := ih hin
        exact ⟨other, List.mem_cons_of_mem _ hother, heq⟩
      unfold firstHandled at hmem
      split at hmem
      · exact hrest hmem
      · split at hmem
        · exact hrest hmem
        · rcases List.mem_cons.mp hmem with rfl | hmem
          · exact ⟨delivery, List.mem_cons_self, rfl⟩
          · exact hrest hmem

theorem fromCreation_eq_nil_iff {events : List MerchantEvent} :
    fromCreation events = [] ↔ ∀ event ∈ events, event.isCreated = false := by
  unfold fromCreation
  rw [List.dropWhile_eq_nil_iff]
  simp

/-- The row converges just when, for each group of columns, the last event applied
that writes the group says what the last one in the order of the times says. -/
theorem consume_eq_handleAll_iff {merchant : String} {events : List MerchantEvent}
    {deliveries : List Delivery} (delivers : Delivers merchant events deliveries) :
    (consume deliveries).projection = handleAll events ↔
      ∀ group event, LastApplied group events event →
        ∃ event', LastApplied group (firstHandled [] deliveries) event' ∧
          group.content event' = group.content event := by
  rw [projection_consume]
  rcases handleAll_eq events with ⟨hnone, hrow⟩ | ⟨creation, terms, last, lasts, hrow⟩
  · -- a merchant that was never created has no row in any order
    have hhandled : fromCreation (firstHandled [] deliveries) = [] := by
      rw [fromCreation_eq_nil_iff] at hnone ⊢
      intro event hevent
      obtain ⟨delivery, hdelivery, rfl⟩ := mem_of_mem_firstHandled hevent
      exact hnone _ (delivers.only delivery hdelivery)
    constructor
    · intro _ group event hlast
      have happlied := hlast.applied
      unfold applied at happlied
      rw [hnone] at happlied
      cases happlied
    · intro _
      rw [hrow, handleAll_fromCreation, hhandled]
      rfl
  · obtain ⟨hcreation, hterms, hlast⟩ := lasts.lastApplied
    rcases handleAll_eq (firstHandled [] deliveries) with
      ⟨hnone', hrow'⟩ | ⟨creation', terms', last', lasts', hrow'⟩
    · constructor
      · intro heq
        rw [hrow', hrow default] at heq
        cases heq
      · intro hsame
        obtain ⟨event', hlast', -⟩ := hsame .stamp last hlast
        have happlied := hlast'.applied
        unfold applied at happlied
        rw [hnone'] at happlied
        cases happlied
    · obtain ⟨hcreation', hterms', hlast'⟩ := lasts'.lastApplied
      have horigin := lasts.columns default
      have horigin' := lasts'.columns default
      rw [hrow default, hrow' default, Option.some.injEq]
      constructor
      · intro heq group event hevent
        rw [heq] at horigin'
        cases group with
        | origin =>
            obtain rfl := hcreation.unique hevent
            exact ⟨creation', hcreation', horigin'.1.symm.trans horigin.1⟩
        | terms =>
            obtain rfl := hterms.unique hevent
            exact ⟨terms', hterms', horigin'.2.1.symm.trans horigin.2.1⟩
        | stamp =>
            obtain rfl := hlast.unique hevent
            exact ⟨last', hlast', horigin'.2.2.symm.trans horigin.2.2⟩
      · intro hsame
        apply row_ext
        intro group
        cases group with
        | origin =>
            obtain ⟨event', hevent', hcontent⟩ := hsame .origin creation hcreation
            obtain rfl := hevent'.unique hcreation'
            rw [horigin'.1, horigin.1, hcontent]
        | terms =>
            obtain ⟨event', hevent', hcontent⟩ := hsame .terms terms hterms
            obtain rfl := hevent'.unique hterms'
            rw [horigin'.2.1, horigin.2.1, hcontent]
        | stamp =>
            obtain ⟨event', hevent', hcontent⟩ := hsame .stamp last hlast
            obtain rfl := hevent'.unique hlast'
            rw [horigin'.2.2, horigin.2.2, hcontent]

/-! ## A change of status that overtakes an update -/

namespace MerchantSample

def created : MerchantEvent where
  id := "evt_created"
  occurredAt := 1
  livemode := true
  payload := .created
    { merchantId := "mer_1"
      displayName := "Shop"
      country := "GB"
      defaultCurrency := "gbp"
      status := "active"
      riskTier := "standard"
      reserveBps := none
      reserveHoldDays := none
      pricingModel := none
      platformFeeBps := 20
      platformFeeFixedMinor := 5
      payoutDelayDays := none
      settlementToleranceMinor := none
      captureAtSettlement := none
      payoutSchedule := "daily" }

/-- The update that turns deferred capture on. -/
def updated : MerchantEvent where
  id := "evt_updated"
  occurredAt := 2
  livemode := true
  payload := .updated
    { merchantId := "mer_1"
      displayName := "Shop"
      status := "active"
      riskTier := "standard"
      reserveBps := 0
      reserveHoldDays := 0
      pricingModel := "blended"
      platformFeeBps := 20
      platformFeeFixedMinor := 5
      payoutDelayDays := 2
      settlementToleranceMinor := 100
      captureAtSettlement := true
      payoutSchedule := "daily" }

def statusChanged : MerchantEvent where
  id := "evt_status"
  occurredAt := 3
  livemode := true
  payload := .statusChanged { merchantId := "mer_1", status := "restricted" }

def events : List MerchantEvent := [created, updated, statusChanged]

/-- The change of status arrives before the update. -/
def overtaken : List Delivery :=
  [⟨created, false⟩, ⟨statusChanged, false⟩, ⟨updated, false⟩]

/-- The update is delivered first, before the merchant is known, and its handler
raises; it comes again in time, and the creation comes twice. -/
def redelivered : List Delivery :=
  [⟨updated, true⟩, ⟨created, false⟩, ⟨updated, false⟩, ⟨created, false⟩,
    ⟨statusChanged, false⟩]

theorem delivers_overtaken : Delivers "mer_1" events overtaken := by
  constructor <;> decide

theorem delivers_redelivered : Delivers "mer_1" events redelivered := by
  constructor <;> decide

end MerchantSample

theorem consume_eq_handleAll_iff_redelivered :
    Delivers "mer_1" MerchantSample.events MerchantSample.redelivered ∧
      ∀ group event, LastApplied group MerchantSample.events event →
        ∃ event', LastApplied group (firstHandled [] MerchantSample.redelivered) event' ∧
          group.content event' = group.content event :=
  ⟨MerchantSample.delivers_redelivered,
    (consume_eq_handleAll_iff MerchantSample.delivers_redelivered).mp (by decide)⟩

/-- The update is older than the row by then and is dropped for good: the terms it
carries never reach the row. -/
theorem merchant_projection_diverges :
    Delivers "mer_1" MerchantSample.events MerchantSample.overtaken ∧
      (consume MerchantSample.overtaken).projection ≠ handleAll MerchantSample.events := by
  refine ⟨MerchantSample.delivers_overtaken, ?_⟩
  decide

end PayzenoLedger
