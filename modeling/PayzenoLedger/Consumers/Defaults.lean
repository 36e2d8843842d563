import PayzenoLedger.Consumers.BankAccounts

/-!
# One default account

When the events of bank accounts all go through, and which account they leave as
the default.  An account is what its newest event says; naming a new default
fails while the old one still is the default.
-/

set_option autoImplicit false

namespace PayzenoLedger

open Library BankAccountState

namespace BankAccountEvent

def account (event : BankAccountEvent) : String :=
  event.payload.bankAccountId

/-- The event names its account the default. -/
def namesDefault (event : BankAccountEvent) : Bool :=
  event.payload.isDefault.getD false

/-- Whose default account, in which currency and livemode. -/
def group (event : BankAccountEvent) : String × String × Bool :=
  (event.payload.merchantId, event.payload.currency, event.livemode)

/-- The newest event of an account among those delivered. -/
def newestOf (account : String) (events : List BankAccountEvent) : Option BankAccountEvent :=
  newest occurredAt (events.filter fun event => event.account = account)

end BankAccountEvent

open BankAccountEvent

/-! ## The law -/

/-- Every event is processed, and at most one account of each merchant, currency and
livemode is the default: the one that the latest event to name a default names. -/
structure OneDefault (events : List BankAccountEvent) : Prop where
  processed : AtEach (fun before event =>
    ∃ state, (consume before).handleMessage event = .ok state) events
  single : ∀ row ∈ (consume events).banks, ∀ other ∈ (consume events).banks,
    row.Rivals other → row.bankAccountId = other.bankAccountId
  named : ∀ row ∈ (consume events).banks, row.isDefault = true →
    ∃ event ∈ events, event.namesDefault = true ∧ event.account = row.bankAccountId ∧
      event.group = (row.merchantId, row.currency, row.livemode) ∧
      ∀ other ∈ events, other.namesDefault = true → other.group = event.group →
        other.occurredAt ≤ event.occurredAt

/-- The event names a default while another account of the same merchant, currency
and livemode is the default by its own newest event. -/
def Rivalled (before : List BankAccountEvent) (event : BankAccountEvent) : Prop :=
  event.namesDefault = true ∧
    (∀ other ∈ before, other.account = event.account → other.occurredAt < event.occurredAt) ∧
    ∃ rival, newestOf rival.account before = some rival ∧ rival.account ≠ event.account ∧
      rival.namesDefault = true ∧ rival.group = event.group

theorem rivalled_iff (before : List BankAccountEvent) (event : BankAccountEvent) :
    Rivalled before event ↔
      event.namesDefault = true ∧
        (∀ other ∈ before, other.account = event.account →
          other.occurredAt < event.occurredAt) ∧
        ∃ rival ∈ before, newestOf rival.account before = some rival ∧
          rival.account ≠ event.account ∧ rival.namesDefault = true ∧
          rival.group = event.group := by
  unfold Rivalled
  constructor
  · rintro ⟨hdefault, hfresh, rival, hnewest, hrest⟩
    exact ⟨hdefault, hfresh, rival, (List.mem_filter.mp (newest_mem hnewest)).1, hnewest, hrest⟩
  · rintro ⟨hdefault, hfresh, rival, -, hnewest, hrest⟩
    exact ⟨hdefault, hfresh, rival, hnewest, hrest⟩

/-- No default is named while another one stands, and an account that is the default
in the end was named so by the latest event that names one. -/
structure Unrivalled (events : List BankAccountEvent) : Prop where
  alone : AtEach (fun before event => ¬ Rivalled before event) events
  latest : ∀ event, newestOf event.account events = some event → event.namesDefault = true →
    ∀ other ∈ events, other.namesDefault = true → other.group = event.group →
      other.occurredAt ≤ event.occurredAt

/-! ## An account is what its newest event says -/

/-- What the events handled so far have left. -/
structure Reflects (events : List BankAccountEvent) (state : BankAccountState) : Prop where
  claimed : ∀ id, id ∈ state.processed ↔ ∃ event ∈ events, event.id = id
  rows : ∀ row, row ∈ state.banks ↔
    ∃ event, newestOf event.account events = some event ∧ event.projection = row
  single : ∀ row ∈ state.banks, ∀ other ∈ state.banks, row.Rivals other →
    row.bankAccountId = other.bankAccountId

theorem newestOf_mem {account : String} {events : List BankAccountEvent}
    {event : BankAccountEvent} (h : newestOf account events = some event) :
    event ∈ events ∧ event.account = account := by
  have hmem := List.mem_filter.mp (newest_mem h)
  exact ⟨hmem.1, of_decide_eq_true hmem.2⟩

theorem newestOf_concat (account : String) (events : List BankAccountEvent)
    (event : BankAccountEvent) :
    newestOf account (events ++ [event]) =
      if event.account = account then newer occurredAt (newestOf account events) event
      else newestOf account events := by
  unfold newestOf
  rw [List.filter_append]
  split
  · next hsame =>
      rw [List.filter_cons_of_pos (by simpa using hsame), List.filter_nil, newest_concat]
  · next hother =>
      rw [List.filter_cons_of_neg (by simpa using hother), List.filter_nil, List.append_nil]

theorem reflects_nil : Reflects [] {} where
  claimed id := by simp
  rows row := by simp [newestOf, newest]
  single row hrow := by cases hrow

section Steps

variable {events : List BankAccountEvent} {state : BankAccountState} {event : BankAccountEvent}

theorem BankAccountProjection.Rivals.symm {row other : BankAccountProjection}
    (h : row.Rivals other) :
    other.Rivals row :=
  ⟨h.2.1, h.1, h.2.2.1.symm, h.2.2.2.1.symm, h.2.2.2.2.symm⟩

theorem rivals_projection {event other : BankAccountEvent} :
    event.projection.Rivals other.projection ↔
      event.namesDefault = true ∧ other.namesDefault = true ∧ other.group = event.group := by
  unfold BankAccountProjection.Rivals namesDefault group BankAccountEvent.projection
  simp only [Prod.mk.injEq]
  constructor
  · rintro ⟨hfirst, hsecond, hmerchant, hcurrency, hlivemode⟩
    exact ⟨hfirst, hsecond, hmerchant.symm, hcurrency.symm, hlivemode.symm⟩
  · rintro ⟨hfirst, hsecond, hmerchant, hcurrency, hlivemode⟩
    exact ⟨hfirst, hsecond, hmerchant.symm, hcurrency.symm, hlivemode.symm⟩

/-- The row of an account is that of its newest event. -/
theorem Reflects.find_row (reflects : Reflects events state) (account : String) :
    (state.banks.find? fun row => row.bankAccountId = account) =
      (newestOf account events).map BankAccountEvent.projection := by
  cases hfind : state.banks.find? fun row => row.bankAccountId = account with
  | none =>
      cases hnewest : newestOf account events with
      | none => rfl
      | some last =>
          obtain ⟨-, rfl⟩ := newestOf_mem hnewest
          have hrow := (reflects.rows last.projection).mpr ⟨last, hnewest, rfl⟩
          have hnot := List.find?_eq_none.mp hfind last.projection hrow
          simp only [decide_eq_true_eq] at hnot
          exact absurd rfl hnot
  | some row =>
      have hid : row.bankAccountId = account := by simpa using List.find?_some hfind
      obtain ⟨last, hlast, rfl⟩ := (reflects.rows row).mp (List.mem_of_find?_eq_some hfind)
      have haccount : last.account = account := hid
      rw [← haccount, hlast]
      rfl

/-- Another account is the default of the same merchant, currency and livemode. -/
theorem Reflects.rival_iff (reflects : Reflects events state) :
    (∃ other ∈ state.banks, other.bankAccountId ≠ event.account ∧
        event.projection.Rivals other) ↔
      event.namesDefault = true ∧ ∃ rival, newestOf rival.account events = some rival ∧
        rival.account ≠ event.account ∧ rival.namesDefault = true ∧
        rival.group = event.group := by
  constructor
  · rintro ⟨other, hother, hne, hrivals⟩
    obtain ⟨rival, hnewest, rfl⟩ := (reflects.rows other).mp hother
    obtain ⟨hdefault, hrival, hgroup⟩ := rivals_projection.mp hrivals
    exact ⟨hdefault, rival, hnewest, hne, hrival, hgroup⟩
  · rintro ⟨hdefault, rival, hnewest, hne, hrival, hgroup⟩
    exact ⟨rival.projection, (reflects.rows _).mpr ⟨rival, hnewest, rfl⟩, hne,
      rivals_projection.mpr ⟨hdefault, hrival, hgroup⟩⟩

/-- The event is the newest of its account. -/
def Fresh (events : List BankAccountEvent) (event : BankAccountEvent) : Prop :=
  ∀ other ∈ events, other.account = event.account → other.occurredAt < event.occurredAt

theorem fresh_iff :
    Fresh events event ↔ ∀ last, newestOf event.account events = some last →
      last.occurredAt < event.occurredAt := by
  constructor
  · intro fresh last hlast
    obtain ⟨hmem, haccount⟩ := newestOf_mem hlast
    exact fresh last hmem haccount
  · intro h other hother haccount
    have hmem : other ∈ events.filter fun other => other.account = event.account :=
      List.mem_filter.mpr ⟨hother, decide_eq_true haccount⟩
    cases hnewest : newestOf event.account events with
    | none =>
        rw [newest_eq_none_iff.mp hnewest] at hmem
        cases hmem
    | some last => exact lt_of_le_of_lt (time_le_newest hnewest hmem) (h last hnewest)

theorem newestOf_fresh (fresh : Fresh events event) :
    newestOf event.account (events ++ [event]) = some event := by
  rw [newestOf_concat, if_pos rfl]
  unfold newer
  cases hnewest : newestOf event.account events with
  | none => rfl
  | some last => exact if_pos (fresh_iff.mp fresh last hnewest)

theorem Reflects.claim (reflects : Reflects events state) (event : BankAccountEvent)
    (id : String) :
    id ∈ state.processed ++ [event.id] ↔ ∃ other ∈ events ++ [event], other.id = id := by
  simp only [List.mem_append, List.mem_singleton, reflects.claimed]
  constructor
  · rintro (⟨other, hother, rfl⟩ | rfl)
    · exact ⟨other, .inl hother, rfl⟩
    · exact ⟨event, .inr rfl, rfl⟩
  · rintro ⟨other, hother | rfl, rfl⟩
    · exact .inl ⟨other, hother, rfl⟩
    · exact .inr rfl

/-- The rows after an event that is the newest of its account and has no rival. -/
theorem Reflects.replace (reflects : Reflects events state) (fresh : Fresh events event)
    {banks : List BankAccountProjection}
    (hbanks : ∀ row, row ∈ banks ↔
      row = event.projection ∨ (row ∈ state.banks ∧ row.bankAccountId ≠ event.account))
    (hrival : ¬ ∃ other ∈ state.banks, other.bankAccountId ≠ event.account ∧
      event.projection.Rivals other) :
    Reflects (events ++ [event]) { banks, processed := state.processed ++ [event.id] } where
  claimed := reflects.claim event
  rows row := by
    rw [hbanks]
    constructor
    · rintro (rfl | ⟨hrow, hne⟩)
      · exact ⟨event, newestOf_fresh fresh, rfl⟩
      · obtain ⟨last, hlast, rfl⟩ := (reflects.rows row).mp hrow
        refine ⟨last, ?_, rfl⟩
        rw [newestOf_concat, if_neg fun h => hne h.symm]
        exact hlast
    · rintro ⟨last, hlast, rfl⟩
      by_cases hsame : event.account = last.account
      · rw [← hsame, newestOf_fresh fresh, Option.some.injEq] at hlast
        exact .inl (by rw [hlast])
      · rw [newestOf_concat, if_neg hsame] at hlast
        exact .inr ⟨(reflects.rows _).mpr ⟨last, hlast, rfl⟩, fun h => hsame h.symm⟩
  single row hrow other hother hrivals := by
    rcases (hbanks row).mp hrow with rfl | ⟨hrow, hne⟩ <;>
      rcases (hbanks other).mp hother with rfl | ⟨hother, hne'⟩
    · rfl
    · exact absurd ⟨other, hother, hne', hrivals⟩ hrival
    · exact absurd ⟨row, hrow, hne, hrivals.symm⟩ hrival
    · exact reflects.single row hrow other hother hrivals

/-- A stale event changes nothing but the claim. -/
theorem Reflects.stale (reflects : Reflects events state) (stale : ¬ Fresh events event) :
    Reflects (events ++ [event])
      { banks := state.banks, processed := state.processed ++ [event.id] } where
  claimed := reflects.claim event
  rows row := by
    have hsame (account : String) :
        newestOf account (events ++ [event]) = newestOf account events := by
      rw [newestOf_concat]
      split
      · next heq =>
          rw [fresh_iff, heq] at stale
          unfold newer
          cases hnewest : newestOf account events with
          | none => exact absurd (fun last hlast => by rw [hnewest] at hlast; cases hlast) stale
          | some last =>
              refine if_neg fun hlt => stale fun other hother => ?_
              rw [hnewest, Option.some.injEq] at hother
              exact hother ▸ hlt
      · rfl
    simp only [hsame]
    exact reflects.rows row
  single := reflects.single

/-- The rows with the account's replaced by that of the event. -/
def Replaces (state : BankAccountState) (event : BankAccountEvent)
    (banks : List BankAccountProjection) : Prop :=
  ∀ row, row ∈ banks ↔
    row = event.projection ∨ (row ∈ state.banks ∧ row.bankAccountId ≠ event.account)

/-- What the upsert makes of an event: stale, refused by the index, or written. -/
theorem Reflects.upsert (reflects : Reflects events state) (event : BankAccountEvent) :
    (¬ Fresh events event ∧
        BankAccountProjectionRepository.upsertIfNewer state.banks event.projection =
          .ok (state.banks, false)) ∨
      (Rivalled events event ∧
        BankAccountProjectionRepository.upsertIfNewer state.banks event.projection =
          .error .integrityError) ∨
      (Fresh events event ∧ ¬ Rivalled events event ∧ ∃ banks, Replaces state event banks ∧
        BankAccountProjectionRepository.upsertIfNewer state.banks event.projection =
          .ok (banks, true)) := by
  have hrival (fresh : Fresh events event) : (∃ other ∈ state.banks,
      other.bankAccountId ≠ event.account ∧ event.projection.Rivals other) ↔
        Rivalled events event := by
    rw [reflects.rival_iff]
    exact ⟨fun h => ⟨h.1, fresh, h.2⟩, fun h => ⟨h.1, h.2.2⟩⟩
  have hfind := reflects.find_row event.account
  unfold BankAccountProjectionRepository.upsertIfNewer
  change (state.banks.find? fun row => row.bankAccountId = event.projection.bankAccountId) = _
    at hfind
  rw [hfind]
  cases hnewest : newestOf event.account events with
  | none =>
      have fresh : Fresh events event := fresh_iff.mpr fun last hlast => by
        rw [hnewest] at hlast
        cases hlast
      have habsent (row : BankAccountProjection) (hrow : row ∈ state.banks) :
          row.bankAccountId ≠ event.account := by
        obtain ⟨last, hlast, rfl⟩ := (reflects.rows row).mp hrow
        intro hsame
        change last.account = event.account at hsame
        rw [hsame, hnewest] at hlast
        cases hlast
      right
      by_cases hrefused : (state.banks.any fun row => event.projection.Rivals row) = true
      · left
        obtain ⟨row, hrow, h⟩ := List.any_eq_true.mp hrefused
        refine ⟨(hrival fresh).mp ⟨row, hrow, habsent row hrow, of_decide_eq_true h⟩, ?_⟩
        simp only [Option.map_none, if_pos hrefused]
      · right
        refine ⟨fresh, fun hrivalled => hrefused ?_, state.banks ++ [event.projection],
          fun row => ?_, ?_⟩
        · obtain ⟨row, hrow, -, h⟩ := (hrival fresh).mpr hrivalled
          exact List.any_eq_true.mpr ⟨row, hrow, decide_eq_true h⟩
        · rw [List.mem_append, List.mem_singleton, or_comm]
          exact or_congr_right ⟨fun h => ⟨h, habsent row h⟩, fun h => h.1⟩
        · simp only [Option.map_none, if_neg hrefused]
  | some last =>
      have hfresh : Fresh events event ↔
          last.projection.sourceOccurredAt < event.projection.sourceOccurredAt := by
        rw [fresh_iff, hnewest]
        exact ⟨fun h => h last rfl, fun h other hother => Option.some.inj hother ▸ h⟩
      by_cases fresh : Fresh events event
      · have hnewer := hfresh.mp fresh
        right
        by_cases hrefused : (state.banks.any fun other =>
            other.bankAccountId ≠ event.projection.bankAccountId ∧
              event.projection.Rivals other) = true
        · left
          obtain ⟨row, hrow, h⟩ := List.any_eq_true.mp hrefused
          refine ⟨(hrival fresh).mp ⟨row, hrow, of_decide_eq_true h⟩, ?_⟩
          simp only [Option.map_some, if_pos hnewer, if_pos hrefused]
        · right
          refine ⟨fresh, fun hrivalled => hrefused ?_, state.banks.map (fun other =>
            if other.bankAccountId = event.projection.bankAccountId then event.projection
            else other), fun row => ?_, ?_⟩
          · obtain ⟨row, hrow, h⟩ := (hrival fresh).mpr hrivalled
            exact List.any_eq_true.mpr ⟨row, hrow, decide_eq_true h⟩
          · rw [List.mem_map]
            constructor
            · rintro ⟨other, hother, rfl⟩
              by_cases hsame : other.bankAccountId = event.projection.bankAccountId
              · exact .inl (if_pos hsame)
              · rw [if_neg hsame]
                exact .inr ⟨hother, hsame⟩
            · rintro (rfl | ⟨hrow, hne⟩)
              · have hlast := (reflects.rows last.projection).mpr
                  ⟨last, (newestOf_mem hnewest).2 ▸ hnewest, rfl⟩
                exact ⟨_, hlast, if_pos (newestOf_mem hnewest).2⟩
              · exact ⟨row, hrow, if_neg hne⟩
          · simp only [Option.map_some, if_pos hnewer, if_neg hrefused]
      · refine .inl ⟨fresh, ?_⟩
        simp only [Option.map_some, if_neg fun h => fresh (hfresh.mpr h)]

/-- The demotion finds no other default: the upsert would have failed on it. -/
theorem Reflects.clear (reflects : Reflects events state) (fresh : Fresh events event)
    (halone : ¬ Rivalled events event) {banks : List BankAccountProjection}
    (hbanks : Replaces state event banks) (hdefault : event.namesDefault = true) :
    BankAccountProjectionRepository.clearOtherDefaults banks event.projection.merchantId
      event.projection.currency event.projection.livemode event.projection.bankAccountId =
        banks := by
  unfold BankAccountProjectionRepository.clearOtherDefaults
  conv_rhs => rw [← List.map_id banks]
  refine List.map_congr_left fun row hrow => if_neg ?_
  rintro ⟨hmerchant, hcurrency, hlivemode, hne, hisDefault⟩
  rcases (hbanks row).mp hrow with rfl | ⟨hrow, -⟩
  · exact hne rfl
  · obtain ⟨-, h⟩ := reflects.rival_iff.mp ⟨row, hrow, hne,
      ⟨hdefault, hisDefault, hmerchant.symm, hcurrency.symm, hlivemode.symm⟩⟩
    exact halone ⟨hdefault, fresh, h⟩

/-- A message goes through just when its event has no rival. -/
theorem Reflects.handleMessage (reflects : Reflects events state)
    (hsame : ∀ other ∈ events, other.id = event.id → other = event) :
    (Rivalled events event ∧ state.handleMessage event = .error .integrityError) ∨
      (¬ Rivalled events event ∧ ∃ state', state.handleMessage event = .ok state' ∧
        Reflects (events ++ [event]) state') := by
  unfold BankAccountState.handleMessage
  by_cases hclaimed : event.id ∈ state.processed
  · obtain ⟨other, hother, hid⟩ := (reflects.claimed event.id).mp hclaimed
    obtain rfl := hsame other hother hid
    have stale : ¬ Fresh events other := fun fresh => lt_irrefl _ (fresh other hother rfl)
    have hafter := reflects.stale stale
    refine .inr ⟨fun h => stale h.2.1, state, if_pos hclaimed, ⟨fun claimed => ?_, hafter.rows,
      hafter.single⟩⟩
    rw [← hafter.claimed, List.mem_append, List.mem_singleton]
    exact ⟨.inl, fun h => h.elim (fun h => h) fun h => h ▸ hclaimed⟩
  · rw [if_neg hclaimed]
    unfold handleBankAccountVerified
    rcases reflects.upsert event with
      ⟨stale, hupsert⟩ | ⟨hrivalled, hupsert⟩ | ⟨fresh, halone, banks, hbanks, hupsert⟩
    · right
      refine ⟨fun h => stale h.2.1, _, ?_, reflects.stale stale⟩
      simp only [hupsert]
      rfl
    · left
      refine ⟨hrivalled, ?_⟩
      simp only [hupsert]
      rfl
    · right
      have hrival : ¬ ∃ other ∈ state.banks, other.bankAccountId ≠ event.account ∧
          event.projection.Rivals other := by
        rw [reflects.rival_iff]
        exact fun h => halone ⟨h.1, fresh, h.2⟩
      refine ⟨halone, _, ?_, reflects.replace fresh hbanks hrival⟩
      simp only [hupsert]
      cases hdefault : event.projection.isDefault with
      | false => simp [bind, Except.bind, pure, Except.pure]
      | true =>
          simp [bind, Except.bind, pure, Except.pure,
            reflects.clear fresh halone hbanks hdefault]

end Steps

/-! ## When the law holds -/

/-- An event is known by its identifier. -/
def Identified (events : List BankAccountEvent) : Prop :=
  ∀ event ∈ events, ∀ other ∈ events, event.id = other.id → event = other

theorem consume_concat (events : List BankAccountEvent) (event : BankAccountEvent) :
    consume (events ++ [event]) =
      match (consume events).handleMessage event with
      | .ok next => next
      | .error _ => consume events := by
  unfold consume
  rw [List.foldl_append]
  rfl

/-- As long as no event has a rival, all of them go through. -/
theorem consume_reflects {events : List BankAccountEvent} (hids : Identified events)
    (halone : AtEach (fun before event => ¬ Rivalled before event) events) :
    Reflects events (consume events) := by
  induction events using List.reverseRecOn with
  | nil => exact reflects_nil
  | append_singleton events event ih =>
      obtain ⟨hbefore, hevent⟩ := atEach_concat.mp halone
      have reflects := ih (fun first hfirst second hsecond =>
        hids first (List.mem_append_left _ hfirst) second (List.mem_append_left _ hsecond))
        hbefore
      have hsame (other : BankAccountEvent) (hother : other ∈ events)
          (hid : other.id = event.id) : other = event :=
        hids other (List.mem_append_left _ hother) event
          (List.mem_append_right _ (List.mem_singleton_self _)) hid
      rcases reflects.handleMessage hsame with ⟨hrivalled, -⟩ | ⟨-, state', hhandled, hafter⟩
      · exact absurd hrivalled hevent
      · rw [consume_concat, hhandled]
        exact hafter

/-- The first event that is not processed is the first one that has a rival. -/
theorem processed_iff {events : List BankAccountEvent} (hids : Identified events) :
    AtEach (fun before event => ∃ state, (consume before).handleMessage event = .ok state)
        events ↔
      AtEach (fun before event => ¬ Rivalled before event) events := by
  induction events using List.reverseRecOn with
  | nil => exact ⟨fun _ => atEach_nil _, fun _ => atEach_nil _⟩
  | append_singleton events event ih =>
      have hids' : Identified events := fun first hfirst second hsecond =>
        hids first (List.mem_append_left _ hfirst) second (List.mem_append_left _ hsecond)
      have hsame (other : BankAccountEvent) (hother : other ∈ events)
          (hid : other.id = event.id) : other = event :=
        hids other (List.mem_append_left _ hother) event
          (List.mem_append_right _ (List.mem_singleton_self _)) hid
      rw [atEach_concat, atEach_concat, ih hids']
      refine and_congr_right fun halone => ?_
      rcases (consume_reflects hids' halone).handleMessage hsame with
        ⟨hrivalled, hfailed⟩ | ⟨halone', state', hhandled, -⟩
      · rw [hfailed]
        constructor
        · rintro ⟨state', h⟩
          cases h
        · intro hfree
          exact absurd hrivalled hfree
      · constructor
        · intro _
          exact halone'
        · intro _
          exact ⟨state', hhandled⟩

/-- Whatever events of whatever accounts are delivered, in whatever order and however
often, all of them are processed and leave the right default exactly when no default
is named while another one stands and the latest naming has the last word. -/
theorem oneDefault_iff {events : List BankAccountEvent} (hids : Identified events) :
    OneDefault events ↔ Unrivalled events := by
  constructor
  · intro law
    have halone := (processed_iff hids).mp law.processed
    have reflects := consume_reflects hids halone
    refine ⟨halone, fun event hnewest hdefault other hother hnames hgroup => ?_⟩
    obtain ⟨named, hnamed, hnames', haccount, hgroup', hlatest⟩ :=
      law.named event.projection ((reflects.rows _).mpr ⟨event, hnewest, rfl⟩) hdefault
    have hsame : named.group = event.group := hgroup'
    have hle := hlatest other hother hnames (hgroup.trans hsame.symm)
    have hmem : named ∈ events.filter fun other => other.account = event.account :=
      List.mem_filter.mpr ⟨hnamed, decide_eq_true haccount⟩
    exact hle.trans (time_le_newest hnewest hmem)
  · intro free
    have reflects := consume_reflects hids free.alone
    refine ⟨(processed_iff hids).mpr free.alone, reflects.single, fun row hrow hdefault => ?_⟩
    obtain ⟨event, hnewest, rfl⟩ := (reflects.rows row).mp hrow
    refine ⟨event, (newestOf_mem hnewest).1, hdefault, rfl, rfl,
      fun other hother hnames hgroup => ?_⟩
    exact free.latest event hnewest hdefault other hother hnames hgroup

/-! ## Two accounts -/

/-- An account in euros that an event names the default. -/
def sampleBankEvent (id account : String) (occurredAt : Instant) (isDefault : Bool) :
    BankAccountEvent where
  id := id
  occurredAt := occurredAt
  livemode := true
  payload :=
    { bankAccountId := account
      merchantId := "mer_1"
      currency := "EUR"
      country := "DE"
      scheme := "iban"
      accountNumberToken := "tok_" ++ account
      routingLastFour := none
      ibanLastFour := some "1111"
      bic := none
      sortCodeLastFour := none
      isDefault := some isDefault }

/-- The first account steps down before the second one is named, and both events
come twice. -/
def sampleHandover : List BankAccountEvent :=
  [sampleBankEvent "evt_1" "ba_1" 1 true, sampleBankEvent "evt_1" "ba_1" 1 true,
   sampleBankEvent "evt_2" "ba_1" 2 false, sampleBankEvent "evt_3" "ba_2" 3 true,
   sampleBankEvent "evt_3" "ba_2" 3 true]

theorem oneDefault_iff_handover :
    OneDefault sampleHandover ∧
      (consume sampleHandover).banks.map (fun row => (row.bankAccountId, row.isDefault)) =
        [("ba_1", false), ("ba_2", true)] := by
  have hids : Identified sampleHandover := by
    unfold Identified
    decide
  refine ⟨(oneDefault_iff hids).mpr ?_, by decide⟩
  constructor
  · simp only [sampleHandover, atEach_cons, rivalled_iff]
    refine ⟨by decide, by decide, by decide, by decide, by decide, atEach_nil _⟩
  · intro event hnewest
    have hmem := (newestOf_mem hnewest).1
    revert hnewest
    revert event
    decide

/-- Naming the second account while the first is the default violates the index: the
event is never processed. -/
theorem second_default_stuck :
    ¬ OneDefault
      [sampleBankEvent "evt_1" "ba_1" 1 true, sampleBankEvent "evt_2" "ba_2" 2 true] := by
  intro law
  obtain ⟨state, hstate⟩ := law.processed [sampleBankEvent "evt_1" "ba_1" 1 true]
    (sampleBankEvent "evt_2" "ba_2" 2 true) [] rfl
  have hfailed : (consume [sampleBankEvent "evt_1" "ba_1" 1 true]).handleMessage
      (sampleBankEvent "evt_2" "ba_2" 2 true) = .error .integrityError := by
    rfl
  rw [hfailed] at hstate
  cases hstate

end PayzenoLedger
