import PayzenoLedger.Services.Rails

/-!
# The day that a payout arrives

A submission past the cutoff of its rail rolls to the next business day on or after its own
day.  On a business day that is the day itself, so the cutoff makes no difference there,
and on a closed day the roll overtakes the submissions of the days that follow it.
-/

set_option autoImplicit false

namespace PayzenoLedger

open BankingCalendar

namespace PayoutInitiator

variable (cutoffs : PayoutCutoffs) (calendar : BankingCalendar) (rail : Rail)
  (payout : Payout)

/-- The cutoff that a submission is held to; a credit above the ceiling goes by that of the
standard rail. -/
def cutoffFor : Nat :=
  match rail with
  | .standardAch => cutoffs.ach
  | .sameDayAch =>
      if sameDayLimitMinor < payout.amountMinor then cutoffs.ach else cutoffs.sameDayAch
  | .sepa => cutoffs.sepa
  | .fasterPayments => cutoffs.fasterPayments

/-- Whether the money arrives on a later day than the one it is taken on. -/
def isNextDay : Bool :=
  match rail with
  | .standardAch | .sepa => true
  | .sameDayAch => decide (sameDayLimitMinor < payout.amountMinor)
  | .fasterPayments => false

def arrival (submittedAt : Instant) : Except Exception Date := do
  let day ← rolled calendar rail (cutoffFor cutoffs rail payout) payout submittedAt
  if isNextDay rail payout then
    calendar.nextBusinessDay payout.currency rail.method (day + 1)
  else pure day

/-- The rail is open on this day. -/
def OpenOn (day : Date) : Prop :=
  calendar.isBusinessDay payout.currency rail.method day = true

instance (day : Date) : Decidable (OpenOn calendar rail payout day) :=
  inferInstanceAs (Decidable (_ = true))

variable {cutoffs calendar rail payout}

/-- Every initiator promises the same arrival, where it promises one. -/
theorem arrival_of_initiate {bank : BankAccountProjection} {submittedAt : Instant}
    {result : InitiationResult}
    (h : initiate cutoffs calendar rail payout bank submittedAt = .ok result) :
    arrival cutoffs calendar rail payout submittedAt = .ok result.arrivalEstimate := by
  have hach {rail : Rail}
      (h : initiateAch cutoffs calendar rail payout bank submittedAt = .ok result) :
      (do let day ← rolled calendar rail cutoffs.ach payout submittedAt
          calendar.nextBusinessDay payout.currency rail.method (day + 1)) =
        .ok result.arrivalEstimate := by
    simp only [initiateAch, bind, Except.bind, pure, Except.pure] at h ⊢
    split at h
    · cases h
    · split at h
      · cases h
      · split at h
        · cases h
        · next found hfound =>
            cases h
            exact hfound
  cases rail with
  | standardAch => exact hach h
  | sameDayAch =>
      simp only [initiate, initiateSameDayAch, bind, Except.bind, pure, Except.pure] at h
      split at h
      · cases h
      · by_cases hlimit : sameDayLimitMinor < payout.amountMinor
        · rw [if_pos hlimit] at h
          simp only [arrival, cutoffFor, isNextDay, hlimit, if_true, decide_true]
          exact hach h
        · rw [if_neg hlimit] at h
          simp only [arrival, cutoffFor, isNextDay, hlimit, if_false, decide_false]
          split at h
          · cases h
          · next day hday =>
              cases h
              rw [hday]
              rfl
  | sepa =>
      simp only [initiate, initiateSepa, bind, Except.bind, pure, Except.pure] at h
      simp only [arrival, cutoffFor, isNextDay, bind, Except.bind, if_true]
      split at h
      · cases h
      · split at h
        · cases h
        · split at h
          · cases h
          · split at h
            · cases h
            · split at h
              · cases h
              · next found hfound =>
                  cases h
                  exact hfound
  | fasterPayments =>
      simp only [initiate, initiateFasterPayments, bind, Except.bind, pure, Except.pure] at h
      simp only [arrival, cutoffFor, isNextDay, bind, Except.bind, pure, Except.pure]
      split at h
      · cases h
      · split at h
        · cases h
        · split at h
          · cases h
          · split at h
            · cases h
            · cases h
              rfl

/-- Before the cutoff a submission is taken on its own day, and past it on the next
business day from there on. -/
theorem rolled_cases {cutoff : Nat} {submittedAt : Instant} {day : Date}
    (h : rolled calendar rail cutoff payout submittedAt = .ok day) :
    submittedAt.time < cutoff ∧ day = submittedAt.date ∨
      cutoff ≤ submittedAt.time ∧
        calendar.nextBusinessDay payout.currency rail.method submittedAt.date = .ok day := by
  unfold rolled at h
  split at h
  · next hlate => exact .inr ⟨hlate, h⟩
  · next hearly =>
      cases h
      exact .inl ⟨not_le.mp hearly, rfl⟩

theorem arrival_cases {submittedAt : Instant} {arrives : Date}
    (h : arrival cutoffs calendar rail payout submittedAt = .ok arrives) :
    ∃ day, rolled calendar rail (cutoffFor cutoffs rail payout) payout submittedAt = .ok day ∧
      (isNextDay rail payout = true ∧
          calendar.nextBusinessDay payout.currency rail.method (day + 1) = .ok arrives ∨
        isNextDay rail payout = false ∧ arrives = day) := by
  unfold arrival at h
  cases hday : rolled calendar rail (cutoffFor cutoffs rail payout) payout submittedAt with
  | error raised =>
      rw [hday] at h
      cases h
  | ok day =>
      rw [hday] at h
      refine ⟨day, rfl, ?_⟩
      change (if isNextDay rail payout = true then
        calendar.nextBusinessDay payout.currency rail.method (day + 1) else .ok day) = _ at h
      cases hnext : isNextDay rail payout with
      | true =>
          rw [hnext, if_pos rfl] at h
          exact .inl ⟨rfl, h⟩
      | false =>
          rw [hnext, if_neg Bool.false_ne_true] at h
          cases h
          exact .inr ⟨rfl, rfl⟩

/-! ## What is promised of two submissions -/

section Promise

variable (cutoffs calendar rail payout) (first second : Instant)

/-- Both arrive on business days, the later one not before the earlier, and strictly later
when the cutoff of a business day lies between them. -/
structure RespectsCutoff (arrives arrives' : Date) : Prop where
  firstOpen : OpenOn calendar rail payout arrives
  secondOpen : OpenOn calendar rail payout arrives'
  ordered : arrives ≤ arrives'
  later : first.date = second.date → OpenOn calendar rail payout first.date →
    first.time < cutoffFor cutoffs rail payout → cutoffFor cutoffs rail payout ≤ second.time →
    arrives < arrives'

/-- A rail that promises the day itself is submitted to on business days or past its cutoff,
the two submissions are not on both sides of the cutoff of one business day, and one past
the cutoff of a closed day is not followed, before the rail opens again, by one before the
cutoff. -/
structure WellTimed : Prop where
  firstPromised : isNextDay rail payout = false →
    OpenOn calendar rail payout first.date ∨ cutoffFor cutoffs rail payout ≤ first.time
  secondPromised : isNextDay rail payout = false →
    OpenOn calendar rail payout second.date ∨ cutoffFor cutoffs rail payout ≤ second.time
  notAcross : ¬ (first.date = second.date ∧ OpenOn calendar rail payout first.date ∧
    first.time < cutoffFor cutoffs rail payout ∧ cutoffFor cutoffs rail payout ≤ second.time)
  notOvertaken : cutoffFor cutoffs rail payout ≤ first.time →
    second.time < cutoffFor cutoffs rail payout →
    ∃ day, first.date ≤ day ∧ day ≤ second.date ∧ OpenOn calendar rail payout day

end Promise

variable {first second : Instant}

theorem openOn_next {day found : Date}
    (h : calendar.nextBusinessDay payout.currency rail.method day = .ok found) :
    OpenOn calendar rail payout found :=
  (nextBusinessDay_isLeast h).1.2

theorem next_le {day found other : Date}
    (h : calendar.nextBusinessDay payout.currency rail.method day = .ok found)
    (hle : day ≤ other) (hopen : OpenOn calendar rail payout other) : found ≤ other :=
  (nextBusinessDay_isLeast h).2 ⟨hle, hopen⟩

theorem le_next {day found : Date}
    (h : calendar.nextBusinessDay payout.currency rail.method day = .ok found) : day ≤ found :=
  (nextBusinessDay_isLeast h).1.1

/-- The day that an arrival on the day itself stands for is a business day when the
submission was on one or past the cutoff. -/
theorem openOn_rolled {cutoff : Nat} {submittedAt : Instant} {day : Date}
    (h : rolled calendar rail cutoff payout submittedAt = .ok day) :
    OpenOn calendar rail payout day ↔
      OpenOn calendar rail payout submittedAt.date ∨ cutoff ≤ submittedAt.time := by
  rcases rolled_cases h with ⟨hearly, rfl⟩ | ⟨hlate, hnext⟩
  · constructor
    · exact .inl
    · rintro (hopen | hlate)
      · exact hopen
      · exact absurd hearly (not_lt.mpr hlate)
  · exact ⟨fun _ => .inr hlate, fun _ => openOn_next hnext⟩

/-- Unless the first overtakes it, the second submission is taken no earlier. -/
theorem rolled_mono {cutoff : Nat} {day day' : Date} (hle : first ≤ second)
    (h : rolled calendar rail cutoff payout first = .ok day)
    (h' : rolled calendar rail cutoff payout second = .ok day')
    (hovertaken : cutoff ≤ first.time → second.time < cutoff →
      ∃ day, first.date ≤ day ∧ day ≤ second.date ∧ OpenOn calendar rail payout day) :
    day ≤ day' := by
  have hdates : first.date ≤ second.date := Nat.div_le_div_right hle
  rcases rolled_cases h with ⟨-, rfl⟩ | ⟨hlate, hnext⟩
  · rcases rolled_cases h' with ⟨-, rfl⟩ | ⟨-, hnext'⟩
    · exact hdates
    · exact le_trans hdates (le_next hnext')
  · rcases rolled_cases h' with ⟨hearly, rfl⟩ | ⟨-, hnext'⟩
    · obtain ⟨open_, hafter, hbefore, hopen⟩ := hovertaken hlate hearly
      exact le_trans (next_le hnext hafter hopen) hbefore
    · exact nextBusinessDay_mono hdates hnext hnext'

/-- On a business day the cutoff makes no difference. -/
theorem rolled_open {cutoff : Nat} {submittedAt : Instant} {day : Date}
    (h : rolled calendar rail cutoff payout submittedAt = .ok day)
    (hopen : OpenOn calendar rail payout submittedAt.date) : day = submittedAt.date := by
  rcases rolled_cases h with ⟨-, rfl⟩ | ⟨-, hnext⟩
  · rfl
  · rw [nextBusinessDay_self hopen] at hnext
    exact (Except.ok.inj hnext).symm

end PayoutInitiator

open PayoutInitiator in
/-- Two submissions to a rail respect its cutoff just when they are well timed. -/
theorem arrivals_respect_cutoff_iff {cutoffs : PayoutCutoffs} {calendar : BankingCalendar}
    {rail : Rail} {payout : Payout} {bank : BankAccountProjection} {first second : Instant}
    {result result' : InitiationResult} (hle : first ≤ second)
    (hfirst : initiate cutoffs calendar rail payout bank first = .ok result)
    (hsecond : initiate cutoffs calendar rail payout bank second = .ok result') :
    RespectsCutoff cutoffs calendar rail payout first second result.arrivalEstimate
        result'.arrivalEstimate ↔
      WellTimed cutoffs calendar rail payout first second := by
  obtain ⟨day, hday, harrives⟩ := arrival_cases (arrival_of_initiate hfirst)
  obtain ⟨day', hday', harrives'⟩ := arrival_cases (arrival_of_initiate hsecond)
  generalize result.arrivalEstimate = arrives at harrives ⊢
  generalize result'.arrivalEstimate = arrives' at harrives' ⊢
  constructor
  · intro respects
    refine ⟨fun hsame => ?_, fun hsame => ?_, ?_, fun hlate hearly => ?_⟩
    · rcases harrives with ⟨hnextDay, -⟩ | ⟨-, rfl⟩
      · rw [hsame] at hnextDay
        cases hnextDay
      · exact (openOn_rolled hday).mp respects.firstOpen
    · rcases harrives' with ⟨hnextDay, -⟩ | ⟨-, rfl⟩
      · rw [hsame] at hnextDay
        cases hnextDay
      · exact (openOn_rolled hday').mp respects.secondOpen
    · rintro ⟨hsame, hopen, hearly, hlate⟩
      have hlater := respects.later hsame hopen hearly hlate
      have hboth : day = day' := by
        rw [rolled_open hday hopen, rolled_open hday' (hsame ▸ hopen), hsame]
      subst hboth
      rcases harrives with ⟨hnextDay, hnext⟩ | ⟨hsameDay, rfl⟩
      · rcases harrives' with ⟨-, hnext'⟩ | ⟨hsameDay, -⟩
        · rw [hnext] at hnext'
          cases hnext'
          exact lt_irrefl _ hlater
        · rw [hnextDay] at hsameDay
          cases hsameDay
      · rcases harrives' with ⟨hnextDay, -⟩ | ⟨-, rfl⟩
        · rw [hsameDay] at hnextDay
          cases hnextDay
        · exact lt_irrefl _ hlater
    · by_contra hclosed
      have hnext : calendar.nextBusinessDay payout.currency rail.method first.date = .ok day := by
        rcases rolled_cases hday with ⟨hfirst, -⟩ | ⟨-, hnext⟩
        · exact absurd hfirst (not_lt.mpr hlate)
        · exact hnext
      have hbefore : day' = second.date := by
        rcases rolled_cases hday' with ⟨-, hsame⟩ | ⟨hsecond, -⟩
        · exact hsame
        · exact absurd hearly (not_lt.mpr hsecond)
      have hbehind : day' < day := by
        by_contra hnot
        exact hclosed ⟨day, le_next hnext, hbefore ▸ not_lt.mp hnot, openOn_next hnext⟩
      have hordered := respects.ordered
      rcases harrives with ⟨-, hafter⟩ | ⟨hsameDay, rfl⟩
      · rcases harrives' with ⟨-, hafter'⟩ | ⟨hsameDay, rfl⟩
        · -- The second arrives by the day that the first is taken on.
          have hby := next_le hafter' (Nat.succ_le_of_lt hbehind) (openOn_next hnext)
          exact absurd (le_trans (le_next hafter) (le_trans hordered hby))
            (Nat.not_succ_le_self day)
        · exact absurd (le_trans (Nat.le_succ day) (le_next hafter))
            (not_le.mpr (lt_of_le_of_lt hordered hbehind))
      · rcases harrives' with ⟨hnextDay, -⟩ | ⟨-, rfl⟩
        · rw [hsameDay] at hnextDay
          cases hnextDay
        · exact absurd hordered (not_le.mpr hbehind)
  · intro timed
    have hdays := rolled_mono hle hday hday' timed.notOvertaken
    refine ⟨?_, ?_, ?_, fun hsame hopen hearly hlate => ?_⟩
    · rcases harrives with ⟨-, hnext⟩ | ⟨hsameDay, rfl⟩
      · exact openOn_next hnext
      · exact (openOn_rolled hday).mpr (timed.firstPromised hsameDay)
    · rcases harrives' with ⟨-, hnext⟩ | ⟨hsameDay, rfl⟩
      · exact openOn_next hnext
      · exact (openOn_rolled hday').mpr (timed.secondPromised hsameDay)
    · rcases harrives with ⟨hnextDay, hnext⟩ | ⟨hsameDay, rfl⟩
      · rcases harrives' with ⟨-, hnext'⟩ | ⟨hsameDay, -⟩
        · exact nextBusinessDay_mono (Nat.succ_le_succ hdays) hnext hnext'
        · rw [hnextDay] at hsameDay
          cases hsameDay
      · rcases harrives' with ⟨hnextDay, -⟩ | ⟨-, rfl⟩
        · rw [hsameDay] at hnextDay
          cases hnextDay
        · exact hdays
    · exact absurd ⟨hsame, hopen, hearly, hlate⟩ timed.notAcross

namespace ArrivalSample

def payout : Payout where
  id := "po_01K4A2B3C4D5E6F7G8H9J0KMNP"
  merchantId := "mch_1"
  bankAccountId := "ba_1"
  amountMinor := 10000
  currency := "USD"
  status := .scheduled
  method := "standard_ach"
  availableOn := 20515
  arrivalEstimate := none
  statementDescriptor := "PAYZENO PAYOUT"
  failureCode := none
  failureMessage := none
  ledgerTransactionId := none
  reversalTransactionId := none
  bankReference := none
  sourceAmountMinor := none
  sourceCurrency := none
  fxRate := none
  fxSpreadMinor := none
  initiatedAt := none
  paidAt := none
  failedAt := none
  returnedAt := none
  livemode := true
  createdAt := 0

def bank : BankAccountProjection where
  bankAccountId := "ba_1"
  merchantId := "mch_1"
  currency := "USD"
  country := "US"
  scheme := "ach"
  accountNumberToken := "tok_1"
  routingLastFour := some "0021"
  ibanLastFour := none
  bic := none
  sortCodeLastFour := none
  status := "verified"
  isDefault := true
  livemode := true
  sourceEventId := "evt_1"
  sourceOccurredAt := 0

/-- So many minutes into the day. -/
def submitted (day minutes : Nat) : Instant :=
  day * 86400000000 + minutes * 60000000

/-- What the standard rail answers. -/
def answer (submittedAt : Instant) (arrives : Date) : InitiationResult where
  railReference := PayoutInitiator.buildReference payout
  arrivalEstimate := arrives
  submittedAt := submittedAt

end ArrivalSample

open PayoutInitiator ArrivalSample in
/-- A submission on a Monday morning and one on the Tuesday. -/
theorem mornings_respect_cutoff :
    RespectsCutoff {} {} .standardAch payout (submitted 20514 600) (submitted 20515 600)
      20515 20516 := by
  have hfirst : initiate {} {} .standardAch payout bank (submitted 20514 600) =
      .ok (answer (submitted 20514 600) 20515) := rfl
  have hsecond : initiate {} {} .standardAch payout bank (submitted 20515 600) =
      .ok (answer (submitted 20515 600) 20516) := rfl
  apply (arrivals_respect_cutoff_iff (by decide) hfirst hsecond).mpr
  constructor
  · exact fun hnever => Bool.noConfusion hnever
  · exact fun hnever => Bool.noConfusion hnever
  · exact fun hacross => absurd hacross.1 (by decide)
  · exact fun hlate => absurd hlate (by decide)

open PayoutInitiator ArrivalSample in
/-- On a Tuesday the standard rail promises Wednesday an hour before its cutoff and half an
hour past it. -/
theorem cutoff_ignored : ∃ result result',
    initiate {} {} .standardAch payout bank (submitted 20515 1200) = .ok result ∧
    initiate {} {} .standardAch payout bank (submitted 20515 1290) = .ok result' ∧
    ¬ RespectsCutoff {} {} .standardAch payout (submitted 20515 1200) (submitted 20515 1290)
      result.arrivalEstimate result'.arrivalEstimate := by
  refine ⟨answer (submitted 20515 1200) 20516, answer (submitted 20515 1290) 20516,
    rfl, rfl, fun respects => ?_⟩
  have hlater := respects.later (by decide) (by decide) (by decide) (by decide)
  exact absurd hlater (by decide)

end PayzenoLedger
