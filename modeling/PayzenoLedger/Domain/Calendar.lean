import PayzenoLedger.Domain.Dates
import PayzenoLedger.Domain.Rules
import PayzenoLedger.Library.Search

/-!
# The banking calendar

Business days per currency and rail, over the rows of `banking_calendar` and the weekday
rule where there is no row.  The arithmetic of the days is that of a bounded search for
the next one.
-/

set_option autoImplicit false

namespace PayzenoLedger

open Library

/-- One row of `banking_calendar`. -/
structure BankingCalendarDayView where
  currency : String
  rail : String
  calendarDate : Date
  isBusinessDay : Bool
deriving DecidableEq, Repr

structure BankingCalendar where
  days : List BankingCalendarDayView := []
deriving DecidableEq, Repr

/-- `_MAX_LOOKAHEAD_DAYS`. -/
def maxLookaheadDays : Nat := 30

namespace BankingCalendar

variable (calendar : BankingCalendar) (currency rail : String)

/-- The row of a day; the last of several replaces the others. -/
def known (day : Date) : Option BankingCalendarDayView :=
  calendar.days.reverse.find? fun view =>
    view.currency = currency ∧ view.rail = rail ∧ view.calendarDate = day

def isBusinessDay (day : Date) : Bool :=
  match calendar.known currency rail day with
  | some view => view.isBusinessDay
  | none => decide (Date.weekday day < 5)

def noBusinessDay (day : Date) : Exception :=
  ruleError .validationError "no business day found within the lookahead window"
    [("from", .text day.isoformat), ("currency", .text currency), ("rail", .text rail),
     ("lookahead_days", .int maxLookaheadDays)]

/-- The candidates in turn, so many of them. -/
def searchBusinessDay (day : Date) : Nat → Date → Except Exception Date
  | 0, _ => .error (noBusinessDay currency rail day)
  | remaining + 1, candidate =>
      if calendar.isBusinessDay currency rail candidate then .ok candidate
      else searchBusinessDay day remaining (candidate + 1)

/-- The first business day on or after this one. -/
def nextBusinessDay (day : Date) : Except Exception Date :=
  calendar.searchBusinessDay currency rail day (maxLookaheadDays + 1) day

/-- The cursor moved on by so many business days. -/
def advanceBusinessDays : Nat → Date → Except Exception Date
  | 0, cursor => .ok cursor
  | count + 1, cursor => do
      let next ← calendar.nextBusinessDay currency rail (cursor + 1)
      advanceBusinessDays count next

def addBusinessDays (day : Date) (count : Int) : Except Exception Date := do
  if count < 0 then
    throw (ruleError .validationError "count must not be negative" [("count", .int count)])
  let cursor ← calendar.nextBusinessDay currency rail day
  calendar.advanceBusinessDays currency rail count.toNat cursor

/-- The business days among so many days from the cursor on. -/
def countBusinessDays : Nat → Date → Nat
  | 0, _ => 0
  | remaining + 1, cursor =>
      (if calendar.isBusinessDay currency rail cursor then 1 else 0) +
        countBusinessDays remaining (cursor + 1)

def businessDaysBetween (start end_ : Date) : Except Exception Nat :=
  if end_ < start then
    .error (ruleError .validationError "end precedes start"
      [("start", .text start.isoformat), ("end", .text end_.isoformat)])
  else .ok (calendar.countBusinessDays currency rail (end_ - start) start)

/-! ## The search -/

variable {calendar currency rail} {day found : Date}

theorem searchBusinessDay_eq (limit : Nat) (candidate : Date) :
    calendar.searchBusinessDay currency rail day limit candidate =
      match firstFrom (calendar.isBusinessDay currency rail) limit candidate with
      | some found => .ok found
      | none => .error (noBusinessDay currency rail day) := by
  induction limit generalizing candidate with
  | zero => rfl
  | succ limit ih =>
      unfold searchBusinessDay firstFrom
      split
      · rfl
      · exact ih (candidate + 1)

theorem nextBusinessDay_eq_ok : calendar.nextBusinessDay currency rail day = .ok found ↔
    firstFrom (calendar.isBusinessDay currency rail) (maxLookaheadDays + 1) day =
      some found := by
  unfold nextBusinessDay
  rw [searchBusinessDay_eq]
  cases firstFrom (calendar.isBusinessDay currency rail) (maxLookaheadDays + 1) day with
  | none => simp
  | some first => simp

theorem nextBusinessDay_eq_error {raised : Exception} :
    calendar.nextBusinessDay currency rail day = .error raised ↔
      raised = noBusinessDay currency rail day ∧
        firstFrom (calendar.isBusinessDay currency rail) (maxLookaheadDays + 1) day =
          none := by
  unfold nextBusinessDay
  rw [searchBusinessDay_eq]
  cases firstFrom (calendar.isBusinessDay currency rail) (maxLookaheadDays + 1) day with
  | none => simp [eq_comm]
  | some first => simp

theorem nextBusinessDay_isLeast (h : calendar.nextBusinessDay currency rail day = .ok found) :
    IsLeast { other | day ≤ other ∧ calendar.isBusinessDay currency rail other = true } found :=
  firstFrom_isLeast (nextBusinessDay_eq_ok.mp h)

/-- A business day is its own next one. -/
theorem nextBusinessDay_self (h : calendar.isBusinessDay currency rail day = true) :
    calendar.nextBusinessDay currency rail day = .ok day :=
  nextBusinessDay_eq_ok.mpr (firstFrom_self (Nat.succ_pos _) h)

theorem nextBusinessDay_mono {day' found' : Date} (hle : day ≤ day')
    (h : calendar.nextBusinessDay currency rail day = .ok found)
    (h' : calendar.nextBusinessDay currency rail day' = .ok found') : found ≤ found' :=
  firstFrom_mono hle (nextBusinessDay_eq_ok.mp h) (nextBusinessDay_eq_ok.mp h')

/-! ## The walk -/

theorem advanceBusinessDays_add (first second : Nat) (cursor : Date) :
    calendar.advanceBusinessDays currency rail (first + second) cursor =
      (calendar.advanceBusinessDays currency rail first cursor).bind
        (calendar.advanceBusinessDays currency rail second) := by
  induction first generalizing cursor with
  | zero =>
      rw [Nat.zero_add]
      rfl
  | succ first ih =>
      rw [show first + 1 + second = first + second + 1 by omega]
      change (calendar.nextBusinessDay currency rail (cursor + 1)).bind _ =
        ((calendar.nextBusinessDay currency rail (cursor + 1)).bind _).bind _
      cases calendar.nextBusinessDay currency rail (cursor + 1) with
      | error raised => rfl
      | ok next => exact ih next

theorem isBusinessDay_of_advance {count : Nat} {cursor : Date}
    (hcursor : calendar.isBusinessDay currency rail cursor = true)
    (h : calendar.advanceBusinessDays currency rail count cursor = .ok found) :
    calendar.isBusinessDay currency rail found = true := by
  induction count generalizing cursor with
  | zero =>
      cases h
      exact hcursor
  | succ count ih =>
      change (calendar.nextBusinessDay currency rail (cursor + 1)).bind _ = _ at h
      cases hnext : calendar.nextBusinessDay currency rail (cursor + 1) with
      | error raised =>
          rw [hnext] at h
          cases h
      | ok next =>
          rw [hnext] at h
          exact ih (nextBusinessDay_isLeast hnext).1.2 h

theorem addBusinessDays_natCast (count : Nat) :
    calendar.addBusinessDays currency rail day count =
      (calendar.nextBusinessDay currency rail day).bind
        (calendar.advanceBusinessDays currency rail count) := by
  unfold addBusinessDays
  rw [if_neg (by omega), Int.toNat_natCast]
  rfl

theorem addBusinessDays_negative {count : Int} (h : count < 0) :
    calendar.addBusinessDays currency rail day count = .error
      (ruleError .validationError "count must not be negative" [("count", .int count)]) := by
  unfold addBusinessDays
  rw [if_pos h]
  rfl

/-- The walk of the calendar is that of the library. -/
theorem walk_eq (count : Nat) (day : Date) :
    (calendar.nextBusinessDay currency rail day).toOption.bind (fun cursor =>
        (calendar.advanceBusinessDays currency rail count cursor).toOption) =
      nthFrom (calendar.isBusinessDay currency rail) (maxLookaheadDays + 1) count day := by
  induction count generalizing day with
  | zero =>
      unfold nthFrom nextBusinessDay
      rw [searchBusinessDay_eq]
      cases firstFrom (calendar.isBusinessDay currency rail) (maxLookaheadDays + 1) day with
      | none => rfl
      | some found => rfl
  | succ count ih =>
      unfold nthFrom
      rw [nextBusinessDay, searchBusinessDay_eq]
      cases firstFrom (calendar.isBusinessDay currency rail) (maxLookaheadDays + 1) day with
      | none => rfl
      | some first =>
          change ((calendar.nextBusinessDay currency rail (first + 1)).bind _).toOption = _
          rw [Option.bind_some, ← ih (first + 1)]
          cases calendar.nextBusinessDay currency rail (first + 1) with
          | error raised => rfl
          | ok next => rfl

theorem addBusinessDays_toOption (count : Nat) :
    (calendar.addBusinessDays currency rail day count).toOption =
      nthFrom (calendar.isBusinessDay currency rail) (maxLookaheadDays + 1) count day := by
  rw [addBusinessDays_natCast, ← walk_eq]
  cases calendar.nextBusinessDay currency rail day with
  | error raised => rfl
  | ok cursor => rfl

theorem addBusinessDays_eq_ok {count : Nat} :
    calendar.addBusinessDays currency rail day count = .ok found ↔
      nthFrom (calendar.isBusinessDay currency rail) (maxLookaheadDays + 1) count day =
        some found := by
  rw [← addBusinessDays_toOption]
  cases calendar.addBusinessDays currency rail day count with
  | error raised => simp [Except.toOption]
  | ok reached => simp [Except.toOption]

theorem addBusinessDays_raises {count : Nat} :
    (∃ raised, calendar.addBusinessDays currency rail day count = .error raised) ↔
      nthFrom (calendar.isBusinessDay currency rail) (maxLookaheadDays + 1) count day =
        none := by
  rw [← addBusinessDays_toOption]
  cases calendar.addBusinessDays currency rail day count with
  | error raised => simp [Except.toOption]
  | ok reached => simp [Except.toOption]

/-- The count over days is the count of the library. -/
theorem countBusinessDays_eq (length : Nat) (cursor : Date) :
    calendar.countBusinessDays currency rail length cursor =
      countFrom (calendar.isBusinessDay currency rail) length cursor := by
  induction length generalizing cursor with
  | zero => rfl
  | succ length ih =>
      unfold countBusinessDays countFrom
      rw [ih]

theorem businessDaysBetween_eq_ok {count : Nat} :
    calendar.businessDaysBetween currency rail day found = .ok count ↔
      day ≤ found ∧ countFrom (calendar.isBusinessDay currency rail) (found - day) day = count := by
  unfold businessDaysBetween
  rw [countBusinessDays_eq]
  split
  · rename_i hbefore
    constructor
    · nofun
    · exact fun h => absurd h.1 (not_le.mpr hbefore)
  · rename_i hafter
    simp [not_lt.mp hafter]

/-- So many business days lie between a business day and the one so many further on. -/
theorem count_advance {count cursor found : Nat}
    (hcursor : calendar.isBusinessDay currency rail cursor = true)
    (h : calendar.advanceBusinessDays currency rail count cursor = .ok found) :
    cursor ≤ found ∧
      countFrom (calendar.isBusinessDay currency rail) (found - cursor) cursor = count := by
  induction count generalizing cursor with
  | zero =>
      cases h
      exact ⟨Nat.le_refl _, by rw [Nat.sub_self]; rfl⟩
  | succ count ih =>
      change (calendar.nextBusinessDay currency rail (cursor + 1)).bind _ = _ at h
      cases hnext : calendar.nextBusinessDay currency rail (cursor + 1) with
      | error raised =>
          rw [hnext] at h
          cases h
      | ok next =>
          rw [hnext] at h
          have hleast := (nextBusinessDay_isLeast hnext).1
          obtain ⟨hle, hcount⟩ := ih hleast.2 h
          have hbefore : cursor + 1 ≤ next := hleast.1
          refine ⟨by omega, ?_⟩
          have hone := countFrom_next hcursor (nextBusinessDay_eq_ok.mp hnext)
          rw [show found - cursor = (next - cursor) + (found - next) by omega,
            countFrom_add, hone, show cursor + (next - cursor) = next by omega, hcount]
          omega

/-! ## The laws -/

/-- The arithmetic of the business days of a rail. -/
structure LawfulBusinessDays (calendar : BankingCalendar) (currency rail : String) : Prop where
  /-- What is returned is the least business day on or after the day, and it is returned
  whenever it lies within the search limit. -/
  next_ok : ∀ day found, calendar.nextBusinessDay currency rail day = .ok found ↔
    IsLeast { other | day ≤ other ∧ calendar.isBusinessDay currency rail other = true } found ∧
      found ≤ day + maxLookaheadDays
  next_error : ∀ day, (∃ raised, calendar.nextBusinessDay currency rail day = .error raised) ↔
    ∀ other, day ≤ other → other ≤ day + maxLookaheadDays →
      calendar.isBusinessDay currency rail other = false
  next_idempotent : ∀ day found, calendar.nextBusinessDay currency rail day = .ok found →
    calendar.nextBusinessDay currency rail found = .ok found
  next_mono : ∀ day day' found found', day ≤ day' →
    calendar.nextBusinessDay currency rail day = .ok found →
    calendar.nextBusinessDay currency rail day' = .ok found' → found ≤ found'
  /-- So many business days are added exactly where every gap up to there is within the
  search limit, and what is returned is the business day with so many before it. -/
  add_ok : ∀ day (count : Nat) found,
    calendar.addBusinessDays currency rail day count = .ok found ↔
      calendar.isBusinessDay currency rail found = true ∧
        calendar.businessDaysBetween currency rail day found = .ok count ∧
        ∀ at_, day ≤ at_ → at_ + maxLookaheadDays < found →
          ∃ other, at_ ≤ other ∧ other ≤ at_ + maxLookaheadDays ∧
            calendar.isBusinessDay currency rail other = true
  /-- Otherwise the walk comes to a gap over the limit before it has counted so many. -/
  add_error : ∀ day (count : Nat),
    (∃ raised, calendar.addBusinessDays currency rail day count = .error raised) ↔
      ∃ at_ before, calendar.businessDaysBetween currency rail day at_ = .ok before ∧
        before ≤ count ∧ ∀ other, at_ ≤ other → other ≤ at_ + maxLookaheadDays →
          calendar.isBusinessDay currency rail other = false
  add_negative : ∀ day (count : Int), count < 0 →
    calendar.addBusinessDays currency rail day count = .error
      (ruleError .validationError "count must not be negative" [("count", .int count)])
  /-- As many days at once or in two goes; also where there are none so far on. -/
  add_add : ∀ day (first second : Nat),
    calendar.addBusinessDays currency rail day ((first + second : Nat) : Int) =
      (calendar.addBusinessDays currency rail day first).bind fun between =>
        calendar.addBusinessDays currency rail between second
  between_add : ∀ day (count : Nat) found, calendar.isBusinessDay currency rail day = true →
    calendar.addBusinessDays currency rail day count = .ok found →
    calendar.businessDaysBetween currency rail day found = .ok count

end BankingCalendar

open BankingCalendar in
theorem businessDays_lawful (calendar : BankingCalendar) (currency rail : String) :
    LawfulBusinessDays calendar currency rail where
  next_ok day found := by
    rw [nextBusinessDay_eq_ok]
    constructor
    · intro h
      have hlimit := (firstFrom_eq_some.mp h).2.1
      exact ⟨firstFrom_isLeast h, Nat.le_of_lt_succ hlimit⟩
    · rintro ⟨hleast, hlimit⟩
      exact firstFrom_of_isLeast hleast (Nat.lt_succ_of_le hlimit)
  next_error day := by
    constructor
    · rintro ⟨raised, hraised⟩ other hle hlimit
      exact firstFrom_eq_none.mp (nextBusinessDay_eq_error.mp hraised).2 other hle
        (Nat.lt_succ_of_le hlimit)
    · intro hnone
      refine ⟨_, nextBusinessDay_eq_error.mpr ⟨rfl, firstFrom_eq_none.mpr ?_⟩⟩
      exact fun other hle hlt => hnone other hle (Nat.le_of_lt_succ hlt)
  next_idempotent day found h := nextBusinessDay_self (nextBusinessDay_isLeast h).1.2
  next_mono day day' found found' hle h h' := nextBusinessDay_mono hle h h'
  add_ok day count found := by
    rw [addBusinessDays_eq_ok, nthFrom_eq_some, businessDaysBetween_eq_ok]
    constructor
    · rintro ⟨hle, hfound, hcount, hgaps⟩
      refine ⟨hfound, ⟨hle, hcount⟩, fun at_ hat hwithin => ?_⟩
      obtain ⟨other, hother, hlt, hp⟩ := hgaps at_ hat hwithin
      exact ⟨other, hother, Nat.le_of_lt_succ hlt, hp⟩
    · rintro ⟨hfound, ⟨hle, hcount⟩, hgaps⟩
      refine ⟨hle, hfound, hcount, fun at_ hat hwithin => ?_⟩
      obtain ⟨other, hother, hlimit, hp⟩ := hgaps at_ hat hwithin
      exact ⟨other, hother, Nat.lt_succ_of_le hlimit, hp⟩
  add_error day count := by
    rw [addBusinessDays_raises, nthFrom_eq_none]
    constructor
    · rintro ⟨at_, hat, hcount, hnone⟩
      exact ⟨at_, _, businessDaysBetween_eq_ok.mpr ⟨hat, rfl⟩, hcount,
        fun other hother hlimit => hnone other hother (Nat.lt_succ_of_le hlimit)⟩
    · rintro ⟨at_, before, hbetween, hbefore, hnone⟩
      obtain ⟨hat, rfl⟩ := businessDaysBetween_eq_ok.mp hbetween
      exact ⟨at_, hat, hbefore, fun other hother hlt =>
        hnone other hother (Nat.le_of_lt_succ hlt)⟩
  add_negative day count h := addBusinessDays_negative h
  add_add day first second := by
    simp only [addBusinessDays_natCast]
    cases hnext : calendar.nextBusinessDay currency rail day with
    | error raised => rfl
    | ok cursor =>
        change calendar.advanceBusinessDays currency rail (first + second) cursor =
          (calendar.advanceBusinessDays currency rail first cursor).bind _
        rw [advanceBusinessDays_add]
        cases hfirst : calendar.advanceBusinessDays currency rail first cursor with
        | error raised => rfl
        | ok between =>
            have hbetween := isBusinessDay_of_advance (nextBusinessDay_isLeast hnext).1.2 hfirst
            change _ = (calendar.nextBusinessDay currency rail between).bind _
            rw [nextBusinessDay_self hbetween]
  between_add day count found hday h := by
    rw [addBusinessDays_natCast, nextBusinessDay_self hday] at h
    obtain ⟨hle, hcount⟩ := count_advance hday h
    exact businessDaysBetween_eq_ok.mpr ⟨hle, hcount⟩

/-- Thanksgiving 2026, a Thursday the rail is closed on. -/
def thanksgiving : BankingCalendar :=
  { days := [{ currency := "USD", rail := "standard_ach", calendarDate := 20783,
               isBusinessDay := false }] }

open BankingCalendar in
/-- From the Wednesday before it, two business days on is the Monday. -/
theorem businessDays_lawful_thanksgiving :
    thanksgiving.addBusinessDays "USD" "standard_ach" 20782 2 = .ok 20787 ∧
      thanksgiving.businessDaysBetween "USD" "standard_ach" 20782 20787 = .ok 2 := by
  have lawful := businessDays_lawful thanksgiving "USD" "standard_ach"
  have hadded : thanksgiving.addBusinessDays "USD" "standard_ach" 20782 (2 : Nat) = .ok 20787 :=
    (lawful.add_ok 20782 2 20787).mpr ⟨by decide, rfl, fun at_ hat hwithin =>
      absurd (Nat.lt_of_le_of_lt (Nat.add_le_add_right hat 30) hwithin) (by decide)⟩
  exact ⟨hadded, lawful.between_add 20782 2 20787 (by decide) hadded⟩

end PayzenoLedger
