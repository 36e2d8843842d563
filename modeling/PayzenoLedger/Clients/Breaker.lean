import Mathlib.Data.List.Induction
import Mathlib.Data.List.TakeDrop
import Mathlib.Logic.Function.Basic
import PayzenoLedger.Errors

/-!
# The circuit breakers

The breaker of one process and the one that the tasks share, as two implementations of
one interface, over sequences of admission checks and outcomes in the order of a clock.
Both are compared with a log of each circuit that keeps every outcome.
-/

set_option autoImplicit false

namespace PayzenoLedger

/-- The settings of a breaker: the deque divides by its length, and Redis refuses a key
that expires at once. -/
structure BreakerSettings where
  thresholdPct : Int
  window : Nat
  resetSeconds : Nat
  window_pos : 0 < window
  resetSeconds_pos : 0 < resetSeconds

namespace BreakerSettings

/-- The open period in microseconds. -/
def reset (settings : BreakerSettings) : Nat :=
  settings.resetSeconds * 1000000

/-- A full window with at least the threshold's share of failures. -/
def Trips (settings : BreakerSettings) (failures length : Nat) : Prop :=
  settings.window ≤ length ∧ settings.thresholdPct ≤ ((failures * 100 / length : Nat) : Int)

instance (settings : BreakerSettings) (failures length : Nat) :
    Decidable (settings.Trips failures length) :=
  inferInstanceAs (Decidable (_ ∧ _))

end BreakerSettings

/-- What `call` asks of an implementation, and what its two keys hold of a circuit. -/
structure CircuitBreaker (β : Type) where
  isOpen : Nat → String → β → Bool × β
  record : Nat → String → Bool → β → β
  bucket : String → β → List Bool
  heldUntil : String → β → Option Nat

/-! ## The in-memory breaker -/

/-- A missing bucket is an empty one; the newest outcome comes first. -/
structure InMemoryCircuitBreaker where
  outcomes : String → List Bool
  openedAt : String → Option Nat

namespace InMemoryCircuitBreaker

variable (settings : BreakerSettings)

def isOpen (now : Nat) (name : String) (breaker : InMemoryCircuitBreaker) :
    Bool × InMemoryCircuitBreaker :=
  match breaker.openedAt name with
  | none => (false, breaker)
  | some opened =>
      if settings.reset ≤ now - opened then
        (false,
          { openedAt := Function.update breaker.openedAt name none
            outcomes := Function.update breaker.outcomes name [] })
      else (true, breaker)

def record (now : Nat) (name : String) (ok : Bool) (breaker : InMemoryCircuitBreaker) :
    InMemoryCircuitBreaker :=
  let bucket := (ok :: breaker.outcomes name).take settings.window
  let outcomes := Function.update breaker.outcomes name bucket
  if settings.Trips (bucket.count false) bucket.length then
    { outcomes, openedAt := Function.update breaker.openedAt name (some now) }
  else { breaker with outcomes }

def circuitBreaker : CircuitBreaker InMemoryCircuitBreaker where
  isOpen := isOpen settings
  record := record settings
  bucket name breaker := breaker.outcomes name
  heldUntil name breaker := (breaker.openedAt name).map (· + settings.reset)

def start : InMemoryCircuitBreaker where
  outcomes _ := []
  openedAt _ := none

end InMemoryCircuitBreaker

/-! ## The Redis breaker -/

/-- The two keys of each circuit: the list of outcomes, and when the `open` marker expires. -/
structure RedisCircuitBreaker where
  outcomes : String → List String
  openUntil : String → Option Nat

namespace RedisCircuitBreaker

variable (settings : BreakerSettings)

/-- `_is_open_remote`; Redis drops the marker once its time to live has passed. -/
def isOpenRemote (now : Nat) (name : String) (breaker : RedisCircuitBreaker) :
    Bool × RedisCircuitBreaker :=
  match breaker.openUntil name with
  | none => (false, breaker)
  | some expiry =>
      if now < expiry then (true, breaker)
      else (false, { breaker with openUntil := Function.update breaker.openUntil name none })

def entry (ok : Bool) : String :=
  if ok then "1" else "0"

/-- `LPUSH`, `LTRIM` and `LRANGE` in one pipeline, then the marker. -/
def record (now : Nat) (name : String) (ok : Bool) (breaker : RedisCircuitBreaker) :
    RedisCircuitBreaker :=
  let kept := (entry ok :: breaker.outcomes name).take settings.window
  let outcomes := Function.update breaker.outcomes name kept
  if settings.Trips (kept.count "0") kept.length then
    { outcomes, openUntil := Function.update breaker.openUntil name (some (now + settings.reset)) }
  else { breaker with outcomes }

def circuitBreaker : CircuitBreaker RedisCircuitBreaker where
  isOpen := isOpenRemote
  record := record settings
  bucket name breaker := (breaker.outcomes name).map (· ≠ "0")
  heldUntil name breaker := breaker.openUntil name

def start : RedisCircuitBreaker where
  outcomes _ := []
  openUntil _ := none

end RedisCircuitBreaker

/-- What reaches a circuit: the check before a call, and the return of a call let through. -/
inductive BreakerEvent where
  | check (name : String) (now : Nat)
  | returned (name : String) (now : Nat) (raised : Option Exception)

namespace BreakerEvent

def now : BreakerEvent → Nat
  | .check _ now => now
  | .returned _ now _ => now

end BreakerEvent

/-- `call` records a result as a success and an `UpstreamError` as a failure; it passes any
other exception on unrecorded. -/
def recorded : Option Exception → Option Bool
  | none => some true
  | some e => if e.isInstance .upstreamError then some false else none

namespace CircuitBreaker

variable {β : Type} (breaker : CircuitBreaker β)

def refuses (now : Nat) (name : String) (state : β) : Bool :=
  (breaker.isOpen now name state).1

def step (state : β) : BreakerEvent → β
  | .check name now => (breaker.isOpen now name state).2
  | .returned name now raised =>
      match recorded raised with
      | none => state
      | some ok => breaker.record now name ok state

/-- The state after a sequence of events. -/
def after (state : β) (events : List BreakerEvent) : β :=
  events.foldl breaker.step state

/-- Which of the checks let their call through. -/
def admissions (state : β) : List BreakerEvent → List Bool
  | [] => []
  | .check name now :: rest =>
      (!breaker.refuses now name state) ::
        admissions (breaker.step state (.check name now)) rest
  | .returned name now raised :: rest =>
      admissions (breaker.step state (.returned name now raised)) rest

/-- The recorded outcome fills a window that reaches the threshold. -/
def Opens (settings : BreakerSettings) (state : β) (name : String) (ok : Bool) : Prop :=
  settings.Trips (((ok :: breaker.bucket name state).take settings.window).count false)
    ((ok :: breaker.bucket name state).take settings.window).length

/-- A check is refused only within the open period of an outcome that filled a window at or
above the threshold, and within such a period every check is. -/
def OpensOnFullWindows (settings : BreakerSettings) (state : β) (events : List BreakerEvent) :
    Prop :=
  (∀ earlier name later rest, events = earlier ++ .check name later :: rest →
    breaker.refuses later name (breaker.after state earlier) = true →
    ∃ before now raised ok during,
      earlier = before ++ .returned name now raised :: during ∧ recorded raised = some ok ∧
      breaker.Opens settings (breaker.after state before) name ok ∧
      later < now + settings.reset) ∧
  ∀ before name now raised ok during later rest,
    events = before ++ .returned name now raised :: (during ++ .check name later :: rest) →
    recorded raised = some ok → breaker.Opens settings (breaker.after state before) name ok →
    later < now + settings.reset →
    breaker.refuses later name (breaker.after state
      (before ++ .returned name now raised :: during)) = true

end CircuitBreaker

/-! ## The log of a circuit -/

/-- A time when the last `window` outcomes of a circuit reached the threshold, and whether
the circuit had recorded as many since it recovered. -/
structure Trip where
  at_ : Nat
  ownWindow : Bool

/-- Every outcome of a circuit, newest first, how many of them it recorded since it
recovered, and its last trip. -/
structure CircuitLog where
  outcomes : List Bool
  sinceRecovery : Nat
  trip : Option Trip

namespace CircuitLog

variable (settings : BreakerSettings)

def start : CircuitLog where
  outcomes := []
  sinceRecovery := 0
  trip := none

/-- A circuit recovers at the first check past the open period of a trip of its own window. -/
def check (now : Nat) (log : CircuitLog) : CircuitLog :=
  match log.trip with
  | some ⟨at_, true⟩ =>
      if at_ + settings.reset ≤ now then { log with sinceRecovery := 0, trip := none } else log
  | _ => log

def record (now : Nat) (ok : Bool) (log : CircuitLog) : CircuitLog :=
  let outcomes := ok :: log.outcomes
  let sinceRecovery := log.sinceRecovery + 1
  let last := outcomes.take settings.window
  if settings.Trips (last.count false) last.length then
    { outcomes, sinceRecovery, trip := some ⟨now, settings.window ≤ sinceRecovery⟩ }
  else { log with outcomes, sinceRecovery }

/-- The last trip still holds the circuit. -/
def Held (now : Nat) (log : CircuitLog) : Prop :=
  ∃ trip, log.trip = some trip ∧ now < trip.at_ + settings.reset

/-- The last trip still holds the circuit, and outcomes from before the recovery made it. -/
def HeldByLeftovers (now : Nat) (log : CircuitLog) : Prop :=
  ∃ at_, log.trip = some ⟨at_, false⟩ ∧ now < at_ + settings.reset

end CircuitLog

/-- The log of every circuit after one more event. -/
def logged (settings : BreakerSettings) (logs : String → CircuitLog) :
    BreakerEvent → String → CircuitLog
  | .check name now => Function.update logs name ((logs name).check settings now)
  | .returned name now raised =>
      match recorded raised with
      | none => logs
      | some ok => Function.update logs name ((logs name).record settings now ok)

/-- No check comes while leftovers of before the recovery hold the circuit. -/
def NoLeftovers (settings : BreakerSettings) (logs : String → CircuitLog) :
    List BreakerEvent → Prop
  | [] => True
  | .check name now :: rest =>
      ¬ (logs name).HeldByLeftovers settings now ∧
        NoLeftovers settings (logged settings logs (.check name now)) rest
  | .returned name now raised :: rest =>
      NoLeftovers settings (logged settings logs (.returned name now raised)) rest

/-! ## Open periods -/

namespace CircuitBreaker

variable {β : Type} {settings : BreakerSettings} {breaker : CircuitBreaker β} {state : β}

/-- A circuit is held until its marker runs out, and only an outcome that opens it sets one. -/
structure Marks (settings : BreakerSettings) (breaker : CircuitBreaker β) : Prop where
  refuses_iff : ∀ now name state, breaker.refuses now name state = true ↔
    ∃ expiry, breaker.heldUntil name state = some expiry ∧ now < expiry
  check_kept : ∀ now name state other expiry, breaker.heldUntil other state = some expiry →
    now < expiry → breaker.heldUntil other (breaker.isOpen now name state).2 = some expiry
  check_from : ∀ now name state other expiry,
    breaker.heldUntil other (breaker.isOpen now name state).2 = some expiry →
    breaker.heldUntil other state = some expiry
  record_opens : ∀ now name ok state, breaker.Opens settings state name ok →
    breaker.heldUntil name (breaker.record now name ok state) = some (now + settings.reset)
  record_kept : ∀ now name ok state other,
    ¬ (other = name ∧ breaker.Opens settings state name ok) →
    breaker.heldUntil other (breaker.record now name ok state) = breaker.heldUntil other state

theorem step_unrecorded {name : String} {now : Nat} {raised : Option Exception}
    (h : recorded raised = none) : breaker.step state (.returned name now raised) = state := by
  unfold step
  simp only [h]

theorem step_recorded {name : String} {now : Nat} {raised : Option Exception} {ok : Bool}
    (h : recorded raised = some ok) :
    breaker.step state (.returned name now raised) = breaker.record now name ok state := by
  unfold step
  simp only [h]

theorem after_append (first second : List BreakerEvent) :
    breaker.after state (first ++ second) = breaker.after (breaker.after state first) second :=
  List.foldl_append

theorem after_concat (events : List BreakerEvent) (event : BreakerEvent) :
    breaker.after state (events ++ [event]) = breaker.step (breaker.after state events) event := by
  rw [after_append]
  rfl

/-- A marker comes from an outcome that opened the circuit. -/
theorem Marks.opened (marks : breaker.Marks settings) {name : String}
    (hstart : breaker.heldUntil name state = none) (events : List BreakerEvent) {expiry : Nat}
    (h : breaker.heldUntil name (breaker.after state events) = some expiry) :
    ∃ before now raised ok during,
      events = before ++ .returned name now raised :: during ∧ recorded raised = some ok ∧
      breaker.Opens settings (breaker.after state before) name ok ∧
      expiry = now + settings.reset := by
  induction events using List.reverseRecOn with
  | nil =>
      rw [show breaker.after state [] = state from rfl, hstart] at h
      cases h
  | append_singleton events event ih =>
      have hearlier (h : breaker.heldUntil name (breaker.after state events) = some expiry) :
          ∃ before now raised ok during,
            events ++ [event] = before ++ .returned name now raised :: during ∧
            recorded raised = some ok ∧
            breaker.Opens settings (breaker.after state before) name ok ∧
            expiry = now + settings.reset := by
        obtain ⟨before, now, raised, ok, during, rfl, hrecorded, hopens, hexpiry⟩ := ih h
        exact ⟨before, now, raised, ok, during ++ [event], by simp, hrecorded, hopens, hexpiry⟩
      rw [after_concat] at h
      cases event with
      | check other now => exact hearlier (marks.check_from now other _ name expiry h)
      | returned other now raised =>
          cases hrecorded : recorded raised with
          | none =>
              rw [step_unrecorded hrecorded] at h
              exact hearlier h
          | some ok =>
              rw [step_recorded hrecorded] at h
              by_cases hopens : name = other ∧
                  breaker.Opens settings (breaker.after state events) other ok
              · obtain ⟨rfl, hopens⟩ := hopens
                rw [marks.record_opens now name ok _ hopens] at h
                cases h
                exact ⟨events, now, raised, ok, [], rfl, hrecorded, hopens, rfl⟩
              · rw [marks.record_kept now other ok _ name hopens] at h
                exact hearlier h

/-- A marker stays, or gives way to a later one, until it runs out. -/
theorem Marks.held (marks : breaker.Marks settings) {name : String} {now later : Nat}
    (hlater : later < now + settings.reset) (during : List BreakerEvent)
    (hduring : ∀ event ∈ during, now ≤ event.now ∧ event.now ≤ later) {expiry : Nat}
    (hexpiry : now + settings.reset ≤ expiry)
    (h : breaker.heldUntil name state = some expiry) :
    ∃ until_, breaker.heldUntil name (breaker.after state during) = some until_ ∧
      now + settings.reset ≤ until_ := by
  induction during generalizing state expiry with
  | nil => exact ⟨expiry, h, hexpiry⟩
  | cons event during ih =>
      obtain ⟨hfrom, hto⟩ := hduring event List.mem_cons_self
      have hrest (event') (hmem : event' ∈ during) := hduring event' (List.mem_cons_of_mem _ hmem)
      change ∃ until_, breaker.heldUntil name (breaker.after (breaker.step state event) during) =
        some until_ ∧ now + settings.reset ≤ until_
      cases event with
      | check other at_ =>
          dsimp only [BreakerEvent.now] at hto
          exact ih hrest hexpiry (marks.check_kept at_ other state name expiry h (by omega))
      | returned other at_ raised =>
          dsimp only [BreakerEvent.now] at hfrom
          cases hrecorded : recorded raised with
          | none =>
              rw [step_unrecorded hrecorded]
              exact ih hrest hexpiry h
          | some ok =>
              rw [step_recorded hrecorded]
              by_cases hopens : name = other ∧ breaker.Opens settings state other ok
              · obtain ⟨rfl, hopens⟩ := hopens
                exact ih hrest (by omega) (marks.record_opens at_ name ok state hopens)
              · refine ih hrest hexpiry ?_
                rw [marks.record_kept at_ other ok state name hopens]
                exact h

theorem Marks.opensOnFullWindows (marks : breaker.Marks settings)
    (hstart : ∀ name, breaker.heldUntil name state = none) {events : List BreakerEvent}
    (hordered : (events.map BreakerEvent.now).Pairwise (· ≤ ·)) :
    breaker.OpensOnFullWindows settings state events := by
  constructor
  · intro earlier name later rest _ hrefused
    obtain ⟨expiry, hheld, hlater⟩ := (marks.refuses_iff _ _ _).mp hrefused
    obtain ⟨before, now, raised, ok, during, hsplit, hrecorded, hopens, rfl⟩ :=
      marks.opened (hstart name) earlier hheld
    exact ⟨before, now, raised, ok, during, hsplit, hrecorded, hopens, hlater⟩
  · rintro before name now raised ok during later rest rfl hrecorded hopens hlater
    rw [marks.refuses_iff]
    have hduring : ∀ event ∈ during, now ≤ event.now ∧ event.now ≤ later := by
      intro event hmem
      rw [List.map_append, List.map_cons, List.map_append, List.map_cons,
        List.pairwise_append, List.pairwise_cons, List.pairwise_append] at hordered
      obtain ⟨-, ⟨hfirst, -, -, hlast⟩, -⟩ := hordered
      have hmapped := List.mem_map_of_mem (f := BreakerEvent.now) hmem
      exact ⟨hfirst _ (List.mem_append_left _ hmapped),
        hlast _ hmapped _ List.mem_cons_self⟩
    rw [after_append]
    have hmarked : breaker.heldUntil name
        (breaker.step (breaker.after state before) (.returned name now raised)) =
        some (now + settings.reset) := by
      rw [step_recorded hrecorded]
      exact marks.record_opens now name ok _ hopens
    obtain ⟨until_, hheld, hkept⟩ := marks.held hlater during hduring (Nat.le_refl _) hmarked
    exact ⟨until_, hheld, by omega⟩

end CircuitBreaker

namespace InMemoryCircuitBreaker

variable {settings : BreakerSettings}

theorem recovered_iff {now opened : Nat} :
    settings.reset ≤ now - opened ↔ opened + settings.reset ≤ now := by
  have hpos : 0 < settings.reset := Nat.mul_pos settings.resetSeconds_pos (by omega)
  omega

section

variable {now opened : Nat} {name other : String} {ok : Bool} {breaker : InMemoryCircuitBreaker}

theorem isOpen_closed (h : breaker.openedAt name = none) :
    breaker.isOpen settings now name = (false, breaker) := by
  unfold isOpen
  rw [h]

theorem isOpen_held (h : breaker.openedAt name = some opened)
    (hheld : now < opened + settings.reset) :
    breaker.isOpen settings now name = (true, breaker) := by
  unfold isOpen
  rw [h]
  exact if_neg (fun hrecovered => absurd (recovered_iff.mp hrecovered) (by omega))

theorem isOpen_recovered (h : breaker.openedAt name = some opened)
    (hrecovered : opened + settings.reset ≤ now) :
    breaker.isOpen settings now name =
      (false,
        { openedAt := Function.update breaker.openedAt name none
          outcomes := Function.update breaker.outcomes name [] }) := by
  unfold isOpen
  rw [h]
  exact if_pos (recovered_iff.mpr hrecovered)

theorem record_outcomes : (breaker.record settings now name ok).outcomes =
    Function.update breaker.outcomes name
      ((ok :: breaker.outcomes name).take settings.window) := by
  unfold record
  dsimp only
  split
  · rfl
  · rfl

theorem record_openedAt : (breaker.record settings now name ok).openedAt =
    if settings.Trips (((ok :: breaker.outcomes name).take settings.window).count false)
        ((ok :: breaker.outcomes name).take settings.window).length then
      Function.update breaker.openedAt name (some now)
    else breaker.openedAt := by
  unfold record
  dsimp only
  split
  · rfl
  · rfl

/-- A check leaves every other circuit alone. -/
theorem isOpen_other (h : other ≠ name) :
    (breaker.isOpen settings now name).2.outcomes other = breaker.outcomes other ∧
      (breaker.isOpen settings now name).2.openedAt other = breaker.openedAt other := by
  cases hopened : breaker.openedAt name with
  | none =>
      rw [isOpen_closed hopened]
      exact ⟨rfl, rfl⟩
  | some opened =>
      by_cases hheld : now < opened + settings.reset
      · rw [isOpen_held hopened hheld]
        exact ⟨rfl, rfl⟩
      · rw [isOpen_recovered hopened (by omega)]
        exact ⟨Function.update_of_ne h _ _, Function.update_of_ne h _ _⟩

theorem record_other (h : other ≠ name) :
    (breaker.record settings now name ok).outcomes other = breaker.outcomes other ∧
      (breaker.record settings now name ok).openedAt other = breaker.openedAt other := by
  rw [record_outcomes, record_openedAt]
  refine ⟨Function.update_of_ne h _ _, ?_⟩
  split
  · exact Function.update_of_ne h _ _
  · rfl

end

theorem marks : (circuitBreaker settings).Marks settings where
  refuses_iff now name state := by
    change (isOpen settings now name state).1 = true ↔
      ∃ expiry, (state.openedAt name).map (· + settings.reset) = some expiry ∧ now < expiry
    cases hopened : state.openedAt name with
    | none =>
        rw [isOpen_closed hopened]
        simp
    | some opened =>
        by_cases hheld : now < opened + settings.reset
        · rw [isOpen_held hopened hheld]
          simpa using hheld
        · rw [isOpen_recovered hopened (by omega)]
          simpa using hheld
  check_kept now name state other expiry h hheld := by
    change ((isOpen settings now name state).2.openedAt other).map (· + settings.reset) = _
    change (state.openedAt other).map (· + settings.reset) = some expiry at h
    by_cases hsame : other = name
    · subst hsame
      obtain ⟨opened, hopened, rfl⟩ := Option.map_eq_some_iff.mp h
      rw [isOpen_held hopened hheld]
      exact h
    · rw [(isOpen_other hsame).2]
      exact h
  check_from now name state other expiry h := by
    change ((isOpen settings now name state).2.openedAt other).map (· + settings.reset) = _ at h
    change (state.openedAt other).map (· + settings.reset) = some expiry
    by_cases hsame : other = name
    · subst hsame
      cases hopened : state.openedAt other with
      | none =>
          rw [isOpen_closed hopened, hopened] at h
          exact h
      | some opened =>
          by_cases hheld : now < opened + settings.reset
          · rw [isOpen_held hopened hheld, hopened] at h
            exact h
          · rw [isOpen_recovered hopened (by omega)] at h
            simp at h
    · rw [(isOpen_other hsame).2] at h
      exact h
  record_opens now name ok state h := by
    change ((record settings now name ok state).openedAt name).map (· + settings.reset) = _
    rw [record_openedAt]
    split
    · simp
    · next hnot => exact absurd h hnot
  record_kept now name ok state other h := by
    change ((record settings now name ok state).openedAt other).map (· + settings.reset) =
      (state.openedAt other).map (· + settings.reset)
    by_cases hsame : other = name
    · rw [record_openedAt]
      split
      · next hopens => exact absurd ⟨hsame, hopens⟩ h
      · rfl
    · rw [(record_other hsame).2]

end InMemoryCircuitBreaker

namespace RedisCircuitBreaker

variable {settings : BreakerSettings}

theorem entry_ne_zero (ok : Bool) : decide (entry ok ≠ "0") = ok := by
  cases ok <;> rfl

theorem count_zero (entries : List String) :
    (entries.map fun entry => decide (entry ≠ "0")).count false = entries.count "0" := by
  induction entries with
  | nil => rfl
  | cons entry entries ih =>
      rw [List.map_cons, List.count_cons, List.count_cons, ih]
      by_cases h : entry = "0" <;> simp [h]

/-- The outcomes that are counted are the ones that the list holds. -/
theorem opens_iff {name : String} {ok : Bool} {state : RedisCircuitBreaker} :
    (circuitBreaker settings).Opens settings state name ok ↔
      settings.Trips (((entry ok :: state.outcomes name).take settings.window).count "0")
        ((entry ok :: state.outcomes name).take settings.window).length := by
  have hbucket : (ok :: (state.outcomes name).map fun entry => decide (entry ≠ "0")) =
      (entry ok :: state.outcomes name).map fun entry => decide (entry ≠ "0") := by
    rw [List.map_cons, entry_ne_zero]
  unfold CircuitBreaker.Opens
  change settings.Trips ((List.take _ (ok :: (state.outcomes name).map _)).count false)
    (List.take _ (ok :: (state.outcomes name).map _)).length ↔ _
  rw [hbucket, ← List.map_take, count_zero, List.length_map]

section

variable {now expiry : Nat} {name other : String} {ok : Bool} {breaker : RedisCircuitBreaker}

theorem isOpenRemote_closed (h : breaker.openUntil name = none) :
    breaker.isOpenRemote now name = (false, breaker) := by
  unfold isOpenRemote
  rw [h]

theorem isOpenRemote_held (h : breaker.openUntil name = some expiry) (hheld : now < expiry) :
    breaker.isOpenRemote now name = (true, breaker) := by
  unfold isOpenRemote
  rw [h]
  exact if_pos hheld

theorem isOpenRemote_gone (h : breaker.openUntil name = some expiry) (hgone : ¬ now < expiry) :
    breaker.isOpenRemote now name =
      (false, { breaker with openUntil := Function.update breaker.openUntil name none }) := by
  unfold isOpenRemote
  rw [h]
  exact if_neg hgone

theorem record_outcomes : (breaker.record settings now name ok).outcomes =
    Function.update breaker.outcomes name
      ((entry ok :: breaker.outcomes name).take settings.window) := by
  unfold record
  dsimp only
  split
  · rfl
  · rfl

theorem record_openUntil : (breaker.record settings now name ok).openUntil =
    if settings.Trips (((entry ok :: breaker.outcomes name).take settings.window).count "0")
        ((entry ok :: breaker.outcomes name).take settings.window).length then
      Function.update breaker.openUntil name (some (now + settings.reset))
    else breaker.openUntil := by
  unfold record
  dsimp only
  split
  · rfl
  · rfl

theorem isOpenRemote_other (h : other ≠ name) :
    (breaker.isOpenRemote now name).2.openUntil other = breaker.openUntil other := by
  cases hopened : breaker.openUntil name with
  | none => rw [isOpenRemote_closed hopened]
  | some expiry =>
      by_cases hheld : now < expiry
      · rw [isOpenRemote_held hopened hheld]
      · rw [isOpenRemote_gone hopened hheld]
        exact Function.update_of_ne h _ _

/-- A check leaves the outcomes where they are. -/
theorem isOpenRemote_outcomes : (breaker.isOpenRemote now name).2.outcomes = breaker.outcomes := by
  cases hopened : breaker.openUntil name with
  | none => rw [isOpenRemote_closed hopened]
  | some expiry =>
      by_cases hheld : now < expiry
      · rw [isOpenRemote_held hopened hheld]
      · rw [isOpenRemote_gone hopened hheld]

theorem record_other (h : other ≠ name) :
    (breaker.record settings now name ok).outcomes other = breaker.outcomes other ∧
      (breaker.record settings now name ok).openUntil other = breaker.openUntil other := by
  rw [record_outcomes, record_openUntil]
  refine ⟨Function.update_of_ne h _ _, ?_⟩
  split
  · exact Function.update_of_ne h _ _
  · rfl

end

theorem marks : (circuitBreaker settings).Marks settings where
  refuses_iff now name state := by
    change (isOpenRemote now name state).1 = true ↔
      ∃ expiry, state.openUntil name = some expiry ∧ now < expiry
    cases hopened : state.openUntil name with
    | none =>
        rw [isOpenRemote_closed hopened]
        simp
    | some expiry =>
        by_cases hheld : now < expiry
        · rw [isOpenRemote_held hopened hheld]
          simpa using hheld
        · rw [isOpenRemote_gone hopened hheld]
          simpa using hheld
  check_kept now name state other expiry h hheld := by
    change (isOpenRemote now name state).2.openUntil other = _
    change state.openUntil other = some expiry at h
    by_cases hsame : other = name
    · subst hsame
      rw [isOpenRemote_held h hheld]
      exact h
    · rw [isOpenRemote_other hsame]
      exact h
  check_from now name state other expiry h := by
    change (isOpenRemote now name state).2.openUntil other = _ at h
    change state.openUntil other = some expiry
    by_cases hsame : other = name
    · subst hsame
      cases hopened : state.openUntil other with
      | none =>
          rw [isOpenRemote_closed hopened, hopened] at h
          exact h
      | some until_ =>
          by_cases hheld : now < until_
          · rw [isOpenRemote_held hopened hheld, hopened] at h
            exact h
          · rw [isOpenRemote_gone hopened hheld] at h
            simp at h
    · rw [isOpenRemote_other hsame] at h
      exact h
  record_opens now name ok state h := by
    change (record settings now name ok state).openUntil name = _
    rw [record_openUntil, if_pos (opens_iff.mp h)]
    exact Function.update_self _ _ _
  record_kept now name ok state other h := by
    change (record settings now name ok state).openUntil other = state.openUntil other
    by_cases hsame : other = name
    · rw [record_openUntil, if_neg (fun hopens => h ⟨hsame, opens_iff.mpr hopens⟩)]
    · exact (record_other hsame).2

end RedisCircuitBreaker

/-- What the in-memory breaker keeps of a circuit's log. -/
structure KeptLocally (settings : BreakerSettings) (log : CircuitLog) (bucket : List Bool)
    (openedAt : Option Nat) : Prop where
  bucket_eq : bucket = (log.outcomes.take log.sinceRecovery).take settings.window
  counted : log.sinceRecovery ≤ log.outcomes.length
  opened_iff : ∀ at_, openedAt = some at_ ↔ log.trip = some ⟨at_, true⟩
  own_full : ∀ at_, log.trip = some ⟨at_, true⟩ → settings.window ≤ log.sinceRecovery

/-- What Redis keeps of a circuit's log, from a time on. -/
structure KeptShared (settings : BreakerSettings) (clock : Nat) (log : CircuitLog)
    (entries : List String) (openUntil : Option Nat) : Prop where
  entries_eq : entries = (log.outcomes.map RedisCircuitBreaker.entry).take settings.window
  held_iff : ∀ now, clock ≤ now →
    ((∃ expiry, openUntil = some expiry ∧ now < expiry) ↔ log.Held settings now)

section

variable {settings : BreakerSettings} {log : CircuitLog} {name : String} {now clock : Nat}

/-- A circuit that its own window did not trip last is left as it is by a check. -/
theorem CircuitLog.check_eq (h : ∀ at_, log.trip = some ⟨at_, true⟩ → now < at_ + settings.reset) :
    log.check settings now = log := by
  unfold CircuitLog.check
  split
  · next at_ htrip =>
      have := h at_ htrip
      rw [if_neg (by omega)]
  · rfl

theorem CircuitLog.check_recovers {at_ : Nat} (htrip : log.trip = some ⟨at_, true⟩)
    (h : at_ + settings.reset ≤ now) :
    log.check settings now = { log with sinceRecovery := 0, trip := none } := by
  unfold CircuitLog.check
  rw [htrip]
  exact if_pos h

theorem CircuitLog.record_eq (ok : Bool) : log.record settings now ok =
    { outcomes := ok :: log.outcomes
      sinceRecovery := log.sinceRecovery + 1
      trip :=
        if settings.Trips (((ok :: log.outcomes).take settings.window).count false)
            ((ok :: log.outcomes).take settings.window).length then
          some ⟨now, settings.window ≤ log.sinceRecovery + 1⟩
        else log.trip } := by
  unfold CircuitLog.record
  dsimp only
  split
  · rfl
  · rfl

theorem KeptLocally.check {breaker : InMemoryCircuitBreaker}
    (kept : KeptLocally settings log (breaker.outcomes name) (breaker.openedAt name)) :
    KeptLocally settings (log.check settings now)
      ((breaker.isOpen settings now name).2.outcomes name)
      ((breaker.isOpen settings now name).2.openedAt name) := by
  cases hopened : breaker.openedAt name with
  | none =>
      rw [InMemoryCircuitBreaker.isOpen_closed hopened, CircuitLog.check_eq]
      · exact kept
      · intro at_ htrip
        have := (kept.opened_iff at_).mpr htrip
        rw [hopened] at this
        cases this
  | some opened =>
      have htrip := (kept.opened_iff opened).mp hopened
      by_cases hheld : now < opened + settings.reset
      · rw [InMemoryCircuitBreaker.isOpen_held hopened hheld, CircuitLog.check_eq]
        · exact kept
        · intro at_ hat
          rw [htrip] at hat
          cases hat
          exact hheld
      · rw [InMemoryCircuitBreaker.isOpen_recovered hopened (by omega),
          CircuitLog.check_recovers htrip (by omega)]
        constructor <;> simp

/-- The bucket is as long as the count since the recovery, up to the window. -/
theorem KeptLocally.record {breaker : InMemoryCircuitBreaker} {ok : Bool}
    (kept : KeptLocally settings log (breaker.outcomes name) (breaker.openedAt name)) :
    KeptLocally settings (log.record settings now ok)
      ((breaker.record settings now name ok).outcomes name)
      ((breaker.record settings now name ok).openedAt name) := by
  have hbucket : (ok :: breaker.outcomes name).take settings.window =
      ((ok :: log.outcomes).take (log.sinceRecovery + 1)).take settings.window := by
    rw [kept.bucket_eq]
    cases hwindow : settings.window with
    | zero => rfl
    | succ more =>
        rw [List.take_succ_cons, List.take_succ_cons, List.take_succ_cons, List.take_take,
          Nat.min_eq_left (Nat.le_succ more)]
  have hcounted := kept.counted
  rw [InMemoryCircuitBreaker.record_outcomes, InMemoryCircuitBreaker.record_openedAt,
    Function.update_self, hbucket, CircuitLog.record_eq]
  by_cases hfull : settings.window ≤ log.sinceRecovery + 1
  · -- The window is this circuit's own, so both read the same outcomes.
    have hsame : ((ok :: log.outcomes).take (log.sinceRecovery + 1)).take settings.window =
        (ok :: log.outcomes).take settings.window := by
      rw [List.take_take, Nat.min_eq_left hfull]
    rw [hsame]
    constructor
    · exact hsame.symm
    · exact Nat.succ_le_succ hcounted
    · intro at_
      split
      · rw [Function.update_self]
        simp [hfull]
      · exact kept.opened_iff at_
    · intro at_ _
      exact hfull
  · have hshort : ¬ settings.Trips
        ((((ok :: log.outcomes).take (log.sinceRecovery + 1)).take settings.window).count false)
        (((ok :: log.outcomes).take (log.sinceRecovery + 1)).take settings.window).length := by
      intro htrips
      have := htrips.1
      rw [List.take_take, List.length_take] at this
      omega
    have hnone (at_) : log.trip ≠ some ⟨at_, true⟩ := by
      intro htrip
      have := kept.own_full at_ htrip
      omega
    have hshared (at_) : (if settings.Trips
        (((ok :: log.outcomes).take settings.window).count false)
        ((ok :: log.outcomes).take settings.window).length then
          some (Trip.mk now (decide (settings.window ≤ log.sinceRecovery + 1)))
        else log.trip) ≠ some ⟨at_, true⟩ := by
      split
      · simp [hfull]
      · exact hnone at_
    rw [if_neg hshort]
    constructor
    · rfl
    · exact Nat.succ_le_succ hcounted
    · intro at_
      rw [kept.opened_iff]
      exact ⟨fun h => absurd h (hnone at_), fun h => absurd h (hshared at_)⟩
    · intro at_ h
      exact absurd h (hshared at_)

theorem KeptShared.mono {entries : List String} {openUntil : Option Nat}
    (kept : KeptShared settings clock log entries openUntil) (h : clock ≤ now) :
    KeptShared settings now log entries openUntil where
  entries_eq := kept.entries_eq
  held_iff later hlater := kept.held_iff later (by omega)

/-- A check past a marker changes nothing about what holds from then on. -/
theorem KeptShared.check {breaker : RedisCircuitBreaker} (h : clock ≤ now)
    (kept : KeptShared settings clock log (breaker.outcomes name) (breaker.openUntil name)) :
    KeptShared settings now (log.check settings now)
      ((breaker.isOpenRemote now name).2.outcomes name)
      ((breaker.isOpenRemote now name).2.openUntil name) := by
  have hmarker (later : Nat) (hlater : now ≤ later) :
      (∃ expiry, (breaker.isOpenRemote now name).2.openUntil name = some expiry ∧
        later < expiry) ↔ ∃ expiry, breaker.openUntil name = some expiry ∧ later < expiry := by
    cases hopened : breaker.openUntil name with
    | none => rw [RedisCircuitBreaker.isOpenRemote_closed hopened, hopened]
    | some expiry =>
        by_cases hheld : now < expiry
        · rw [RedisCircuitBreaker.isOpenRemote_held hopened hheld, hopened]
        · rw [RedisCircuitBreaker.isOpenRemote_gone hopened hheld]
          simp
          omega
  have hlog (later : Nat) (hlater : now ≤ later) :
      (log.check settings now).Held settings later ↔ log.Held settings later := by
    by_cases hrecovers : ∃ at_, log.trip = some ⟨at_, true⟩ ∧ at_ + settings.reset ≤ now
    · obtain ⟨at_, htrip, hpast⟩ := hrecovers
      rw [CircuitLog.check_recovers htrip hpast]
      unfold CircuitLog.Held
      rw [htrip]
      simp
      omega
    · rw [CircuitLog.check_eq]
      intro at_ htrip
      by_contra hpast
      exact hrecovers ⟨at_, htrip, by omega⟩
  have houtcomes : (log.check settings now).outcomes = log.outcomes := by
    unfold CircuitLog.check
    split
    · split
      · rfl
      · rfl
    · rfl
  constructor
  · rw [RedisCircuitBreaker.isOpenRemote_outcomes, houtcomes]
    exact kept.entries_eq
  · intro later hlater
    rw [hmarker later hlater, hlog later hlater]
    exact kept.held_iff later (by omega)

theorem KeptShared.record {breaker : RedisCircuitBreaker} {ok : Bool} (h : clock ≤ now)
    (kept : KeptShared settings clock log (breaker.outcomes name) (breaker.openUntil name)) :
    KeptShared settings now (log.record settings now ok)
      ((breaker.record settings now name ok).outcomes name)
      ((breaker.record settings now name ok).openUntil name) := by
  have hentries : (RedisCircuitBreaker.entry ok :: breaker.outcomes name).take settings.window =
      ((ok :: log.outcomes).map RedisCircuitBreaker.entry).take settings.window := by
    rw [kept.entries_eq]
    cases hwindow : settings.window with
    | zero => rfl
    | succ more =>
        rw [List.map_cons, List.take_succ_cons, List.take_succ_cons, List.take_take,
          Nat.min_eq_left (Nat.le_succ more)]
  have hzeros (outcomes : List Bool) :
      (outcomes.map RedisCircuitBreaker.entry).count "0" = outcomes.count false := by
    rw [← RedisCircuitBreaker.count_zero, List.map_map]
    congr 1
    conv_rhs => rw [← List.map_id outcomes]
    exact List.map_congr_left fun ok _ => RedisCircuitBreaker.entry_ne_zero ok
  rw [RedisCircuitBreaker.record_outcomes, RedisCircuitBreaker.record_openUntil,
    Function.update_self, hentries, ← List.map_take, hzeros, List.length_map,
    CircuitLog.record_eq]
  constructor
  · exact List.map_take
  · intro later hlater
    unfold CircuitLog.Held
    dsimp only
    split
    · rw [Function.update_self]
      simp
    · exact kept.held_iff later (by omega)

/-- Both breakers keep the log of every circuit. -/
structure BothKeep (settings : BreakerSettings) (clock : Nat) (logs : String → CircuitLog)
    (inMemory : InMemoryCircuitBreaker) (redis : RedisCircuitBreaker) : Prop where
  locally : ∀ name,
    KeptLocally settings (logs name) (inMemory.outcomes name) (inMemory.openedAt name)
  shared : ∀ name,
    KeptShared settings clock (logs name) (redis.outcomes name) (redis.openUntil name)

variable {logs : String → CircuitLog} {inMemory : InMemoryCircuitBreaker}
  {redis : RedisCircuitBreaker}

theorem logged_unrecorded {raised : Option Exception} (h : recorded raised = none) :
    logged settings logs (.returned name now raised) = logs := by
  unfold logged
  simp only [h]

theorem logged_recorded {raised : Option Exception} {ok : Bool} (h : recorded raised = some ok) :
    logged settings logs (.returned name now raised) =
      Function.update logs name ((logs name).record settings now ok) := by
  unfold logged
  simp only [h]

theorem bothKeep_start : BothKeep settings 0 (fun _ => .start) .start .start where
  locally name := by constructor <;> simp [CircuitLog.start, InMemoryCircuitBreaker.start]
  shared name := by
    constructor <;> simp [CircuitLog.start, RedisCircuitBreaker.start, CircuitLog.Held]

theorem BothKeep.check (kept : BothKeep settings clock logs inMemory redis) (h : clock ≤ now) :
    BothKeep settings now (logged settings logs (.check name now))
      (inMemory.isOpen settings now name).2 (redis.isOpenRemote now name).2 where
  locally other := by
    change KeptLocally settings (Function.update logs name _ other) _ _
    by_cases hsame : other = name
    · subst hsame
      rw [Function.update_self]
      exact (kept.locally other).check
    · rw [Function.update_of_ne hsame, (InMemoryCircuitBreaker.isOpen_other hsame).1,
        (InMemoryCircuitBreaker.isOpen_other hsame).2]
      exact kept.locally other
  shared other := by
    change KeptShared settings now (Function.update logs name _ other) _ _
    by_cases hsame : other = name
    · subst hsame
      rw [Function.update_self]
      exact (kept.shared other).check h
    · rw [Function.update_of_ne hsame, RedisCircuitBreaker.isOpenRemote_outcomes,
        RedisCircuitBreaker.isOpenRemote_other hsame]
      exact (kept.shared other).mono h

theorem BothKeep.record (kept : BothKeep settings clock logs inMemory redis) (h : clock ≤ now)
    (ok : Bool) :
    BothKeep settings now (Function.update logs name ((logs name).record settings now ok))
      (inMemory.record settings now name ok) (redis.record settings now name ok) where
  locally other := by
    by_cases hsame : other = name
    · subst hsame
      rw [Function.update_self]
      exact (kept.locally other).record
    · rw [Function.update_of_ne hsame, (InMemoryCircuitBreaker.record_other hsame).1,
        (InMemoryCircuitBreaker.record_other hsame).2]
      exact kept.locally other
  shared other := by
    by_cases hsame : other = name
    · subst hsame
      rw [Function.update_self]
      exact (kept.shared other).record h
    · rw [Function.update_of_ne hsame, (RedisCircuitBreaker.record_other hsame).1,
        (RedisCircuitBreaker.record_other hsame).2]
      exact (kept.shared other).mono h

/-- The shared breaker refuses whatever the local one does, and what leftovers hold besides. -/
theorem BothKeep.refuses_eq_iff (kept : BothKeep settings clock logs inMemory redis)
    (h : clock ≤ now) :
    (InMemoryCircuitBreaker.circuitBreaker settings).refuses now name inMemory =
        (RedisCircuitBreaker.circuitBreaker settings).refuses now name redis ↔
      ¬ (logs name).HeldByLeftovers settings now := by
  have hlocal : (InMemoryCircuitBreaker.circuitBreaker settings).refuses now name inMemory = true ↔
      ∃ at_, (logs name).trip = some ⟨at_, true⟩ ∧ now < at_ + settings.reset := by
    rw [InMemoryCircuitBreaker.marks.refuses_iff]
    change (∃ expiry, (inMemory.openedAt name).map (· + settings.reset) = some expiry ∧
      now < expiry) ↔ _
    constructor
    · rintro ⟨expiry, hexpiry, hheld⟩
      obtain ⟨at_, hat, rfl⟩ := Option.map_eq_some_iff.mp hexpiry
      exact ⟨at_, ((kept.locally name).opened_iff at_).mp hat, hheld⟩
    · rintro ⟨at_, htrip, hheld⟩
      rw [((kept.locally name).opened_iff at_).mpr htrip]
      exact ⟨_, rfl, hheld⟩
  have hshared : (RedisCircuitBreaker.circuitBreaker settings).refuses now name redis = true ↔
      (logs name).Held settings now := by
    rw [RedisCircuitBreaker.marks.refuses_iff]
    exact (kept.shared name).held_iff now h
  rw [Bool.eq_iff_iff, hlocal, hshared]
  unfold CircuitLog.HeldByLeftovers CircuitLog.Held
  constructor
  · rintro hsame ⟨at_, htrip, hheld⟩
    obtain ⟨own, hown, -⟩ := hsame.mpr ⟨⟨at_, false⟩, htrip, hheld⟩
    rw [htrip] at hown
    cases hown
  · intro hnone
    constructor
    · rintro ⟨at_, htrip, hheld⟩
      exact ⟨⟨at_, true⟩, htrip, hheld⟩
    · rintro ⟨⟨at_, own⟩, htrip, hheld⟩
      cases own with
      | true => exact ⟨at_, htrip, hheld⟩
      | false => exact absurd ⟨at_, htrip, hheld⟩ hnone

/-- The checks of a run agree as long as no leftovers hold a circuit. -/
theorem BothKeep.admissions_eq_iff (kept : BothKeep settings clock logs inMemory redis)
    {events : List BreakerEvent} (hordered : (events.map BreakerEvent.now).Pairwise (· ≤ ·))
    (hclock : ∀ event ∈ events, clock ≤ event.now) :
    (InMemoryCircuitBreaker.circuitBreaker settings).admissions inMemory events =
        (RedisCircuitBreaker.circuitBreaker settings).admissions redis events ↔
      NoLeftovers settings logs events := by
  induction events generalizing clock logs inMemory redis with
  | nil => exact ⟨fun _ => trivial, fun _ => rfl⟩
  | cons event events ih =>
      rw [List.map_cons, List.pairwise_cons] at hordered
      obtain ⟨hfirst, hrest⟩ := hordered
      have hlater (event') (hmem : event' ∈ events) : event.now ≤ event'.now :=
        hfirst _ (List.mem_map_of_mem hmem)
      have hnow := hclock event List.mem_cons_self
      cases event with
      | check name now =>
          have hkept : BothKeep settings now (logged settings logs (.check name now))
              (inMemory.isOpen settings now name).2 (redis.isOpenRemote now name).2 :=
            kept.check hnow
          have hchecked := ih hkept hrest hlater
          have hagree : _ ↔ ¬ (logs name).HeldByLeftovers settings now :=
            kept.refuses_eq_iff hnow
          unfold CircuitBreaker.admissions NoLeftovers
          rw [List.cons.injEq, Bool.not_inj_iff]
          exact and_congr hagree hchecked
      | returned name now raised =>
          unfold CircuitBreaker.admissions NoLeftovers
          cases hrecorded : recorded raised with
          | none =>
              rw [CircuitBreaker.step_unrecorded hrecorded,
                CircuitBreaker.step_unrecorded hrecorded, logged_unrecorded hrecorded]
              exact ih kept hrest fun event' hmem => hclock event' (List.mem_cons_of_mem _ hmem)
          | some ok =>
              rw [CircuitBreaker.step_recorded hrecorded,
                CircuitBreaker.step_recorded hrecorded, logged_recorded hrecorded]
              exact ih (kept.record hnow ok) hrest hlater

/-- The two breakers open on full windows, and let the same calls through exactly when no
check comes while outcomes of before a recovery hold its circuit. -/
theorem breakers_agree_iff {events : List BreakerEvent}
    (hordered : (events.map BreakerEvent.now).Pairwise (· ≤ ·)) :
    ((InMemoryCircuitBreaker.circuitBreaker settings).admissions .start events =
        (RedisCircuitBreaker.circuitBreaker settings).admissions .start events ∧
      (InMemoryCircuitBreaker.circuitBreaker settings).OpensOnFullWindows settings .start events ∧
      (RedisCircuitBreaker.circuitBreaker settings).OpensOnFullWindows settings .start events) ↔
    NoLeftovers settings (fun _ => .start) events := by
  rw [bothKeep_start.admissions_eq_iff hordered fun _ _ => Nat.zero_le _]
  refine ⟨fun h => h.1, fun h => ⟨h, ?_, ?_⟩⟩
  · exact InMemoryCircuitBreaker.marks.opensOnFullWindows (fun _ => rfl) hordered
  · exact RedisCircuitBreaker.marks.opensOnFullWindows (fun _ => rfl) hordered

end

/-- Two outcomes, half of them failures, half a minute. -/
def sampleBreaker : BreakerSettings where
  thresholdPct := 50
  window := 2
  resetSeconds := 30
  window_pos := by decide
  resetSeconds_pos := by decide

def sampleFailure : Option Exception :=
  some (ledgerError .processorUnavailableError "acquirer returned 504")

/-- Two calls that fail open their circuit, checked once while it is and once after. -/
def sampleTrip : List BreakerEvent :=
  [.check "worldflow:capture_deferred" 0, .check "worldflow:capture_deferred" 0,
    .returned "worldflow:capture_deferred" 1 sampleFailure,
    .returned "worldflow:capture_deferred" 2 sampleFailure,
    .check "worldflow:capture_deferred" 20000000, .check "worldflow:capture_deferred" 40000000]

theorem breakers_agree_trip :
    (InMemoryCircuitBreaker.circuitBreaker sampleBreaker).admissions .start sampleTrip =
      [true, true, false, true] ∧
    (RedisCircuitBreaker.circuitBreaker sampleBreaker).admissions .start sampleTrip =
      [true, true, false, true] := by
  have hordered : (sampleTrip.map BreakerEvent.now).Pairwise (· ≤ ·) := by decide
  have hclear : NoLeftovers sampleBreaker (fun _ => .start) sampleTrip := by
    refine ⟨?_, ?_, ?_, ?_, trivial⟩
    · rintro ⟨at_, htrip, -⟩
      cases htrip
    · rintro ⟨at_, htrip, -⟩
      cases htrip
    · rintro ⟨at_, htrip, -⟩
      cases htrip
    · rintro ⟨at_, htrip, -⟩
      cases htrip
  obtain ⟨hsame, -, -⟩ := (breakers_agree_iff hordered).mpr hclear
  have hlocal : (InMemoryCircuitBreaker.circuitBreaker sampleBreaker).admissions .start
      sampleTrip = [true, true, false, true] := by decide
  exact ⟨hlocal, hsame ▸ hlocal⟩

/-- The circuit recovers and a call succeeds, which opens the shared breaker again: its list
still holds a failure of before. -/
theorem breakers_disagree :
    (InMemoryCircuitBreaker.circuitBreaker sampleBreaker).admissions .start
        (sampleTrip ++ [.returned "worldflow:capture_deferred" 40000001 none,
          .check "worldflow:capture_deferred" 40000002]) = [true, true, false, true, true] ∧
      (RedisCircuitBreaker.circuitBreaker sampleBreaker).admissions .start
        (sampleTrip ++ [.returned "worldflow:capture_deferred" 40000001 none,
          .check "worldflow:capture_deferred" 40000002]) = [true, true, false, true, false] := by
  decide

end PayzenoLedger
