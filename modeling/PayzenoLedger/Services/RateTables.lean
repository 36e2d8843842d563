import PayzenoLedger.Services.Payouts

/-!
# Rate tables

One rate table serves the payouts of a process for a minute.  Calls overlap, a slow answer
replaces a table that was asked for after it, the provider fails, and the simulated clock is set
back; no call gets a table that is more than a minute old, or not yet there, by the time it read.
-/

set_option autoImplicit false

namespace PayzenoLedger

/-- One `FxRateService`: the calls of `_rates` that wait for its provider, and what came of the
others. -/
structure RateTables where
  clock : Instant
  cached : RateCache
  /-- When each of the waiting calls read the clock. -/
  waiting : List Instant
  /-- The tables that came, with the time they were asked for. -/
  fetched : List (Instant × FxRates)
  /-- What the calls returned, with the time each had read. -/
  returned : List (Instant × FxRates)

inductive RateEvent where
  | setClock (now : Instant)
  | call
  | answer (position : Nat) (reply : Except Exception FxRates)

namespace RateTables

def starting (clock : Instant) : RateTables :=
  ⟨clock, none, [], [], []⟩

/-- `_rates` up to the provider. -/
def call (tables : RateTables) : RateTables :=
  match tables.cached.fresh tables.clock with
  | some rates => { tables with returned := tables.returned ++ [(tables.clock, rates)] }
  | none => { tables with waiting := tables.waiting ++ [tables.clock] }

/-- The rest of it, for a call that read `now`. -/
def answer (tables : RateTables) (now : Instant) : Except Exception FxRates → RateTables
  | .error _ => tables
  | .ok rates =>
      { tables with
        cached := some (now, rates)
        fetched := tables.fetched ++ [(now, rates)]
        returned := tables.returned ++ [(now, rates)] }

def step (tables : RateTables) : RateEvent → Option RateTables
  | .setClock now => some { tables with clock := now }
  | .call => some tables.call
  | .answer position reply =>
      tables.waiting[position]?.map fun now =>
        { tables with waiting := tables.waiting.eraseIdx position }.answer now reply

/-- The program of one call reads the clock, looks at the table in hand, and asks at most once:
`call` goes up to the question, `answer` on from it. -/
theorem run_rates (cached : RateCache) :
    (FxRateService.rates cached).run = .run (.select fun world _ _ => some world.clock) fun now =>
      (cached.fresh now).elim (.call (.fxRates providerBase) .ret) fun rates =>
        .ret (.ok rates) := by
  refine congrArg (Library.Program.run _) (funext fun now => ?_)
  change (match cached.fresh now with
    | some rates => (pure rates : Async FxRates)
    | none => Async.call (.fxRates providerBase) >>= Async.check).run = _
  cases cached.fresh now with
  | some rates => rfl
  | none =>
      refine congrArg (Library.Program.call _) (funext fun reply => ?_)
      cases reply <;> rfl

/-! ## Steps -/

/-- All that a step does. -/
inductive Stepped (tables : RateTables) : RateEvent → RateTables → Prop where
  | setClock (now : Instant) : Stepped tables (.setClock now) { tables with clock := now }
  | served {rates : FxRates} (fresh : tables.cached.fresh tables.clock = some rates) :
      Stepped tables .call
        { tables with returned := tables.returned ++ [(tables.clock, rates)] }
  | asked (stale : tables.cached.fresh tables.clock = none) :
      Stepped tables .call { tables with waiting := tables.waiting ++ [tables.clock] }
  | failed {before after : List Instant} {now : Instant} {error : Exception}
      (hwaiting : tables.waiting = before ++ now :: after) :
      Stepped tables (.answer before.length (.error error))
        { tables with waiting := before ++ after }
  | answered {before after : List Instant} {now : Instant} {rates : FxRates}
      (hwaiting : tables.waiting = before ++ now :: after) :
      Stepped tables (.answer before.length (.ok rates))
        { tables with
          waiting := before ++ after
          cached := some (now, rates)
          fetched := tables.fetched ++ [(now, rates)]
          returned := tables.returned ++ [(now, rates)] }

theorem stepped {tables tables' : RateTables} {event : RateEvent}
    (h : tables.step event = some tables') : Stepped tables event tables' := by
  cases event with
  | setClock now =>
      cases h
      exact .setClock now
  | call =>
      have hcall : tables.call = tables' := Option.some.inj h
      subst hcall
      unfold call
      split
      · exact .served ‹_›
      · exact .asked ‹_›
  | answer position reply =>
      obtain ⟨now, hnow, rfl⟩ := Option.map_eq_some_iff.mp h
      obtain ⟨hposition, rfl⟩ := List.getElem?_eq_some_iff.mp hnow
      have hlength : (tables.waiting.take position).length = position :=
        List.length_take_of_le hposition.le
      have hwaiting : tables.waiting = tables.waiting.take position ++
          tables.waiting[position] :: tables.waiting.drop (position + 1) := by
        rw [← List.drop_eq_getElem_cons hposition, List.take_append_drop]
      rw [List.eraseIdx_eq_take_drop_succ]
      cases reply with
      | error error =>
          have done : Stepped tables (.answer _ (.error error)) _ := .failed hwaiting
          rwa [hlength] at done
      | ok rates =>
          have done : Stepped tables (.answer _ (.ok rates)) _ := .answered hwaiting
          rwa [hlength] at done

/-- The runs in which only what is allowed happens. -/
inductive Runs (allowed : RateTables → RateEvent → Prop) (clock : Instant) :
    RateTables → Prop where
  | start : Runs allowed clock (starting clock)
  | next {tables tables' : RateTables} {event : RateEvent} (before : Runs allowed clock tables)
      (hallowed : allowed tables event) (h : tables.step event = some tables') :
      Runs allowed clock tables'

/-- The clock is not set back. -/
def Forward (tables : RateTables) (event : RateEvent) : Prop :=
  ∀ now, event = .setClock now → tables.clock ≤ now

/-- And no call begins while another waits. -/
def InTurn (tables : RateTables) (event : RateEvent) : Prop :=
  Forward tables event ∧ (event = .call → tables.waiting = [])

section

variable {allowed allowed' : RateTables → RateEvent → Prop} {clock : Instant}
  {tables tables' : RateTables} {event : RateEvent}

theorem Runs.mono (h : Runs allowed clock tables)
    (hle : ∀ tables event, allowed tables event → allowed' tables event) :
    Runs allowed' clock tables := by
  induction h with
  | start => exact .start
  | next _ hallowed hstep ih => exact .next ih (hle _ _ hallowed) hstep

/-- What holds at first and is kept by the allowed steps. -/
theorem Runs.keeps {Holds : RateTables → Prop} (h : Runs allowed clock tables)
    (hstart : Holds (starting clock))
    (hkeeps : ∀ tables tables' event, allowed tables event → Stepped tables event tables' →
      Holds tables → Holds tables') : Holds tables := by
  induction h with
  | start => exact hstart
  | next _ hallowed hstep ih => exact hkeeps _ _ _ hallowed (stepped hstep) ih

theorem forward_call : Forward tables .call := by
  intro now hevent
  cases hevent

theorem forward_answer {position : Nat} {reply : Except Exception FxRates} :
    Forward tables (.answer position reply) := by
  intro now hevent
  cases hevent

theorem forward_setClock {now : Instant} (h : tables.clock ≤ now) :
    Forward tables (.setClock now) := by
  intro later hevent
  cases hevent
  exact h

/-! ## How old a table is -/

/-- A table that was asked for at `fetchedAt` is one for a call that reads `now`. -/
def Good (fetchedAt now : Instant) : Prop :=
  fetchedAt ≤ now ∧ now < fetchedAt + cacheTtl

instance (fetchedAt now : Instant) : Decidable (Good fetchedAt now) :=
  inferInstanceAs (Decidable (_ ∧ _))

theorem good_self (now : Instant) : Good now now :=
  ⟨Nat.le_refl now, Nat.lt_add_of_pos_right (by decide)⟩

theorem exists_of_fresh {cached : RateCache} {now : Instant} {rates : FxRates}
    (h : cached.fresh now = some rates) :
    ∃ fetchedAt, cached = some (fetchedAt, rates) ∧ Good fetchedAt now := by
  unfold RateCache.fresh at h
  split at h
  · cases h
  · split at h
    · rename_i fetchedAt _ good
      cases h
      exact ⟨fetchedAt, rfl, good⟩
    · cases h

theorem not_good_of_stale {now : Instant} {entry : Instant × FxRates}
    (h : RateCache.fresh (some entry) now = none) : ¬ Good entry.1 now := by
  intro good
  have hfresh : RateCache.fresh (some entry) now = some entry.2 := if_pos good
  rw [hfresh] at h
  cases h

/-- The table in hand is the one that came last, and what was returned was good. -/
structure Current (tables : RateTables) : Prop where
  latest : tables.cached = tables.fetched.getLast?
  good : ∀ served ∈ tables.returned,
    ∃ fetchedAt, (fetchedAt, served.2) ∈ tables.fetched ∧ Good fetchedAt served.1

theorem current_starting : Current (starting clock) :=
  ⟨rfl, fun _ h => absurd h List.not_mem_nil⟩

theorem Current.step (current : Current tables) (h : Stepped tables event tables') :
    Current tables' := by
  cases h with
  | setClock now => exact ⟨current.latest, current.good⟩
  | @served rates fresh =>
      refine ⟨current.latest, fun served hserved => ?_⟩
      rcases List.mem_append.mp hserved with hbefore | hnow
      · exact current.good served hbefore
      · obtain rfl := List.mem_singleton.mp hnow
        obtain ⟨fetchedAt, hcached, good⟩ := exists_of_fresh fresh
        exact ⟨fetchedAt, List.mem_of_getLast? (current.latest.symm.trans hcached), good⟩
  | asked stale => exact ⟨current.latest, current.good⟩
  | failed hwaiting => exact ⟨current.latest, current.good⟩
  | @answered before after now rates hwaiting =>
      refine ⟨List.getLast?_concat.symm, fun served hserved => ?_⟩
      rcases List.mem_append.mp hserved with hbefore | hnow
      · obtain ⟨fetchedAt, hfetched, good⟩ := current.good served hbefore
        exact ⟨fetchedAt, List.mem_append_left _ hfetched, good⟩
      · obtain rfl := List.mem_singleton.mp hnow
        exact ⟨now, List.mem_append_right _ List.mem_cons_self, good_self now⟩

theorem Runs.current (h : Runs allowed clock tables) : Current tables :=
  h.keeps current_starting fun _ _ _ _ hstep current => current.step hstep

/-! ## How often the provider is asked -/

theorem mem_of_mem_rest {before after : List Instant} {now other : Instant}
    (h : other ∈ before ++ after) : other ∈ before ++ now :: after := by
  rcases List.mem_append.mp h with hbefore | hafter
  · exact List.mem_append_left _ hbefore
  · exact List.mem_append_right _ (List.mem_cons_of_mem _ hafter)

/-- No table was asked for in the future. -/
structure Dated (tables : RateTables) : Prop where
  waiting : ∀ now ∈ tables.waiting, now ≤ tables.clock
  fetched : ∀ entry ∈ tables.fetched, entry.1 ≤ tables.clock

theorem Dated.step (dated : Dated tables) (hforward : Forward tables event)
    (h : Stepped tables event tables') : Dated tables' := by
  cases h with
  | setClock now =>
      have hnow : tables.clock ≤ now := hforward now rfl
      exact ⟨fun asked h => (dated.waiting asked h).trans hnow,
        fun entry h => (dated.fetched entry h).trans hnow⟩
  | served fresh => exact ⟨dated.waiting, dated.fetched⟩
  | asked stale =>
      refine ⟨fun now hnow => ?_, dated.fetched⟩
      rcases List.mem_append.mp hnow with hbefore | hlast
      · exact dated.waiting now hbefore
      · exact (List.mem_singleton.mp hlast).le
  | @failed before after now error hwaiting =>
      refine ⟨fun other hother => dated.waiting other ?_, dated.fetched⟩
      rw [hwaiting]
      exact mem_of_mem_rest hother
  | @answered before after now rates hwaiting =>
      refine ⟨fun other hother => dated.waiting other ?_, fun entry hentry => ?_⟩
      · rw [hwaiting]
        exact mem_of_mem_rest hother
      · rcases List.mem_append.mp hentry with hbefore | hlast
        · exact dated.fetched entry hbefore
        · obtain rfl := List.mem_singleton.mp hlast
          refine dated.waiting now ?_
          rw [hwaiting]
          exact List.mem_append_right _ List.mem_cons_self

theorem dated_starting : Dated (starting clock) :=
  ⟨fun _ h => absurd h List.not_mem_nil, fun _ h => absurd h List.not_mem_nil⟩

theorem Runs.dated (h : Runs Forward clock tables) : Dated tables :=
  h.keeps dated_starting fun _ _ _ hforward hstep dated => dated.step hforward hstep

theorem exists_latest {entry : Instant × FxRates} (hentry : entry ∈ tables.fetched) :
    ∃ last, tables.fetched.getLast? = some last :=
  Option.isSome_iff_exists.mp (List.getLast?_isSome.mpr (List.ne_nil_of_mem hentry))

/-- A call that does not use the table in hand reads a minute or more after it was asked for. -/
theorem due_of_stale (current : Current tables) (dated : Dated tables)
    (stale : tables.cached.fresh tables.clock = none) {last : Instant × FxRates}
    (hlast : tables.fetched.getLast? = some last) : last.1 + cacheTtl ≤ tables.clock := by
  rw [current.latest, hlast] at stale
  have hdated := dated.fetched last (List.mem_of_getLast? hlast)
  exact Nat.not_lt.mp fun hearly => not_good_of_stale stale ⟨hdated, hearly⟩

/-- A call asks again for a table that it could have used only where a call that had asked
earlier was answered later. -/
theorem Runs.overtaken (h : Runs Forward clock tables)
    (stale : tables.cached.fresh tables.clock = none) {entry : Instant × FxRates}
    (hentry : entry ∈ tables.fetched) (hgood : Good entry.1 tables.clock) :
    ∃ last, tables.fetched.getLast? = some last ∧ last.1 < entry.1 := by
  obtain ⟨last, hlast⟩ := exists_latest hentry
  have hearlier : last.1 + cacheTtl < entry.1 + cacheTtl :=
    (due_of_stale h.current h.dated stale hlast).trans_lt hgood.2
  exact ⟨last, hlast, Nat.lt_of_add_lt_add_right hearlier⟩

/-- The tables were asked for a minute apart, and so is the one that a call waits for. -/
structure Spaced (tables : RateTables) : Prop where
  alone : tables.waiting.length ≤ 1
  due : ∀ now ∈ tables.waiting, ∀ entry ∈ tables.fetched, entry.1 + cacheTtl ≤ now
  spaced : tables.fetched.Pairwise fun earlier later => earlier.1 + cacheTtl ≤ later.1

theorem spaced_starting : Spaced (starting clock) :=
  ⟨Nat.zero_le 1, fun _ h => absurd h List.not_mem_nil, .nil⟩

theorem Spaced.le_latest (spaced : Spaced tables) {entry last : Instant × FxRates}
    (hlast : tables.fetched.getLast? = some last) (hentry : entry ∈ tables.fetched) :
    entry.1 ≤ last.1 := by
  obtain ⟨before, hfetched⟩ := List.getLast?_eq_some_iff.mp hlast
  have hspaced := spaced.spaced
  rw [hfetched] at hspaced hentry
  rcases List.mem_append.mp hentry with hbefore | hsame
  · have hapart := (List.pairwise_append.mp hspaced).2.2 entry hbefore last List.mem_cons_self
    exact (Nat.le_add_right _ _).trans hapart
  · exact (congrArg Prod.fst (List.mem_singleton.mp hsame)).le

theorem Spaced.step (spaced : Spaced tables) (current : Current tables) (dated : Dated tables)
    (hturns : InTurn tables event) (h : Stepped tables event tables') : Spaced tables' := by
  cases h with
  | setClock now => exact ⟨spaced.alone, spaced.due, spaced.spaced⟩
  | served fresh => exact ⟨spaced.alone, spaced.due, spaced.spaced⟩
  | asked stale =>
      have hnone : tables.waiting = [] := hturns.2 rfl
      have hwaiting : tables.waiting ++ [tables.clock] = [tables.clock] := by
        rw [hnone, List.nil_append]
      refine ⟨by rw [hwaiting]; exact Nat.le_refl 1, fun now hnow entry hentry => ?_,
        spaced.spaced⟩
      rw [hwaiting] at hnow
      obtain rfl := List.mem_singleton.mp hnow
      obtain ⟨last, hlast⟩ := exists_latest hentry
      calc entry.1 + cacheTtl ≤ last.1 + cacheTtl :=
            Nat.add_le_add_right (spaced.le_latest hlast hentry) _
        _ ≤ tables.clock := due_of_stale current dated stale hlast
  | @failed before after now error hwaiting =>
      refine ⟨?_, fun other hother => spaced.due other ?_, spaced.spaced⟩
      · have halone := spaced.alone
        rw [hwaiting] at halone
        simp only [List.length_append, List.length_cons] at halone ⊢
        omega
      · rw [hwaiting]
        exact mem_of_mem_rest hother
  | @answered before after now rates hwaiting =>
      have halone := spaced.alone
      rw [hwaiting, List.length_append, List.length_cons] at halone
      obtain rfl : before = [] := List.length_eq_zero_iff.mp (by omega)
      obtain rfl : after = [] := List.length_eq_zero_iff.mp (by omega)
      refine ⟨Nat.zero_le 1, fun _ h => absurd h List.not_mem_nil, ?_⟩
      refine List.pairwise_append.mpr ⟨spaced.spaced, List.pairwise_singleton _ _, ?_⟩
      intro entry hentry last hlast
      obtain rfl := List.mem_singleton.mp hlast
      refine spaced.due now ?_ entry hentry
      rw [hwaiting]
      exact List.mem_cons_self

theorem Runs.spaced (h : Runs InTurn clock tables) : Spaced tables := by
  induction h with
  | start => exact spaced_starting
  | next before hturns h ih =>
      have forward := before.mono fun _ _ hallowed => hallowed.1
      exact ih.step before.current forward.dated hturns (stepped h)

end

/-- What a call returns was asked for in the minute before it read, whatever overlaps and however
the clock is set; while the clock goes forward, only an answer that overtakes makes a call ask
for what it could have used; and calls that take turns ask once a minute. -/
theorem rate_tables_current (clock : Instant) (tables : RateTables) :
    (Runs (fun _ _ => True) clock tables → ∀ served ∈ tables.returned,
      ∃ fetchedAt, (fetchedAt, served.2) ∈ tables.fetched ∧ Good fetchedAt served.1) ∧
    (Runs Forward clock tables → tables.cached.fresh tables.clock = none →
      ∀ entry ∈ tables.fetched, Good entry.1 tables.clock →
        ∃ last, tables.fetched.getLast? = some last ∧ last.1 < entry.1) ∧
    (Runs InTurn clock tables →
      tables.fetched.Pairwise fun earlier later => earlier.1 + cacheTtl ≤ later.1) :=
  ⟨fun h => h.current.good, fun h stale _ hentry hgood => h.overtaken stale hentry hgood,
    fun h => h.spaced.spaced⟩

/-- The euro and the yen in dollars, as an acquirer has them. -/
def sampleRates (cents : Rat) : FxRates :=
  [("EUR", cents / 100), ("JPY", 66 / 10000)]

/-- Two calls overlap, and the slow one is answered last. -/
def sampleOvertaken : RateTables :=
  ⟨61000000, some (0, sampleRates 107), [],
    [(59000000, sampleRates 108), (0, sampleRates 107)],
    [(59000000, sampleRates 108), (0, sampleRates 107)]⟩

/-- Two calls a minute apart. -/
def sampleInTurn : RateTables :=
  ⟨60000000, some (60000000, sampleRates 108), [],
    [(0, sampleRates 107), (60000000, sampleRates 108)],
    [(0, sampleRates 107), (60000000, sampleRates 108)]⟩

theorem runs_sampleOvertaken : Runs Forward 0 sampleOvertaken := by
  have slow : Runs Forward 0 ⟨0, none, [0], [], []⟩ :=
    @Runs.next _ _ _ _ .call .start forward_call rfl
  have later : Runs Forward 0 ⟨59000000, none, [0], [], []⟩ :=
    @Runs.next _ _ _ _ (.setClock 59000000) slow (forward_setClock (Nat.zero_le _)) rfl
  have quick : Runs Forward 0 ⟨59000000, none, [0, 59000000], [], []⟩ :=
    @Runs.next _ _ _ _ .call later forward_call rfl
  have first : Runs Forward 0 ⟨59000000, some (59000000, sampleRates 108), [0],
      [(59000000, sampleRates 108)], [(59000000, sampleRates 108)]⟩ :=
    @Runs.next _ _ _ _ (.answer 1 (.ok (sampleRates 108))) quick forward_answer rfl
  have second : Runs Forward 0 { sampleOvertaken with clock := 59000000 } :=
    @Runs.next _ _ _ _ (.answer 0 (.ok (sampleRates 107))) first forward_answer rfl
  exact @Runs.next _ _ _ _ (.setClock 61000000) second (forward_setClock (by decide)) rfl

theorem runs_sampleInTurn : Runs InTurn 0 sampleInTurn := by
  have asked : Runs InTurn 0 ⟨0, none, [0], [], []⟩ :=
    @Runs.next _ _ _ _ .call .start ⟨forward_call, fun _ => rfl⟩ rfl
  have answered : Runs InTurn 0 ⟨0, some (0, sampleRates 107), [], [(0, sampleRates 107)],
      [(0, sampleRates 107)]⟩ :=
    @Runs.next _ _ _ _ (.answer 0 (.ok (sampleRates 107))) asked
      ⟨forward_answer, fun h => by cases h⟩ rfl
  have later : Runs InTurn 0 ⟨60000000, some (0, sampleRates 107), [], [(0, sampleRates 107)],
      [(0, sampleRates 107)]⟩ :=
    @Runs.next _ _ _ _ (.setClock 60000000) answered
      ⟨forward_setClock (Nat.zero_le _), fun h => by cases h⟩ rfl
  have again : Runs InTurn 0 ⟨60000000, some (0, sampleRates 107), [60000000],
      [(0, sampleRates 107)], [(0, sampleRates 107)]⟩ :=
    @Runs.next _ _ _ _ .call later ⟨forward_call, fun _ => rfl⟩ rfl
  exact @Runs.next _ _ _ _ (.answer 0 (.ok (sampleRates 108))) again
    ⟨forward_answer, fun h => by cases h⟩ rfl

theorem rate_tables_current_sample :
    (∀ served ∈ sampleOvertaken.returned, ∃ fetchedAt,
      (fetchedAt, served.2) ∈ sampleOvertaken.fetched ∧ Good fetchedAt served.1) ∧
    (∃ last, sampleOvertaken.fetched.getLast? = some last ∧ last.1 < 59000000) ∧
    sampleInTurn.fetched.Pairwise fun earlier later => earlier.1 + cacheTtl ≤ later.1 := by
  have overtaken := rate_tables_current 0 sampleOvertaken
  refine ⟨overtaken.1 (runs_sampleOvertaken.mono fun _ _ _ => trivial), ?_, ?_⟩
  · exact overtaken.2.1 runs_sampleOvertaken rfl (59000000, sampleRates 108) List.mem_cons_self
      (by decide)
  · exact (rate_tables_current 0 sampleInTurn).2.2 runs_sampleInTurn

end RateTables

end PayzenoLedger
