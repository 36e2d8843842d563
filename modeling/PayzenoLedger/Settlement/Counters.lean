import PayzenoLedger.Library.Answers
import PayzenoLedger.System

/-!
# The counters of a process along a run

A counter keeps the label names of its first use in the process.  A later use is refused
just if it comes with other ones, whichever worker of the process it comes from.
-/

set_option autoImplicit false

namespace PayzenoLedger

open Library

/-- The label names that the process of a worker first uses a counter with. -/
def firstNames (start : World) (worker : Nat) (metric : String) :
    List (Nat × Event system) → Option (List String)
  | [] => none
  | (other, .called (.increment used names) _) :: trace =>
      if used = metric ∧ start.process other = start.process worker then some names
      else firstNames start worker metric trace
  | (_, _) :: trace => firstNames start worker metric trace

/-- The label names of a counter in the process of a worker, after this part of a run. -/
def countedUnder (start : World) (worker : Nat) (metric : String)
    (trace : List (Nat × Event system)) : Option (List String) :=
  ((start.metrics worker).registered metric).or (firstNames start worker metric trace)

theorem firstNames_append (start : World) (worker : Nat) (metric : String)
    (first second : List (Nat × Event system)) :
    firstNames start worker metric (first ++ second) =
      (firstNames start worker metric first).or (firstNames start worker metric second) := by
  induction first with
  | nil => rfl
  | cons entry first ih =>
      obtain ⟨other, event⟩ := entry
      cases event with
      | called request reply =>
          cases request with
          | increment used names =>
              simp only [List.cons_append, firstNames]
              split
              · rfl
              · exact ih
          | _ => exact ih
      | _ => exact ih

theorem World.metrics_increment (world : World) (worker : Nat) (metric : String)
    (names : List String) (other : Nat) :
    (world.increment worker metric names).2.metrics other =
      if world.process other = world.process worker then
        ((world.metrics worker).increment metric names).2
      else world.metrics other := by
  change (List.lookup (world.process other) ((world.process worker,
    ((world.metrics worker).increment metric names).2) :: world.counters)).getD {} = _
  rw [List.lookup_cons]
  by_cases hsame : world.process other = world.process worker
  · simp [hsame]
  · rw [beq_false_of_ne hsame, if_neg hsame]
    rfl

/-- What a use of a counter was refused with. -/
def refusedCount : Event system → Option Exception
  | .called (.increment _ _) (.error raised) => some raised
  | .called (.countDuplicate _ _) (.error raised) => some raised
  | _ => none

/-- After this part of a run the registries hold the label names of the first uses, and each
use was refused just if it came with others. -/
structure CountersTold (start world : World) (trace : List (Nat × Event system)) : Prop where
  processes : world.processes = start.processes
  names : ∀ worker metric,
    (world.metrics worker).registered metric = countedUnder start worker metric trace
  refused : ∀ before worker metric names (reply : Except Exception Unit) after,
    trace = before ++ (worker, .called (.increment metric names) reply) :: after →
    ((∃ raised, reply = .error raised) ↔
      ∃ others, countedUnder start worker metric before = some others ∧ others ≠ names)
  outside : ∀ entry ∈ trace, ∀ raised, refusedCount entry.2 = some raised →
    raised.isInstance .payzenoLedgerError = false

namespace CountersTold

variable {start world world' : World} {trace : List (Nat × Event system)} {worker : Nat}
  {event : Event system}

theorem process (told : CountersTold start world trace) (other : Nat) :
    world.process other = start.process other := by
  unfold World.process
  rw [told.processes]

/-- An event that is no use of a counter. -/
theorem append (told : CountersTold start world trace)
    (hprocesses : world'.processes = world.processes)
    (hcounters : world'.counters = world.counters)
    (hother : ∀ metric names reply, event ≠ .called (.increment metric names) reply)
    (houtside : ∀ raised, refusedCount event = some raised →
      raised.isInstance .payzenoLedgerError = false) :
    CountersTold start world' (trace ++ [(worker, event)]) where
  processes := hprocesses.trans told.processes
  names other metric := by
    have hnone : firstNames start other metric [(worker, event)] = none := by
      unfold firstNames
      split
      · rfl
      · next heq =>
          cases heq
          exact absurd rfl (hother _ _ _)
      · next heq =>
          cases heq
          rfl
    have hmetrics : world'.metrics other = world.metrics other := by
      unfold World.metrics World.process
      rw [hcounters, hprocesses]
    rw [hmetrics, told.names, countedUnder, countedUnder, firstNames_append, hnone, Option.or_none]
  refused before other metric names reply after heq := by
    rcases List.eq_nil_or_concat after with rfl | ⟨rest, last, rfl⟩
    · obtain ⟨-, hlast⟩ := List.append_inj' heq rfl
      exact absurd (congrArg Prod.snd (List.singleton_inj.mp hlast)) (hother _ _ _)
    · rw [List.concat_eq_append, ← List.cons_append, ← List.append_assoc] at heq
      exact told.refused before other metric names reply rest (List.append_inj' heq rfl).1
  outside entry hentry raised hraised := by
    rcases List.mem_append.mp hentry with hold | hlast
    · exact told.outside entry hold raised hraised
    · rw [List.mem_singleton.mp hlast] at hraised
      exact houtside raised hraised

/-- A use of a counter. -/
theorem increment (told : CountersTold start world trace) (metric : String)
    (names : List String) : CountersTold start (world.increment worker metric names).2
      (trace ++ [(worker, .called (.increment metric names)
        (world.increment worker metric names).1)]) where
  processes := told.processes
  names other counter := by
    rw [countedUnder, firstNames_append, ← Option.or_assoc, ← countedUnder, ← told.names,
      World.metrics_increment, told.process, told.process]
    simp only [firstNames]
    by_cases hprocess : start.process other = start.process worker
    · have hsame : world.metrics other = world.metrics worker := by
        unfold World.metrics
        rw [told.process, told.process, hprocess]
      rw [if_pos hprocess, Metrics.registered_increment, hsame]
      by_cases hcounter : counter = metric
      · simp [hcounter, hprocess]
      · simp [hcounter, Ne.symm hcounter]
    · rw [if_neg hprocess, if_neg fun h => hprocess h.2.symm, Option.or_none]
  refused before other counter labels reply after heq := by
    rcases List.eq_nil_or_concat after with rfl | ⟨rest, last, rfl⟩
    · obtain ⟨rfl, hlast⟩ := List.append_inj' heq rfl
      obtain ⟨rfl, hcalled⟩ := Prod.mk.inj (List.singleton_inj.mp hlast)
      cases hcalled
      rw [← told.names]
      exact Metrics.increment_error_iff
    · rw [List.concat_eq_append, ← List.cons_append, ← List.append_assoc] at heq
      exact told.refused before other counter labels reply rest (List.append_inj' heq rfl).1
  outside entry hentry raised hraised := by
    rcases List.mem_append.mp hentry with hold | hlast
    · exact told.outside entry hold raised hraised
    · rw [List.mem_singleton.mp hlast] at hraised
      unfold refusedCount at hraised
      split at hraised
      · next heq =>
          cases hraised
          injection heq with hrequest hreply
          cases hrequest
          rw [Metrics.increment_error hreply]
          rfl
      · next heq => cases heq
      · cases hraised

end CountersTold

end PayzenoLedger
