import PayzenoLedger.Errors

/-!
# Business metrics

The counters of a process.  A counter is registered at its first use, under its name and the
label names of that use; the registry of the process takes a name once.
-/

set_option autoImplicit false

namespace PayzenoLedger

/-- What the registry raises for a name that it holds. -/
def duplicatedTimeseries : Exception :=
  .valueError "Duplicated timeseries in CollectorRegistry"

/-- The counters that a process has registered, each with its label names. -/
structure Metrics where
  counters : List (String × List String) := []
deriving DecidableEq, Repr

namespace Metrics

/-- The label names that a counter is registered under. -/
def registered (metrics : Metrics) (metric : String) : Option (List String) :=
  metrics.counters.lookup metric

/-- Add one to a counter; the label names of the call come sorted. -/
def increment (metrics : Metrics) (metric : String) (names : List String) :
    Except Exception Unit × Metrics :=
  match metrics.registered metric with
  | none => (.ok (), { counters := (metric, names) :: metrics.counters })
  | some others =>
      if others = names then (.ok (), metrics) else (.error duplicatedTimeseries, metrics)

variable {metrics : Metrics} {metric : String} {names : List String}

/-- A use is refused just if the counter is registered under other label names. -/
theorem increment_error_iff : (∃ raised, (metrics.increment metric names).1 = .error raised) ↔
    ∃ others, metrics.registered metric = some others ∧ others ≠ names := by
  unfold increment
  cases metrics.registered metric with
  | none => simp
  | some others =>
      by_cases hsame : others = names
      · simp [hsame]
      · simp [hsame]

theorem increment_error {raised : Exception}
    (h : (metrics.increment metric names).1 = .error raised) : raised = duplicatedTimeseries := by
  unfold increment at h
  split at h
  · cases h
  · split at h
    · cases h
    · exact (Except.error.inj h).symm

/-- A counter keeps the label names of its first use. -/
theorem registered_increment (other : String) :
    (metrics.increment metric names).2.registered other =
      (metrics.registered other).or (if other = metric then some names else none) := by
  unfold increment
  cases hcounter : metrics.registered metric with
  | none =>
      change List.lookup other ((metric, names) :: metrics.counters) = _
      by_cases hsame : other = metric
      · rw [hsame, hcounter, List.lookup_cons_self, if_pos rfl]
        rfl
      · rw [List.lookup_cons, beq_false_of_ne hsame, if_neg hsame, Option.or_none]
        rfl
  | some others =>
      have hkept : metrics.registered other =
          (metrics.registered other).or (if other = metric then some names else none) := by
        by_cases hsame : other = metric
        · rw [hsame, hcounter]
          rfl
        · rw [if_neg hsame, Option.or_none]
      dsimp only
      split
      · exact hkept
      · exact hkept

end Metrics

end PayzenoLedger
