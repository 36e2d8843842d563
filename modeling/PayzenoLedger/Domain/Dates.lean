import PayzenoLedger.Models

/-!
# Dates

The calendar date of a day since the epoch, its weekday and its printed forms.
-/

set_option autoImplicit false

namespace PayzenoLedger

/-- Year, month and day of a date. -/
def Date.civil (date : Date) : Nat × Nat × Nat :=
  -- Years are counted from March, so that the leap day comes last.
  let day := date + 719468
  let era := day / 146097
  let dayOfEra := day % 146097
  let yearOfEra := (dayOfEra - dayOfEra / 1460 + dayOfEra / 36524 - dayOfEra / 146096) / 365
  let dayOfYear := dayOfEra - (365 * yearOfEra + yearOfEra / 4 - yearOfEra / 100)
  let shifted := (5 * dayOfYear + 2) / 153
  let month := if shifted < 10 then shifted + 3 else shifted - 9
  let year := yearOfEra + era * 400 + if month ≤ 2 then 1 else 0
  (year, month, dayOfYear - (153 * shifted + 2) / 5 + 1)

/-- A number in at least this many digits. -/
def padded (width value : Nat) : String :=
  let digits := toString value
  String.ofList (List.replicate (width - digits.length) '0') ++ digits

def Date.isoformat (date : Date) : String :=
  let (year, month, day) := Date.civil date
  padded 4 year ++ "-" ++ padded 2 month ++ "-" ++ padded 2 day

example : Date.isoformat 20512 = "2026-02-28" := by decide +kernel

example : Date.isoformat 20513 = "2026-03-01" := by decide +kernel

/-- Monday is 0; the epoch was a Thursday. -/
def Date.weekday (date : Date) : Nat :=
  (date + 3) % 7

/-- The microseconds since midnight. -/
def Instant.time (at_ : Instant) : Nat :=
  at_ % 86400000000

end PayzenoLedger
