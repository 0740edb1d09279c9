/-!
# Time stamps

The time in the name of a log file: year, month and day, an underscore, and hour, minute
and second, in universal time.
-/

namespace PageManifest.Log.Stamp

/-- A number with zeros in front, in at least so many digits. -/
def digits (count n : Nat) : String :=
  let text := toString n
  String.ofList (List.replicate (count - text.length) '0') ++ text

/-- Year, month and day of a number of days since the start of 1970. Years are counted
from March on, so that a leap day is the last one. -/
def dateOfDays (days : Nat) : Nat × Nat × Nat :=
  let shifted := days + 719468
  let era := shifted / 146097
  let dayOfEra := shifted % 146097
  let yearOfEra := (dayOfEra - dayOfEra / 1460 + dayOfEra / 36524 - dayOfEra / 146096) / 365
  let dayOfYear := dayOfEra - (365 * yearOfEra + yearOfEra / 4 - yearOfEra / 100)
  let shiftedMonth := (5 * dayOfYear + 2) / 153
  let day := dayOfYear - (153 * shiftedMonth + 2) / 5 + 1
  let month := if shiftedMonth < 10 then shiftedMonth + 3 else shiftedMonth - 9
  let year := yearOfEra + era * 400 + (if month ≤ 2 then 1 else 0)
  (year, month, day)

example : dateOfDays 0 = (1970, 1, 1) := by decide
example : dateOfDays 19782 = (2024, 2, 29) := by decide
example : dateOfDays 19783 = (2024, 3, 1) := by decide

/-- The stamp of a number of seconds since the start of 1970. -/
def ofSeconds (seconds : Nat) : String :=
  let (year, month, day) := dateOfDays (seconds / 86400)
  let rest := seconds % 86400
  digits 4 year ++ digits 2 month ++ digits 2 day ++ "_" ++
    digits 2 (rest / 3600) ++ digits 2 (rest / 60 % 60) ++ digits 2 (rest % 60)

end PageManifest.Log.Stamp
