import KernelProfile.Text.Numeral

/-! Times of day for log files: calendar dates of the proleptic Gregorian calendar from the seconds
since the start of 1970, without regard to leap seconds. -/
namespace KernelProfile.Log

structure Stamp where
  year : Nat
  month : Nat
  day : Nat
  hour : Nat
  minute : Nat
  second : Nat
  deriving DecidableEq, Repr

namespace Stamp

/-- The days from the first of March of the year zero to the start of 1970. -/
def epochDays : Nat := 719468

/-- The days of four hundred years. -/
def eraDays : Nat := 146097

/-- The date of a number of days since the start of 1970, as year, month and day. Years are counted
from March, so that a leap day is the last day of its year. -/
def dateOfDays (days : Nat) : Nat × Nat × Nat :=
  let z := days + epochDays
  let inEra := z % eraDays
  let yearOfEra := (inEra - inEra / 1460 + inEra / 36524 - inEra / 146096) / 365
  let dayOfYear := inEra - (365 * yearOfEra + yearOfEra / 4 - yearOfEra / 100)
  let fromMarch := (5 * dayOfYear + 2) / 153
  let month := if fromMarch < 10 then fromMarch + 3 else fromMarch - 9
  (yearOfEra + z / eraDays * 400 + (if month ≤ 2 then 1 else 0), month,
    dayOfYear - (153 * fromMarch + 2) / 5 + 1)

def ofSeconds (seconds : Nat) : Stamp :=
  let (year, month, day) := dateOfDays (seconds / 86400)
  let rest := seconds % 86400
  ⟨year, month, day, rest / 3600, rest / 60 % 60, rest % 60⟩

/-- A number with leading zeros up to a width. -/
def padded (width n : Nat) : String :=
  let digits := Text.naturalDigits n
  String.ofList (List.replicate (width - digits.length) '0' ++ digits)

/-- The form that names files. -/
def fileText (s : Stamp) : String :=
  padded 4 s.year ++ padded 2 s.month ++ padded 2 s.day ++ "_" ++ padded 2 s.hour ++
    padded 2 s.minute ++ padded 2 s.second

/-- The form that starts lines. -/
def lineText (s : Stamp) : String :=
  padded 4 s.year ++ "-" ++ padded 2 s.month ++ "-" ++ padded 2 s.day ++ " " ++ padded 2 s.hour ++
    ":" ++ padded 2 s.minute ++ ":" ++ padded 2 s.second

example : ofSeconds 951782399 = ⟨2000, 2, 28, 23, 59, 59⟩ := by decide

example : ofSeconds 951782400 = ⟨2000, 2, 29, 0, 0, 0⟩ := by decide

end Stamp
end KernelProfile.Log
