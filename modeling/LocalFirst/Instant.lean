import LocalFirst.Decimal.Padded

/-!
# Instants

A point in time, counted from the start of 1970 in UTC, and its written forms:
a calendar date with milliseconds, and the number of milliseconds.
-/

namespace LocalFirst

/-- Whole seconds since the epoch and the nanoseconds after them.  A leap second
is the second before it with a further 10⁹ nanoseconds. -/
structure Instant where
  seconds : Int
  nanos : Nat
  deriving DecidableEq, Inhabited

namespace Instant

/-- Milliseconds since the epoch. -/
def millis (instant : Instant) : Int :=
  instant.seconds * 1000 + instant.nanos / 1000000

/-- A date in the Gregorian calendar. -/
structure Date where
  year : Int
  month : Nat
  day : Nat
  deriving DecidableEq

/-- The date of a day counted from the epoch.  Years are taken to begin in
March, so that the leap day is the last day of its year and of its era of 400
years. -/
def dateOfDay (epochDay : Int) : Date :=
  let shifted := epochDay + 719468
  let era := shifted / 146097
  let day := (shifted % 146097).toNat
  let year := (day - day / 1460 + day / 36524 - day / 146096) / 365
  let dayOfYear := day - (365 * year + year / 4 - year / 100)
  let fromMarch := (5 * dayOfYear + 2) / 153
  let month := if fromMarch < 10 then fromMarch + 3 else fromMarch - 9
  ⟨era * 400 + year + (if month ≤ 2 then 1 else 0), month,
    dayOfYear - (153 * fromMarch + 2) / 5 + 1⟩

/-- A number with at least this many digits. -/
def padded (width number : Nat) : String :=
  String.ofList (paddedDigits width number)

/-- Four digits, and a sign in front of years that these cannot hold. -/
def yearText (year : Int) : String :=
  if 0 ≤ year ∧ year ≤ 9999 then padded 4 year.toNat
  else (if year < 0 then "-" else "+") ++ padded 4 year.natAbs

/-- Date and time with milliseconds, such as `2024-03-01T12:30:00.123Z`. -/
def rfc3339 (instant : Instant) : String :=
  let date := dateOfDay (instant.seconds / 86400)
  let second := (instant.seconds % 86400).toNat
  yearText date.year ++ "-" ++ padded 2 date.month ++ "-" ++ padded 2 date.day ++ "T" ++
    padded 2 (second / 3600) ++ ":" ++ padded 2 (second / 60 % 60) ++ ":" ++
    padded 2 (second % 60 + instant.nanos / 1000000000) ++ "." ++
    padded 3 (instant.nanos / 1000000 % 1000) ++ "Z"

example : dateOfDay 0 = ⟨1970, 1, 1⟩ := by decide

example : dateOfDay 19782 = ⟨2024, 2, 29⟩ := by decide

example : dateOfDay (-719528) = ⟨0, 1, 1⟩ := by decide

end Instant

end LocalFirst
