/-!
# The calendar

Days counted from 1970-01-01 and the dates of the proleptic Gregorian calendar, in both directions,
for any year. Years repeat every 400, a block of 146097 days.
-/

namespace Pinboard.Time

/-- A date: a year (zero and negative ones too), a month from 1 and a day of the month from 1. -/
structure Date where
  /-- The year; year 0 precedes year 1. -/
  year : Int
  /-- The month, 1 to 12. -/
  month : Nat
  /-- The day of the month, 1 to 31. -/
  day : Nat
  deriving DecidableEq, Repr

/-- Every fourth year is a leap year, of the full centuries only every fourth. -/
def isLeap (year : Int) : Bool :=
  year % 4 == 0 && (year % 100 != 0 || year % 400 == 0)

/-- The lengths of the months of a year. -/
def monthLengths (year : Int) : List Nat :=
  [31, if isLeap year then 29 else 28, 31, 30, 31, 30, 31, 31, 30, 31, 30, 31]

/-- The days from 0001-01-01 to the first day of a year. -/
def daysBeforeYear (year : Int) : Int :=
  365 * (year - 1) + (year - 1) / 4 - (year - 1) / 100 + (year - 1) / 400

/-- The days from the first day of a year to the first day of one of its months. -/
def daysBeforeMonth (year : Int) (month : Nat) : Nat :=
  ((monthLengths year).take (month - 1)).foldr (· + ·) 0

/-- The days from 0001-01-01 to 1970-01-01. -/
def epochOffset : Int := 719162

namespace Date

/-- Is there such a day? -/
def isValid (d : Date) : Bool :=
  1 ≤ d.month && 1 ≤ d.day && d.day ≤ (monthLengths d.year).getD (d.month - 1) 0

/-- The number of the day, 1970-01-01 being day 0. -/
def toDay (d : Date) : Int :=
  daysBeforeYear d.year + daysBeforeMonth d.year d.month + d.day - 1 - epochOffset

/-- The month and day of the month of a day of the year counted from 0, given the lengths of the
months that are left and the number of the first of them. -/
def ofDayOfYear : List Nat → Nat → Nat → Nat × Nat
  | [], month, rest => (month, rest + 1)
  | length :: lengths, month, rest =>
    if rest < length then (month, rest + 1) else ofDayOfYear lengths (month + 1) (rest - length)

/-- The year of a day counted from 0001-01-01, and the day of that year counted from 0. -/
def yearOfDay (n : Int) : Int × Nat :=
  let block := n / 146097
  let inBlock := (n % 146097).toNat
  let century := min 3 (inBlock / 36524)
  let inCentury := inBlock - century * 36524
  let cycle := inCentury / 1461
  let inCycle := inCentury % 1461
  let year := min 3 (inCycle / 365)
  (400 * block + (100 * century + 4 * cycle + year : Nat) + 1, inCycle - 365 * year)

/-- The date of a day number. -/
def ofDay (n : Int) : Date :=
  let (year, dayOfYear) := yearOfDay (n + epochOffset)
  let (month, day) := ofDayOfYear (monthLengths year) 1 dayOfYear
  ⟨year, month, day⟩

end Date

end Pinboard.Time
