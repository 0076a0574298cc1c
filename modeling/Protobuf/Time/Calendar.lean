/-! The proleptic Gregorian calendar: dates and the day numbers that count from 0001-01-01.
-/

namespace Protobuf.Time

/-- A year, a month from one and a day from one. -/
structure Date where
  year : Int
  month : Nat
  day : Nat
deriving DecidableEq, Repr

/-- Every fourth year is a leap year, but of the centuries only every fourth. -/
def isLeapYear (year : Int) : Bool :=
  year % 4 == 0 && (year % 100 != 0 || year % 400 == 0)

/-- The lengths of the months of a year. -/
def monthLengths (year : Int) : List Nat :=
  [31, if isLeapYear year then 29 else 28, 31, 30, 31, 30, 31, 31, 30, 31, 30, 31]

/-- How many days lie between 0001-01-01 and the first day of the year. -/
def daysBeforeYear (year : Int) : Int :=
  365 * (year - 1) + (year - 1) / 4 - (year - 1) / 100 + (year - 1) / 400

namespace Date

/-- The date exists. -/
def isValid (date : Date) : Bool :=
  1 ≤ date.month && 1 ≤ date.day
    && match (monthLengths date.year)[date.month - 1]? with
      | some length => decide (date.day ≤ length)
      | none => false

/-- The number of the day, which is zero for 0001-01-01. -/
def dayNumber (date : Date) : Int :=
  let before := ((monthLengths date.year).take (date.month - 1)).foldr Nat.add 0
  daysBeforeYear date.year + before + date.day - 1

/-- The year of a day number. -/
def yearOfDay (day : Int) : Int :=
  let guess := day * 400 / 146097 + 1
  if daysBeforeYear (guess + 1) ≤ day then guess + 1
  else if day < daysBeforeYear guess then guess - 1
  else guess

/-- The month and day that lie `days` behind the first of `month`, given the lengths of the months
from there on.
-/
def splitMonths (month days : Nat) : List Nat → Nat × Nat
  | [] => (month, days + 1)
  | length :: lengths =>
      if days < length then (month, days + 1) else splitMonths (month + 1) (days - length) lengths

/-- The date of a day number. -/
def ofDayNumber (day : Int) : Date :=
  let year := yearOfDay day
  let (month, dayOfMonth) :=
    splitMonths 1 (day - daysBeforeYear year).toNat (monthLengths year)
  ⟨year, month, dayOfMonth⟩

/-- The day number of 1970-01-01. -/
def epoch : Int := 719162

end Date

end Protobuf.Time
