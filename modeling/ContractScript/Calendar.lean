/-!
# Dates of the Gregorian calendar

The calendar is extended over all years and repeats after 400 of them. A day is
given by its number, counted from 1970-01-01. `Date.ofDayNumber` finds the date in
closed form: the year is taken to begin in March, so that the leap day is its last
one, and a cycle of 400 years is divided by lengths of years and of months.

`Date.dayNumber` counts the days in front of a date by adding up whole years and
whole months. It is what a date means, and shares nothing with the closed form.
-/

namespace ContractScript.Calendar

/-- A day by year, month and day of the month, each counted from one. -/
structure Date where
  year : Nat
  month : Nat
  day : Nat
  deriving DecidableEq

/-- The days from 0000-03-01 to 1970-01-01. -/
def daysToEpoch : Nat := 719468

/-- The days of 400 years. -/
def daysInCycle : Nat := 146097

/-- The year within a cycle, for a day of the cycle: the leap days in front of the
day are taken out, and years of 365 days remain. -/
def yearOfCycle (day : Nat) : Nat :=
  (day - day / 1460 + day / 36524 - day / 146096) / 365

/-- The days of a cycle in front of one of its years. -/
def daysBeforeYearOfCycle (year : Nat) : Nat :=
  365 * year + year / 4 - year / 100

/-- The day within a year that begins in March, for a day of the cycle. -/
def dayOfYear (day : Nat) : Nat :=
  day - daysBeforeYearOfCycle (yearOfCycle day)

/-- The month within a year that begins in March, for a day of that year: five
months have 153 days. -/
def monthOfYear (dayOfYear : Nat) : Nat :=
  (5 * dayOfYear + 2) / 153

/-- The day of the month, for a day of a year that begins in March. -/
def dayOfMonth (dayOfYear : Nat) : Nat :=
  dayOfYear - (153 * monthOfYear dayOfYear + 2) / 5 + 1

/-- The usual number of a month that is counted from March. -/
def usualMonth (monthOfYear : Nat) : Nat :=
  if monthOfYear < 10 then monthOfYear + 3 else monthOfYear - 9

/-- The date of a day that is counted from 1970-01-01. -/
def Date.ofDayNumber (number : Nat) : Date :=
  let shifted := number + daysToEpoch
  let day := shifted % daysInCycle
  let month := usualMonth (monthOfYear (dayOfYear day))
  { year := yearOfCycle day + 400 * (shifted / daysInCycle) + if month ≤ 2 then 1 else 0
    month := month
    day := dayOfMonth (dayOfYear day) }

/-- A year has a leap day. -/
def isLeap (year : Nat) : Bool :=
  year % 4 = 0 && (year % 100 ≠ 0 || year % 400 = 0)

/-- The days of a month. -/
def daysInMonth (year month : Nat) : Nat :=
  if month = 2 then if isLeap year then 29 else 28
  else if month = 4 ∨ month = 6 ∨ month = 9 ∨ month = 11 then 30
  else 31

/-- The days of the year in front of a month. -/
def daysBeforeMonth (year : Nat) : Nat → Nat
  | 0 => 0
  | month + 1 => if month = 0 then 0 else daysBeforeMonth year month + daysInMonth year month

/-- The days of all years in front of a year. -/
def daysBeforeYear : Nat → Nat
  | 0 => 0
  | year + 1 => daysBeforeYear year + if isLeap year then 366 else 365

/-- The date exists: its month and its day are in range. -/
def Date.Valid (date : Date) : Prop :=
  1 ≤ date.month ∧ date.month ≤ 12 ∧ 1 ≤ date.day ∧ date.day ≤ daysInMonth date.year date.month

/-- Whether a date exists can be checked. -/
instance (date : Date) : Decidable date.Valid :=
  inferInstanceAs (Decidable (_ ∧ _ ∧ _ ∧ _))

/-- The number of a day, counted from 1970-01-01. -/
def Date.dayNumber (date : Date) : Int :=
  (daysBeforeYear date.year + daysBeforeMonth date.year date.month + date.day : Int) -
    (daysBeforeYear 1970 + 1 : Int)

end ContractScript.Calendar
