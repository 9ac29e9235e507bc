import ContractScript.Timestamp

/-!
# Points of time in machine words

A clock counts seconds in a word of 64 bits. The fields of the calendar are computed in
words of 32 bits without a sign, apart from days since the beginning of the calendar and
years, which take words of 64 bits with one. A sum, a difference or a product is the exact
one, and there is none where the word cannot hold it: nothing is wrapped around on the way.
Quotients by constants always fit.

The steps are those of `Calendar.Date.ofDayNumber` in the order in which a machine takes
them, so that every intermediate result is one of these words.
-/

namespace ContractScript

namespace Word32

/-- The word without a sign that holds an exact result, if one does. -/
def ofExact? (result : Int) : Option UInt32 :=
  if 0 ≤ result ∧ result < UInt32.size then some (UInt32.ofNat result.toNat) else none

/-- The sum of two words. -/
def add? (first second : UInt32) : Option UInt32 :=
  ofExact? (first.toNat + second.toNat)

/-- The difference of two words; there is none below zero. -/
def subtract? (first second : UInt32) : Option UInt32 :=
  ofExact? (first.toNat - second.toNat)

/-- The product of two words. -/
def multiply? (first second : UInt32) : Option UInt32 :=
  ofExact? (first.toNat * second.toNat)

end Word32

namespace SignedWord64

/-- The word with a sign that holds an exact result, if one does. -/
def ofExact? (result : Int) : Option Int64 :=
  if Int64.minValue.toInt ≤ result ∧ result ≤ Int64.maxValue.toInt then some (Int64.ofInt result)
  else none

/-- The sum of two words. -/
def add? (first second : Int64) : Option Int64 :=
  ofExact? (first.toInt + second.toInt)

/-- The product of two words. -/
def multiply? (first second : Int64) : Option Int64 :=
  ofExact? (first.toInt * second.toInt)

end SignedWord64

namespace Calendar.InWords

/-- The year within a cycle, for a day of the cycle. -/
def yearOfCycle? (day : UInt32) : Option UInt32 := do
  let shortened ← Word32.subtract? day (day / 1460)
  let lengthened ← Word32.add? shortened (day / 36524)
  let common ← Word32.subtract? lengthened (day / 146096)
  return common / 365

/-- The day within a year that begins in March, for a day of the cycle and its year. -/
def dayOfYear? (day year : UInt32) : Option UInt32 := do
  let common ← Word32.multiply? 365 year
  let lengthened ← Word32.add? common (year / 4)
  let before ← Word32.subtract? lengthened (year / 100)
  Word32.subtract? day before

/-- The month within a year that begins in March, for a day of that year. -/
def monthOfYear? (dayOfYear : UInt32) : Option UInt32 := do
  let scaled ← Word32.multiply? 5 dayOfYear
  let rounded ← Word32.add? scaled 2
  return rounded / 153

/-- The day of the month, for a day of a year that begins in March and its month. -/
def dayOfMonth? (dayOfYear month : UInt32) : Option UInt32 := do
  let scaled ← Word32.multiply? 153 month
  let rounded ← Word32.add? scaled 2
  let earlier ← Word32.subtract? dayOfYear (rounded / 5)
  Word32.add? earlier 1

/-- The usual number of a month that is counted from March. -/
def usualMonth? (month : UInt32) : Option UInt32 :=
  if month < 10 then Word32.add? month 3 else Word32.subtract? month 9

/-- The usual year of a month, for a cycle and a year of it that begins in March. -/
def usualYear? (cycle : Int64) (year month : UInt32) : Option Int64 := do
  let cycles ← SignedWord64.multiply? cycle 400
  let begun ← SignedWord64.add? (Int64.ofNat year.toNat) cycles
  SignedWord64.add? begun (if month ≤ 2 then 1 else 0)

/-- A date in the words in which its fields are computed. -/
structure WordDate where
  year : Int64
  month : UInt32
  day : UInt32

/-- The date of a day of a cycle. -/
def date? (cycle : Int64) (day : UInt32) : Option WordDate := do
  let year ← yearOfCycle? day
  let place ← dayOfYear? day year
  let month ← monthOfYear? place
  let dayOfMonth ← dayOfMonth? place month
  let usualMonth ← usualMonth? month
  let usualYear ← usualYear? cycle year usualMonth
  return ⟨usualYear, usualMonth, dayOfMonth⟩

end Calendar.InWords

namespace Timestamp

/-- The point of time that many seconds after 1970-01-01, if no step on the way leaves its
word. -/
def ofUnixInWords? (seconds : UInt64) (millisecond : UInt32) : Option Timestamp := do
  let shifted ← SignedWord64.add? (seconds / 86400).toInt64 719468
  -- Quotient and remainder are those with a remainder that is never negative.
  let cycle := Int64.ofInt (shifted.toInt / 146097)
  let day := UInt32.ofNat (shifted.toInt % 146097).toNat
  let date ← Calendar.InWords.date? cycle day
  return {
    -- The year alone is cut down to the lower half of its word.
    year := UInt32.ofInt date.year.toInt
    month := date.month.toNat
    day := date.day.toNat
    hour := (seconds / 3600 % 24).toNat
    minute := (seconds / 60 % 60).toNat
    second := (seconds % 60).toNat
    millisecond := millisecond.toNat }

end Timestamp

end ContractScript
