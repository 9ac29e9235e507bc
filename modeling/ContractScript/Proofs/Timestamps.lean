import ContractScript.Proofs.Dates
import ContractScript.Timestamp.Words

/-!
# The calendar fields of every point of time

Machine words are wide enough for every point of time that a clock of 64 bits can show.
Each step of the computation finds its exact result in the word that holds it, since the
days of a cycle, their years and their months stay far below the limits, no difference goes
below zero, and the cycles of 64 bits of seconds are few. So the fields are those of the
closed form, and these are exact: the date exists and has as many days in front of it as the
clock says, the time is what remains of the day, and only the year is cut down to its word.
-/

namespace ContractScript

namespace Word32

/-- A result that a word without a sign holds is found in it: it is a natural number below the
limit, so that neither bound of the check is missed. -/
theorem exists_ofExact? {result : Int} {number : Nat} (exactly : result = number)
    (small : number < UInt32.size) :
    ∃ word, ofExact? result = some word ∧ word.toNat = number := by
  subst exactly
  refine ⟨UInt32.ofNat number, ?_, UInt32.toNat_ofNat_of_lt' small⟩
  rw [ofExact?, if_pos ⟨Int.natCast_nonneg number, by omega⟩, Int.toNat_natCast]

section Operations

variable {first second : UInt32}

/-- Two words are added if their sum is below the limit. -/
theorem exists_add? (small : first.toNat + second.toNat < UInt32.size) :
    ∃ sum, add? first second = some sum ∧ sum.toNat = first.toNat + second.toNat :=
  exists_ofExact? rfl small

/-- A word is subtracted from one that is not smaller. -/
theorem exists_subtract? (ordered : second.toNat ≤ first.toNat) :
    ∃ difference, subtract? first second = some difference ∧
      difference.toNat = first.toNat - second.toNat := by
  have bounded := first.toNat_lt
  exact exists_ofExact? (by omega) (by simp only [UInt32.size]; omega)

/-- Two words are multiplied if their product is below the limit. -/
theorem exists_multiply? (small : first.toNat * second.toNat < UInt32.size) :
    ∃ product, multiply? first second = some product ∧
      product.toNat = first.toNat * second.toNat :=
  exists_ofExact? rfl small

end Operations

/-- A natural number is cut down to a word as it is as an integer. -/
theorem ofInt_natCast (number : Nat) : UInt32.ofInt number = UInt32.ofNat number := by
  have remainder : ((number : Int) % 2 ^ 32).toNat = number % 2 ^ 32 := by omega
  rw [UInt32.ofInt, remainder, UInt32.ofNat_mod_size]

end Word32

namespace SignedWord64

/-- A result between the limits of a word with a sign is found in it, and keeps its value. -/
theorem exists_ofExact? {result : Int} (above : -2 ^ 63 ≤ result) (below : result < 2 ^ 63) :
    ∃ word, ofExact? result = some word ∧ word.toInt = result := by
  refine ⟨Int64.ofInt result, ?_, Int64.toInt_ofInt_of_le above below⟩
  rw [ofExact?, Int64.toInt_minValue, Int64.toInt_maxValue, if_pos ⟨above, by omega⟩]

/-- Words are added if their sum is within the limits. -/
theorem exists_add? {first second : Int64} (above : -2 ^ 63 ≤ first.toInt + second.toInt)
    (below : first.toInt + second.toInt < 2 ^ 63) :
    ∃ sum, add? first second = some sum ∧ sum.toInt = first.toInt + second.toInt :=
  exists_ofExact? above below

/-- Words are multiplied if their product is within the limits. -/
theorem exists_multiply? {first second : Int64} (above : -2 ^ 63 ≤ first.toInt * second.toInt)
    (below : first.toInt * second.toInt < 2 ^ 63) :
    ∃ product, multiply? first second = some product ∧
      product.toInt = first.toInt * second.toInt :=
  exists_ofExact? above below

end SignedWord64

namespace Calendar.InWords

section Steps

variable {day year month : UInt32}

/-- The year of a day of a cycle is found in words. The leap days that are taken away are
fewer than the days so far, and with the century days added back the sum is still below a
cycle and a century. -/
theorem exists_yearOfCycle? (inCycle : day.toNat < daysInCycle) :
    ∃ year, yearOfCycle? day = some year ∧ year.toNat = yearOfCycle day.toNat := by
  have leapDays : (day / 1460).toNat = day.toNat / 1460 := by simp
  have centuries : (day / 36524).toNat = day.toNat / 36524 := by simp
  have last : (day / 146096).toNat = day.toNat / 146096 := by simp
  unfold daysInCycle at inCycle
  obtain ⟨shortened, subtracted, shortenedIs⟩ :=
    Word32.exists_subtract? (by omega : (day / 1460).toNat ≤ day.toNat)
  obtain ⟨lengthened, added, lengthenedIs⟩ := Word32.exists_add?
    (by simp only [UInt32.size]; omega : shortened.toNat + (day / 36524).toNat < UInt32.size)
  obtain ⟨common, subtractedAgain, commonIs⟩ :=
    Word32.exists_subtract? (by omega : (day / 146096).toNat ≤ lengthened.toNat)
  refine ⟨common / 365, ?_, ?_⟩
  · simp only [yearOfCycle?, bind, Option.bind_eq_some_iff]
    exact ⟨shortened, subtracted, lengthened, added, common, subtractedAgain, rfl⟩
  · have years : (common / 365).toNat = common.toNat / 365 := by simp
    rw [years, commonIs, lengthenedIs, shortenedIs, leapDays, centuries, last,
      Calendar.yearOfCycle]

/-- The day of the year is found in words, if the year begins with the day or before it.
The days before the year are a product, a sum and a difference in the words; the last
difference takes them from the day, and this is where the beginning of the year is
needed. -/
theorem exists_dayOfYear? (inCycle : year.toNat < 400)
    (begun : daysBeforeYearOfCycle year.toNat ≤ day.toNat) :
    ∃ found, dayOfYear? day year = some found ∧
      found.toNat = day.toNat - daysBeforeYearOfCycle year.toNat := by
  have quarters : (year / 4).toNat = year.toNat / 4 := by simp
  have centuries : (year / 100).toNat = year.toNat / 100 := by simp
  have factor : (365 : UInt32).toNat = 365 := rfl
  obtain ⟨common, multiplied, commonIs⟩ := Word32.exists_multiply?
    (by simp only [UInt32.size, factor]; omega : (365 : UInt32).toNat * year.toNat < UInt32.size)
  rw [factor] at commonIs
  obtain ⟨lengthened, added, lengthenedIs⟩ := Word32.exists_add?
    (by simp only [UInt32.size]; omega : common.toNat + (year / 4).toNat < UInt32.size)
  obtain ⟨before, subtracted, beforeIs⟩ :=
    Word32.exists_subtract? (by omega : (year / 100).toNat ≤ lengthened.toNat)
  rw [lengthenedIs, commonIs, quarters, centuries] at beforeIs
  have counted : before.toNat = daysBeforeYearOfCycle year.toNat := beforeIs
  obtain ⟨found, subtractedAgain, foundIs⟩ :=
    Word32.exists_subtract? (by omega : before.toNat ≤ day.toNat)
  refine ⟨found, ?_, by rw [foundIs, counted]⟩
  simp only [dayOfYear?, bind, Option.bind_eq_some_iff]
  exact ⟨common, multiplied, lengthened, added, before, subtracted, subtractedAgain⟩

/-- The month of a day of a year is found in words: the scaled day and the rounding term
are small, and the division never fails. -/
theorem exists_monthOfYear? (inYear : day.toNat < 366) :
    ∃ month, monthOfYear? day = some month ∧ month.toNat = monthOfYear day.toNat := by
  have factor : (5 : UInt32).toNat = 5 := rfl
  have half : (2 : UInt32).toNat = 2 := rfl
  obtain ⟨scaled, multiplied, scaledIs⟩ := Word32.exists_multiply?
    (by simp only [UInt32.size, factor]; omega : (5 : UInt32).toNat * day.toNat < UInt32.size)
  rw [factor] at scaledIs
  obtain ⟨rounded, added, roundedIs⟩ := Word32.exists_add?
    (by simp only [UInt32.size, half]; omega : scaled.toNat + (2 : UInt32).toNat < UInt32.size)
  rw [half, scaledIs] at roundedIs
  refine ⟨rounded / 153, ?_, ?_⟩
  · simp only [monthOfYear?, bind, Option.bind_eq_some_iff]
    exact ⟨scaled, multiplied, rounded, added, rfl⟩
  · have months : (rounded / 153).toNat = rounded.toNat / 153 := by simp
    rw [months, roundedIs, monthOfYear]

/-- The day of the month is found in words, if the month begins with the day or before it.
As for the year, the days before the month are found first and taken from the day; days
are counted from one. -/
theorem exists_dayOfMonth? (counted : month.toNat ≤ 11) (inYear : day.toNat < 366)
    (begun : daysBeforeMonthOfYear month.toNat ≤ day.toNat) :
    ∃ found, dayOfMonth? day month = some found ∧
      found.toNat = day.toNat - daysBeforeMonthOfYear month.toNat + 1 := by
  have factor : (153 : UInt32).toNat = 153 := rfl
  have half : (2 : UInt32).toNat = 2 := rfl
  have one : (1 : UInt32).toNat = 1 := rfl
  obtain ⟨scaled, multiplied, scaledIs⟩ := Word32.exists_multiply?
    (by simp only [UInt32.size, factor]; omega : (153 : UInt32).toNat * month.toNat < UInt32.size)
  rw [factor] at scaledIs
  obtain ⟨rounded, added, roundedIs⟩ := Word32.exists_add?
    (by simp only [UInt32.size, half]; omega : scaled.toNat + (2 : UInt32).toNat < UInt32.size)
  rw [half, scaledIs] at roundedIs
  have fifth : (rounded / 5).toNat = daysBeforeMonthOfYear month.toNat := by
    have divided : (rounded / 5).toNat = rounded.toNat / 5 := by simp
    rw [divided, roundedIs, daysBeforeMonthOfYear]
  obtain ⟨earlier, subtracted, earlierIs⟩ :=
    Word32.exists_subtract? (by omega : (rounded / 5).toNat ≤ day.toNat)
  obtain ⟨found, addedOne, foundIs⟩ := Word32.exists_add?
    (by simp only [UInt32.size, one]; omega : earlier.toNat + (1 : UInt32).toNat < UInt32.size)
  refine ⟨found, ?_, by rw [foundIs, earlierIs, fifth, one]⟩
  simp only [dayOfMonth?, bind, Option.bind_eq_some_iff]
  exact ⟨scaled, multiplied, rounded, added, earlier, subtracted, addedOne⟩

/-- The usual number of a month is found in words. The months from March to December move
up by three, and the last two, which are at least ten, move down by nine. -/
theorem exists_usualMonth? (counted : month.toNat ≤ 11) :
    ∃ found, usualMonth? month = some found ∧ found.toNat = usualMonth month.toNat := by
  have three : (3 : UInt32).toNat = 3 := rfl
  have nine : (9 : UInt32).toNat = 9 := rfl
  have later : month < 10 ↔ month.toNat < 10 := UInt32.lt_iff_toNat_lt
  unfold usualMonth? usualMonth
  by_cases sameYear : month.toNat < 10
  · rw [if_pos (later.mpr sameYear), if_pos sameYear]
    exact Word32.exists_add? (by simp only [UInt32.size, three]; omega)
  · rw [if_neg (mt later.mp sameYear), if_neg sameYear]
    exact Word32.exists_subtract? (by rw [nine]; omega)

/-- The usual year is found in words, unless the cycles are too many. Four hundred times
the cycles, the year in the cycle and one more for the first two months add up without
leaving the word, because each part is far from the limit. -/
theorem exists_usualYear? {cycle : Int64} (begun : 0 ≤ cycle.toInt) (few : cycle.toInt < 2 ^ 48)
    (inCycle : year.toNat < 400) :
    ∃ found, usualYear? cycle year month = some found ∧
      found.toInt = year.toNat + 400 * cycle.toInt + if month.toNat ≤ 2 then 1 else 0 := by
  have factor : (400 : Int64).toInt = 400 := rfl
  have years : (Int64.ofNat year.toNat).toInt = year.toNat := Int64.toInt_ofNat_of_lt (by omega)
  have next : (if month ≤ 2 then 1 else 0 : Int64).toInt = if month.toNat ≤ 2 then 1 else 0 := by
    have early : month ≤ 2 ↔ month.toNat ≤ 2 := UInt32.le_iff_toNat_le
    simp only [early]
    split <;> rfl
  have atMostOne : (0 : Int) ≤ (if month.toNat ≤ 2 then 1 else 0) ∧
      (if month.toNat ≤ 2 then 1 else 0 : Int) ≤ 1 := by
    split <;> decide
  obtain ⟨cycles, multiplied, cyclesIs⟩ := SignedWord64.exists_multiply?
    (by rw [factor]; omega : -2 ^ 63 ≤ cycle.toInt * (400 : Int64).toInt) (by rw [factor]; omega)
  rw [factor] at cyclesIs
  obtain ⟨march, added, marchIs⟩ := SignedWord64.exists_add?
    (by omega : -2 ^ 63 ≤ (Int64.ofNat year.toNat).toInt + cycles.toInt) (by omega)
  obtain ⟨found, addedNext, foundIs⟩ := SignedWord64.exists_add?
    (by omega : -2 ^ 63 ≤ march.toInt + (if month ≤ 2 then 1 else 0 : Int64).toInt) (by omega)
  refine ⟨found, ?_, ?_⟩
  · simp only [usualYear?, bind, Option.bind_eq_some_iff]
    exact ⟨cycles, multiplied, march, added, addedNext⟩
  · rw [foundIs, marchIs, years, cyclesIs, next]
    omega

end Steps

/-- The date of a day of a cycle is found in words: each step meets the bounds of the next
one, because the day has its place in a year of the cycle and in a month of this year. -/
theorem exists_date? {cycle : Int64} {day : UInt32} (begun : 0 ≤ cycle.toInt)
    (few : cycle.toInt < 2 ^ 48) (inCycle : day.toNat < daysInCycle) :
    ∃ found, date? cycle day = some found ∧
      let date := Date.fromMarch (yearOfCycle day.toNat + 400 * cycle.toInt.toNat)
        (dayOfYear day.toNat)
      found.year.toInt = date.year ∧ found.month.toNat = date.month ∧
        found.day.toNat = date.day := by
  obtain ⟨yearInCycle, joined, inYear⟩ := dayOfYear_spec inCycle
  have length := daysInYear_cases (yearOfCycle day.toNat + 1)
  obtain ⟨counted, before, _⟩ := monthOfYear_spec (by omega : dayOfYear day.toNat < 366)
  obtain ⟨year, yearFound, yearIs⟩ := exists_yearOfCycle? inCycle
  rw [← yearIs] at yearInCycle joined
  obtain ⟨place, placeFound, placeIs⟩ :=
    exists_dayOfYear? yearInCycle (by omega : daysBeforeYearOfCycle year.toNat ≤ day.toNat)
  have placeIs : place.toNat = dayOfYear day.toNat := by omega
  rw [← placeIs] at counted before
  obtain ⟨month, monthFound, monthIs⟩ := exists_monthOfYear? (by omega : place.toNat < 366)
  rw [← monthIs] at counted before
  obtain ⟨dayOfMonth, dayFound, dayIs⟩ :=
    exists_dayOfMonth? counted (by omega : place.toNat < 366) before
  obtain ⟨usual, usualFound, usualIs⟩ := exists_usualMonth? counted
  obtain ⟨fullYear, fullYearFound, fullYearIs⟩ := exists_usualYear? begun few yearInCycle
  refine ⟨⟨fullYear, usual, dayOfMonth⟩, ?_, ?_, ?_, ?_⟩
  · simp only [date?, bind, Option.bind_eq_some_iff]
    exact ⟨year, yearFound, place, placeFound, month, monthFound, dayOfMonth, dayFound, usual,
      usualFound, fullYear, fullYearFound, rfl⟩
  · rw [fullYearIs, usualIs, monthIs, placeIs, yearIs]
    simp only [Date.fromMarch, usualYear]
    split <;> omega
  · rw [usualIs, monthIs, placeIs, Date.fromMarch]
  · rw [dayIs, monthIs, placeIs]
    rfl

end Calendar.InWords

namespace Timestamp

open Calendar

/-- The days that 64 bits of seconds make up keep their number as a word with a sign,
since the division leaves the sign bit unset. -/
theorem toInt_days (seconds : UInt64) :
    (seconds / 86400).toInt64.toInt = (seconds.toNat / 86400 : Nat) := by
  have bounded := seconds.toNat_lt
  have divided : (seconds / 86400).toNat = seconds.toNat / 86400 := by simp
  calc
    (seconds / 86400).toInt64.toInt = (UInt64.ofNat (seconds.toNat / 86400)).toInt64.toInt := by
      rw [← divided, UInt64.ofNat_toNat]
    _ = (Int64.ofNat (seconds.toNat / 86400)).toInt := by
      rw [UInt64.toInt64_ofNat']
    _ = (seconds.toNat / 86400 : Nat) :=
      Int64.toInt_ofNat_of_lt (by omega)

/-- The days since the beginning of the calendar are found in words, and they are few:
even the last second of the clock has fewer than 2 to the 48 days in front of it, which is
what the later steps rely on. -/
theorem exists_shifted (seconds : UInt64) :
    ∃ shifted, SignedWord64.add? (seconds / 86400).toInt64 719468 = some shifted ∧
      shifted.toInt = (seconds.toNat / 86400 + daysToEpoch : Nat) ∧
      seconds.toNat / 86400 + daysToEpoch < 2 ^ 48 := by
  have bounded := seconds.toNat_lt
  have epoch : (719468 : Int64).toInt = daysToEpoch := rfl
  have days := toInt_days seconds
  unfold daysToEpoch at epoch ⊢
  obtain ⟨shifted, added, shiftedIs⟩ := SignedWord64.exists_add?
    (by omega : -2 ^ 63 ≤ (seconds / 86400).toInt64.toInt + (719468 : Int64).toInt) (by omega)
  exact ⟨shifted, added, by omega, by omega⟩

/-- The cycle of a day and its place in the cycle are found in words. The day number is
not negative, so dividing with a sign is dividing natural numbers. -/
theorem toInt_cycle_toNat_day {shifted : Int64} {number : Nat} (counted : shifted.toInt = number)
    (few : number < 2 ^ 48) :
    (Int64.ofInt (shifted.toInt / 146097)).toInt = (number / daysInCycle : Nat) ∧
      (UInt32.ofNat (shifted.toInt % 146097).toNat).toNat = number % daysInCycle := by
  rw [counted]
  unfold daysInCycle
  have small : ((number : Int) % 146097).toNat < UInt32.size := by
    simp only [UInt32.size]
    omega
  constructor
  · rw [Int64.toInt_ofInt_of_le] <;> omega
  · rw [UInt32.toNat_ofNat_of_lt' small]
    omega

/-- No step of the computation in machine words leaves its word, and the fields are those
of the computation in natural numbers.

The shifted days are found first and split into a cycle and a place in it; the date
follows from these two, and the time from the seconds alone. What the words hold is then
the date of the closed form, field by field. -/
theorem ofUnixInWords?_eq (seconds : UInt64) (millisecond : UInt32) :
    ofUnixInWords? seconds millisecond = some (ofUnix seconds.toNat millisecond.toNat) := by
  obtain ⟨shifted, added, shiftedIs, few⟩ := exists_shifted seconds
  obtain ⟨cycle, day⟩ := toInt_cycle_toNat_day shiftedIs few
  have inCycle := Nat.mod_lt (seconds.toNat / 86400 + daysToEpoch)
    (by decide : 0 < daysInCycle)
  have fewer := Nat.div_le_self (seconds.toNat / 86400 + daysToEpoch) daysInCycle
  have begun : 0 ≤ (Int64.ofInt (shifted.toInt / 146097)).toInt := by
    rw [cycle]
    exact Int.natCast_nonneg _
  obtain ⟨found, dateFound, yearIs, monthIs, dayIs⟩ :=
    InWords.exists_date? begun (by omega) (day ▸ inCycle)
  rw [cycle, Int.toNat_natCast, day] at yearIs monthIs dayIs
  have hours : (seconds / 3600 % 24).toNat = seconds.toNat / 3600 % 24 := by simp
  have minutes : (seconds / 60 % 60).toNat = seconds.toNat / 60 % 60 := by simp
  have remaining : (seconds % 60).toNat = seconds.toNat % 60 := by simp
  simp only [ofUnixInWords?, bind, Option.bind_eq_some_iff]
  refine ⟨shifted, added, found, dateFound, ?_⟩
  rw [yearIs, monthIs, dayIs, hours, minutes, remaining, ← Date.ofDayNumber_eq_fromMarch,
    Word32.ofInt_natCast]
  rfl

/-- The time of the day is made up of whole hours, minutes and seconds. -/
theorem timeOfDay_ofUnix (seconds millisecond : Nat) :
    let stamp := ofUnix seconds millisecond
    stamp.hour < 24 ∧ stamp.minute < 60 ∧ stamp.second < 60 ∧
      stamp.hour * 3600 + stamp.minute * 60 + stamp.second = seconds % 86400 := by
  simp only [ofUnix]
  omega

/-- A timestamp shows the date of the day that the clock is in. The date exists, it does
not lie before 1970, and the year is cut down to a word. This is the law of day numbers
for the whole days of the clock, none of which is negative. -/
theorem date_ofUnix (seconds millisecond : Nat) :
    let stamp := ofUnix seconds millisecond
    ∃ year, 1970 ≤ year ∧ (⟨year, stamp.month, stamp.day⟩ : Date).Valid ∧
      (⟨year, stamp.month, stamp.day⟩ : Date).dayNumber = (seconds / 86400 : Nat) ∧
      stamp.year.toNat = year % UInt32.size := by
  obtain ⟨valid, counted⟩ := Date.ofDayNumber_spec (seconds / 86400)
  refine ⟨(Date.ofDayNumber (seconds / 86400)).year, valid.le_year (by omega), valid, counted, ?_⟩
  exact UInt32.toNat_ofNat'

/-- Machine words show every second of a clock of 64 bits exactly. No sum, difference or
product on the way leaves its word; the date exists and has as many days since the beginning
of 1970 in front of it as the clock has gone through; the time is what remains of the day; and
only the year begins again after 32 bits. -/
theorem calendar_fields_are_exact (seconds : UInt64) (millisecond : UInt32) :
    ∃ stamp, ofUnixInWords? seconds millisecond = some stamp ∧
      stamp = ofUnix seconds.toNat millisecond.toNat ∧
      (∃ year, 1970 ≤ year ∧ (⟨year, stamp.month, stamp.day⟩ : Date).Valid ∧
        (⟨year, stamp.month, stamp.day⟩ : Date).dayNumber = (seconds.toNat / 86400 : Nat) ∧
        stamp.year.toNat = year % UInt32.size) ∧
      (stamp.hour < 24 ∧ stamp.minute < 60 ∧ stamp.second < 60 ∧
        stamp.hour * 3600 + stamp.minute * 60 + stamp.second = seconds.toNat % 86400) ∧
      stamp.millisecond = millisecond.toNat :=
  ⟨_, ofUnixInWords?_eq seconds millisecond, rfl, date_ofUnix _ _, timeOfDay_ofUnix _ _, rfl⟩

end Timestamp

end ContractScript
