import ContractScript.Calendar
import Mathlib.Tactic.IntervalCases
import Mathlib.Tactic.SplitIfs

/-!
# The date of every day

The closed form for the date of a day is exact: every day has a date that exists, and
counting whole years and months in front of this date gives the day again.

A cycle of 400 years is walked day by day, in years that begin in March. That shows that
every day of the cycle lies in one of its years, and the quotients of the closed form only
have to be right inside a year. Counted from the March of year zero, the days in front of a
year are a sum of quotients, and each month begins where the closed form says. Both counts
differ by the sixty days that January and February of year zero take.
-/

namespace ContractScript.Calendar

/-- The days of a year. -/
def daysInYear (year : Nat) : Nat :=
  if isLeap year then 366 else 365

/-- A year has a leap day by its number. -/
theorem isLeap_iff (year : Nat) :
    isLeap year = true ↔ year % 4 = 0 ∧ (year % 100 ≠ 0 ∨ year % 400 = 0) := by
  simp [isLeap]

/-- The two lengths of a year, and the years that have them. It is stated by remainders
only, so that the laws about quotients below are linear. -/
theorem daysInYear_cases (year : Nat) :
    (daysInYear year = 366 ∧ year % 4 = 0 ∧ (year % 100 = 0 → year % 400 = 0)) ∨
      (daysInYear year = 365 ∧ (year % 4 = 0 → year % 100 = 0 ∧ year % 400 ≠ 0)) := by
  unfold daysInYear
  by_cases leap : isLeap year = true
  · rw [if_pos leap]
    rw [isLeap_iff] at leap
    omega
  · rw [if_neg leap]
    rw [isLeap_iff] at leap
    omega

section Cycle

/-!
A year that begins in March ends with the leap day of the next year, so it is as long as
that one.
-/

variable {year day : Nat}

/-- The next year of a cycle begins where a year ends. The last year of a cycle is left
out: behind it the quotient by 100 would take one day too many. -/
theorem daysBeforeYearOfCycle_succ (inCycle : year + 1 < 400) :
    daysBeforeYearOfCycle (year + 1) = daysBeforeYearOfCycle year + daysInYear (year + 1) := by
  have length := daysInYear_cases (year + 1)
  unfold daysBeforeYearOfCycle
  omega

/-- Every day of a cycle lies in one of its years. Walk from day to day: the day after the
last day of a year is the first of the next one. The walk cannot leave the last year,
because that ends with the cycle. -/
theorem exists_year_of_day (inCycle : day < daysInCycle) :
    ∃ year offset, year < 400 ∧ offset < daysInYear (year + 1) ∧
      daysBeforeYearOfCycle year + offset = day := by
  induction day with
  | zero => exact ⟨0, 0, by decide, by decide, rfl⟩
  | succ day inductionHypothesis =>
    obtain ⟨year, offset, yearInCycle, inYear, rfl⟩ := inductionHypothesis (by omega)
    by_cases last : offset + 1 = daysInYear (year + 1)
    · have more : year + 1 < 400 := by
        apply Nat.lt_of_le_of_ne yearInCycle
        intro full
        have lastYear : year = 399 := by omega
        have wholeCycle : daysBeforeYearOfCycle 399 + daysInYear (399 + 1) = daysInCycle := by
          decide
        rw [lastYear] at inCycle last
        omega
      have next := daysBeforeYearOfCycle_succ more
      refine ⟨year + 1, 0, more, ?_, by omega⟩
      have length := daysInYear_cases (year + 1 + 1)
      omega
    · exact ⟨year, offset + 1, yearInCycle, by omega, rfl⟩

variable (inCycle : year < 400) (inYear : day < daysInYear (year + 1))

include inCycle inYear

/-- A day lies in the century of its year. Only the last day of a cycle is one too many
for the last century, and it alone is taken out again.

Apart from that day the place in the cycle is written as centuries and a rest. The rest is
smaller than a century, because the last year of a century has no leap day. -/
theorem centuries_of_day :
    (daysBeforeYearOfCycle year + day) / 36524 =
      year / 100 + (daysBeforeYearOfCycle year + day) / 146096 := by
  have length := daysInYear_cases (year + 1)
  by_cases last : year = 399 ∧ day = 365
  · obtain ⟨rfl, rfl⟩ := last
    decide
  · have whole : daysBeforeYearOfCycle year + day =
        36524 * (year / 100) + (365 * (year % 100) + year % 100 / 4 + day) := by
      unfold daysBeforeYearOfCycle
      omega
    have within : 365 * (year % 100) + year % 100 / 4 + day < 36524 := by omega
    have cycle : daysBeforeYearOfCycle year + day < 146096 := by omega
    rw [Nat.div_eq_of_lt cycle, whole, Nat.mul_add_div (by decide), Nat.div_eq_of_lt within]

/-- The quotients of the closed form find the year of a day. One day for every 1460 is
taken out, which is never more than the leap days in front of the day and the days of its
own year. What remains lies between 365 times the year and 365 times the next one. -/
theorem yearOfCycle_eq : yearOfCycle (daysBeforeYearOfCycle year + day) = year := by
  have length := daysInYear_cases (year + 1)
  have centuries := centuries_of_day inCycle inYear
  unfold yearOfCycle
  generalize position : daysBeforeYearOfCycle year + day = total at centuries
  unfold daysBeforeYearOfCycle at position
  have leapDays : total / 1460 ≤ year / 4 + day ∧ year / 4 + day < total / 1460 + 365 := by
    omega
  omega

end Cycle

/-- Every day of a cycle has a place in a year of the cycle. The walk supplies the year,
and the closed form finds the same one. -/
theorem dayOfYear_spec {day : Nat} (inCycle : day < daysInCycle) :
    yearOfCycle day < 400 ∧ daysBeforeYearOfCycle (yearOfCycle day) + dayOfYear day = day ∧
      dayOfYear day < daysInYear (yearOfCycle day + 1) := by
  obtain ⟨year, offset, yearInCycle, inYear, rfl⟩ := exists_year_of_day inCycle
  unfold dayOfYear
  rw [yearOfCycle_eq yearInCycle inYear, Nat.add_sub_cancel_left]
  exact ⟨yearInCycle, rfl, inYear⟩

section Months

/-- The days of a year that begins in March in front of one of its months. -/
def daysBeforeMonthOfYear (month : Nat) : Nat :=
  (153 * month + 2) / 5

/-- The usual year of a month that is counted from March. -/
def usualYear (year month : Nat) : Nat :=
  year + if usualMonth month ≤ 2 then 1 else 0

/-- A day lies in the month that the closed form finds for it; the last month has no end,
because the length of February is not in the closed form. -/
theorem monthOfYear_spec {day : Nat} (inYear : day < 366) :
    monthOfYear day ≤ 11 ∧ daysBeforeMonthOfYear (monthOfYear day) ≤ day ∧
      (monthOfYear day ≤ 10 → day < daysBeforeMonthOfYear (monthOfYear day + 1)) := by
  unfold monthOfYear daysBeforeMonthOfYear
  omega

/-- The months from March to January are as long as the closed form says, in every year.
These are eleven months, and the leap day is in none of them. -/
theorem daysInMonth_usualMonth (year : Nat) {month : Nat} (noFebruary : month ≤ 10) :
    daysBeforeMonthOfYear month + daysInMonth year (usualMonth month) =
      daysBeforeMonthOfYear (month + 1) := by
  interval_cases month <;> rfl

/-- The end of February is the end of a year that begins in March. -/
theorem daysInMonth_february (year : Nat) :
    daysBeforeMonthOfYear 11 + daysInMonth year 2 = daysInYear year := by
  unfold daysInMonth daysInYear
  cases isLeap year <;> rfl

/-- The days of the year in front of a month end with the month before. -/
theorem daysBeforeMonth_succ (year : Nat) {month : Nat} (counted : 1 ≤ month) :
    daysBeforeMonth year (month + 1) = daysBeforeMonth year month + daysInMonth year month := by
  have nonzero : month ≠ 0 := by omega
  rw [daysBeforeMonth, if_neg nonzero]

/-- The months make up the year. -/
theorem daysBeforeMonth_thirteen (year : Nat) : daysBeforeMonth year 13 = daysInYear year := by
  unfold daysInYear
  cases leap : isLeap year <;> simp [daysBeforeMonth, daysInMonth, leap]

/-- The days in front of a later month are no fewer. By induction from the earlier month
on. -/
theorem daysBeforeMonth_mono (year : Nat) {first second : Nat} (ordered : first ≤ second) :
    daysBeforeMonth year first ≤ daysBeforeMonth year second := by
  induction ordered with
  | refl => exact Nat.le_refl _
  | step _ inductionHypothesis =>
    apply Nat.le_trans inductionHypothesis
    rw [daysBeforeMonth]
    split
    next zero => simp [zero, daysBeforeMonth]
    · exact Nat.le_add_right _ _

end Months

section Counting

/-- The days from the first of March of year zero to that of another year. -/
def daysBeforeMarch (year : Nat) : Nat :=
  365 * year + year / 4 - year / 100 + year / 400

/-- March comes again after as many days as the next year has. The quotients by 4, 100 and
400 grow exactly at the years that these numbers divide, and that is the rule for leap
days. -/
theorem daysBeforeMarch_succ (year : Nat) :
    daysBeforeMarch (year + 1) = daysBeforeMarch year + daysInYear (year + 1) := by
  have length := daysInYear_cases (year + 1)
  have centuries : year / 100 ≤ year / 4 := Nat.div_le_div_left (by decide) (by decide)
  -- Each quotient grows by one exactly if its divisor divides the next year.
  simp only [daysBeforeMarch, Nat.succ_div]
  split_ifs <;> omega

/-- The days of all years up to a year: those up to March, and the 306 from March on, and
the sixty of the first January and February. By induction on the year, both sides of which
grow by the length of the next one. -/
theorem daysBeforeYear_succ (year : Nat) :
    daysBeforeYear (year + 1) = daysBeforeMarch year + 366 := by
  induction year with
  | zero => rfl
  | succ year inductionHypothesis =>
    have more : daysBeforeYear (year + 1 + 1) =
        daysBeforeYear (year + 1) + daysInYear (year + 1) := rfl
    rw [more, inductionHypothesis, daysBeforeMarch_succ]
    omega

/-- The days in front of a later year are no fewer. -/
theorem daysBeforeYear_mono {first second : Nat} (ordered : first ≤ second) :
    daysBeforeYear first ≤ daysBeforeYear second := by
  induction ordered with
  | refl => exact Nat.le_refl _
  | step _ inductionHypothesis => exact Nat.le_trans inductionHypothesis (Nat.le_add_right _ _)

/-- March begins 306 days before the next year, with or without a leap day, as this stands
in front of March. -/
theorem daysBeforeYear_march (year : Nat) :
    daysBeforeYear year + daysBeforeMonth year 3 = daysBeforeMarch year + 60 := by
  have more : daysBeforeYear (year + 1) = daysBeforeYear year + daysInYear year := rfl
  have march : daysBeforeMonth year 3 + 306 = daysInYear year := by
    unfold daysInYear
    cases leap : isLeap year <;> simp [daysBeforeMonth, daysInMonth, leap]
  rw [daysBeforeYear_succ] at more
  omega

/-- The months from March to December begin where the closed form says, because each of
them is as long as it says. By induction on the month. -/
theorem daysBeforeMonth_from_march (year : Nat) {month : Nat} (sameYear : month ≤ 9) :
    daysBeforeMonth year (month + 3) = daysBeforeMonth year 3 + daysBeforeMonthOfYear month := by
  induction month with
  | zero => rfl
  | succ month inductionHypothesis =>
    have before := inductionHypothesis (by omega)
    have length := daysInMonth_usualMonth year (by omega : month ≤ 10)
    have usual : usualMonth month = month + 3 := if_pos (by omega)
    rw [usual] at length
    rw [Nat.add_right_comm, daysBeforeMonth_succ year (by omega), before]
    omega

/-- Every month begins where the closed form says. The first ten lie in the year in which
they are counted, and the last two in the next one, at its start and behind its
January. -/
theorem daysBefore_usualMonth (year : Nat) {month : Nat} (inYear : month ≤ 11) :
    daysBeforeYear (usualYear year month) +
        daysBeforeMonth (usualYear year month) (usualMonth month) =
      daysBeforeMarch year + 60 + daysBeforeMonthOfYear month := by
  by_cases sameYear : month ≤ 9
  · have usual : usualMonth month = month + 3 := if_pos (by omega)
    have march := daysBeforeYear_march year
    rw [usualYear, usual, if_neg (by omega), Nat.add_zero, daysBeforeMonth_from_march year sameYear]
    omega
  · have next := daysBeforeYear_succ year
    obtain rfl | rfl : month = 10 ∨ month = 11 := by omega
    · exact congrArg (· + daysBeforeMonth (year + 1) 1) next
    · exact congrArg (· + daysBeforeMonth (year + 1) 2) next

/-- Cycles repeat the days in front of March. -/
theorem daysBeforeMarch_add_cycles {year : Nat} (inCycle : year < 400) (cycles : Nat) :
    daysBeforeMarch (year + 400 * cycles) =
      daysInCycle * cycles + daysBeforeYearOfCycle year := by
  unfold daysBeforeMarch daysInCycle daysBeforeYearOfCycle
  omega

/-- Cycles repeat the lengths of the years. -/
theorem daysInYear_add_cycles (year cycles : Nat) :
    daysInYear (year + 400 * cycles) = daysInYear year := by
  have length := daysInYear_cases year
  have repeated := daysInYear_cases (year + 400 * cycles)
  omega

/-- A day lies in the month that is found for it, February included. The end of February
is the end of the year; all other months end where the closed form has the next one
begin. -/
theorem day_lt_end_of_month {year day : Nat} (inYear : day < daysInYear (year + 1)) :
    day < daysBeforeMonthOfYear (monthOfYear day) +
      daysInMonth (usualYear year (monthOfYear day)) (usualMonth (monthOfYear day)) := by
  have length := daysInYear_cases (year + 1)
  obtain ⟨counted, _, ended⟩ := monthOfYear_spec (by omega : day < 366)
  by_cases february : monthOfYear day = 11
  · rw [february]
    exact Nat.lt_of_lt_of_eq inYear (daysInMonth_february (year + 1)).symm
  · rw [daysInMonth_usualMonth _ (by omega)]
    exact ended (by omega)

end Counting

namespace Date

/-- The date of a day in a year that begins in March. -/
def fromMarch (year day : Nat) : Date :=
  ⟨usualYear year (monthOfYear day), usualMonth (monthOfYear day), dayOfMonth day⟩

/-- The date of a day in a year that begins in March exists, and it has as many days in
front of it as the year and the day say.

It exists because the day lies in its month. Its number is the day at which the month
begins, counted from the first March of all, and the days of the month in front of it. -/
theorem fromMarch_spec {year day : Nat} (inYear : day < daysInYear (year + 1)) :
    (fromMarch year day).Valid ∧
      (fromMarch year day).dayNumber = (daysBeforeMarch year + day : Int) - daysToEpoch := by
  have length := daysInYear_cases (year + 1)
  obtain ⟨counted, begun, _⟩ := monthOfYear_spec (by omega : day < 366)
  have ends := day_lt_end_of_month inYear
  have usual : 1 ≤ usualMonth (monthOfYear day) ∧ usualMonth (monthOfYear day) ≤ 12 := by
    unfold usualMonth
    split <;> omega
  have offset : dayOfMonth day = day - daysBeforeMonthOfYear (monthOfYear day) + 1 := rfl
  constructor
  · refine ⟨usual.1, usual.2, ?_, ?_⟩
    · exact Nat.le_add_left 1 _
    · simp only [fromMarch, offset]
      omega
  · have before := daysBefore_usualMonth year counted
    have epoch : daysBeforeYear 1970 = daysToEpoch + 60 := daysBeforeYear_succ 1969
    simp only [dayNumber, fromMarch, offset, epoch]
    omega

/-- The date of a day is found by its place in a cycle. -/
theorem ofDayNumber_eq_fromMarch (number : Nat) :
    ofDayNumber number = fromMarch
      (yearOfCycle ((number + daysToEpoch) % daysInCycle) +
        400 * ((number + daysToEpoch) / daysInCycle))
      (dayOfYear ((number + daysToEpoch) % daysInCycle)) :=
  rfl

/-- The date that is found for a day exists, and its number is that of the day.

The day is a number of whole cycles and a place in one, and the place a year of the cycle
and a day in it. Cycles repeat the lengths of years and add up the days in front of March,
so the law about years that begin in March gives both parts. -/
theorem ofDayNumber_spec (number : Nat) :
    (ofDayNumber number).Valid ∧ (ofDayNumber number).dayNumber = number := by
  have positive : 0 < daysInCycle := by decide
  have cycles := Nat.div_add_mod (number + daysToEpoch) daysInCycle
  obtain ⟨yearInCycle, joined, inYear⟩ :=
    dayOfYear_spec (Nat.mod_lt (number + daysToEpoch) positive)
  rw [← daysInYear_add_cycles _ ((number + daysToEpoch) / daysInCycle),
    Nat.add_right_comm] at inYear
  obtain ⟨valid, counted⟩ := fromMarch_spec inYear
  rw [ofDayNumber_eq_fromMarch]
  refine ⟨valid, ?_⟩
  rw [counted, daysBeforeMarch_add_cycles yearInCycle]
  omega

/-- The leap day of a century that divides by 400 is found, and the day behind it. -/
example : ofDayNumber 11016 = ⟨2000, 2, 29⟩ ∧ ofDayNumber 11017 = ⟨2000, 3, 1⟩ := by decide

/-- A date that exists lies within the days of its year, since its month ends at the
latest where the year does. -/
theorem Valid.le_daysInYear {date : Date} (valid : date.Valid) :
    daysBeforeMonth date.year date.month + date.day ≤ daysInYear date.year := by
  obtain ⟨first, last, _, ends⟩ := valid
  have next := daysBeforeMonth_succ date.year first
  have whole := daysBeforeMonth_mono date.year (by omega : date.month + 1 ≤ 13)
  rw [daysBeforeMonth_thirteen] at whole
  omega

/-- A date that exists and does not lie before the first day of 1970 lies in that year or
a later one. An earlier year would end before that day, and the date lies within its
year. -/
theorem Valid.le_year {date : Date} (valid : date.Valid) (counted : 0 ≤ date.dayNumber) :
    1970 ≤ date.year := by
  apply Nat.le_of_not_lt
  intro earlier
  have within := valid.le_daysInYear
  have more : daysBeforeYear (date.year + 1) = daysBeforeYear date.year + daysInYear date.year :=
    rfl
  have years : daysBeforeYear (date.year + 1) ≤ daysBeforeYear 1970 :=
    daysBeforeYear_mono earlier
  simp only [dayNumber] at counted
  omega

end Date

end ContractScript.Calendar
