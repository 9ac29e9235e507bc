import ContractScript.Proofs.Timestamps

/-!
# Texts of points of time in their order

As long as the year has four digits, the text of a point of time is made of seven numbers in
columns of fixed width, the greatest unit first. Such texts are ordered as the rows of their
numbers, since zeros fill up each column, and these rows as the points of time: an earlier day
has an earlier date, and within a day an earlier second an earlier time.

One direction is enough for the order and for equality, because times and texts are both
ordered in one row each.
-/

namespace ContractScript

/-- Of two rows of the same length the order does not depend on what follows them. They
differ at some place, because the one is smaller, and that place decides before the rows
end. -/
theorem append_lt_append {α : Type} [LT α] {front otherFront : List α}
    (length : front.length = otherFront.length) (ordered : front < otherFront)
    (back otherBack : List α) : front ++ back < otherFront ++ otherBack := by
  induction front generalizing otherFront with
  | nil =>
    obtain rfl : otherFront = [] := List.eq_nil_of_length_eq_zero length.symm
    exact absurd ordered (List.not_lt_nil _)
  | cons first later inductionHypothesis =>
    cases otherFront with
    | nil => cases length
    | cons otherFirst otherLater =>
      rw [List.cons_append, List.cons_append, List.cons_lt_cons_iff]
      rcases List.cons_lt_cons_iff.mp ordered with smaller | ⟨same, rest⟩
      · exact .inl smaller
      · exact .inr ⟨same, inductionHypothesis (Nat.succ.inj length) rest⟩

namespace Decimal

/-- The last digits of a number, as many as the width. -/
def lastDigits : Nat → Nat → List Char
  | 0, _ => []
  | width + 1, number => lastDigits width (number / 10) ++ [Nat.digitChar (number % 10)]

/-- There are as many digits as the width. -/
@[simp] theorem length_lastDigits (width number : Nat) :
    (lastDigits width number).length = width := by
  induction width generalizing number with
  | zero => rfl
  | succ width inductionHypothesis => simp [lastDigits, inductionHypothesis]

/-- The digits of zero are zeros. -/
theorem lastDigits_zero (width : Nat) : lastDigits width 0 = List.replicate width '0' := by
  induction width with
  | zero => rfl
  | succ width inductionHypothesis =>
    rw [lastDigits, Nat.zero_div, inductionHypothesis, List.replicate_succ']
    rfl

/-- A number takes no more digits than a column has. -/
def Fits (width number : Nat) : Prop :=
  (Nat.toDigits 10 number).length ≤ width

/-- A number fits a column without its last digit, if this is not its only one. -/
theorem Fits.div {width number : Nat} (fits : Fits (width + 1) number) (large : 10 ≤ number) :
    Fits width (number / 10) := by
  rw [Fits, Nat.toDigits_eq_if (by decide), if_neg (by omega), List.length_append,
    List.length_singleton] at fits
  exact Nat.le_of_succ_le_succ fits

/-- A number that fits a column is written with its last digits. By induction on the
width, from the right: a number of several digits is its quotient by ten with a last digit
behind it, and the quotient fits a narrower column; in front of a single digit there are
zeros only. -/
theorem toList_padded {width number : Nat} (fits : Fits width number) :
    (padded width number).toList = lastDigits width number := by
  rw [padded, String.toList_ofList, List.leftpad]
  induction width generalizing number with
  | zero => exact absurd fits (Nat.not_le_of_gt Nat.length_toDigits_pos)
  | succ width inductionHypothesis =>
    by_cases large : 10 ≤ number
    · have front := inductionHypothesis (fits.div large)
      rw [Nat.toDigits_eq_if (by decide), if_neg (by omega), lastDigits, ← front,
        List.length_append, List.length_singleton, Nat.add_sub_add_right, List.append_assoc]
    · have small : number < 10 := by omega
      rw [Nat.toDigits_of_lt_base small, lastDigits, Nat.div_eq_of_lt small, lastDigits_zero,
        Nat.mod_eq_of_lt small]
      rfl

/-- Numbers that fit a column are ordered by their digits. If the quotients by ten differ,
these are ordered already and the last digits do not matter; if not, the fronts are the
same, and the last digits are ordered as the numbers. -/
theorem lastDigits_lt {width first second : Nat} (ordered : first < second)
    (fits : Fits width second) : lastDigits width first < lastDigits width second := by
  induction width generalizing first second with
  | zero => exact absurd fits (Nat.not_le_of_gt Nat.length_toDigits_pos)
  | succ width inductionHypothesis =>
    by_cases same : first / 10 = second / 10
    · have all : ∀ lower higher : Fin 10, lower < higher →
          [Nat.digitChar lower.val] < [Nat.digitChar higher.val] := by decide
      have last := all ⟨first % 10, by omega⟩ ⟨second % 10, by omega⟩
        (Fin.mk_lt_mk.mpr (by omega))
      rw [lastDigits, lastDigits, same]
      exact List.append_left_lt last
    · have high := inductionHypothesis (by omega : first / 10 < second / 10)
        (fits.div (by omega))
      exact append_lt_append (by simp) high _ _

end Decimal

namespace Calendar.Date

/-- An earlier day has a smaller year, or a smaller month in the same year, or is a
smaller day of the same month.

A later year would begin behind all days of an earlier one, because the second day is
valid and lies within its year. In the same year the months are compared alike. What is
left are two days of one month, and their numbers differ as the days do. -/
theorem lt_of_dayNumber_lt {first second : Date} (secondValid : second.Valid)
    (earlier : first.dayNumber < second.dayNumber) :
    first.year < second.year ∨ first.year = second.year ∧
      (first.month < second.month ∨ first.month = second.month ∧ first.day < second.day) := by
  have secondWithin := secondValid.le_daysInYear
  simp only [dayNumber] at earlier
  rcases Nat.lt_trichotomy first.year second.year with before | same | after
  · exact .inl before
  · refine .inr ⟨same, ?_⟩
    rw [same] at earlier
    rcases Nat.lt_trichotomy first.month second.month with before | same | after
    · exact .inl before
    · rw [same] at earlier
      exact .inr ⟨same, by omega⟩
    · have month := daysBeforeMonth_succ second.year secondValid.1
      have later := daysBeforeMonth_mono second.year (by omega : second.month + 1 ≤ first.month)
      have ends := secondValid.2.2.2
      omega
  · have year : daysBeforeYear (second.year + 1) =
        daysBeforeYear second.year + daysInYear second.year := rfl
    have later := daysBeforeYear_mono (by omega : second.year + 1 ≤ first.year)
    omega

/-- The days before the year 10000 have years of four digits. All later years begin at or
behind day 2932897, which is the number of days between 1970 and 10000. -/
theorem Valid.year_lt {date : Date} (valid : date.Valid) (early : date.dayNumber < 2932897) :
    date.year < 10000 := by
  apply Nat.lt_of_not_le
  intro late
  have positive := valid.2.2.1
  have years := daysBeforeYear_mono late
  have last : daysBeforeYear 10000 = 3652425 := daysBeforeYear_succ 9999
  have epoch : daysBeforeYear 1970 = 719528 := daysBeforeYear_succ 1969
  simp only [dayNumber] at early
  omega

end Calendar.Date

namespace Timestamp

/-- The numbers of a text, the greatest unit first. -/
def numbers (stamp : Timestamp) : List Nat :=
  [stamp.year.toNat, stamp.month, stamp.day, stamp.hour, stamp.minute, stamp.second,
    stamp.millisecond]

/-- The columns of a text: the width of each, and the mark behind it. -/
def columns : List (Nat × String) :=
  [(4, "-"), (2, "-"), (2, " "), (2, ":"), (2, ":"), (2, "."), (3, "")]

/-- Numbers written in columns. -/
def inColumns : List (Nat × String) → List Nat → List Char
  | (width, mark) :: columns, number :: numbers =>
    Decimal.lastDigits width number ++ (mark.toList ++ inColumns columns numbers)
  | _, _ => []

/-- Numbers fit columns, one for one. -/
def Fit (columns : List (Nat × String)) (numbers : List Nat) : Prop :=
  List.Forall₂ (fun column number => Decimal.Fits column.1 number) columns numbers

/-- Numbers in the same columns are ordered as they are without columns. By induction on
the columns: the first number that is smaller decides, since its column is as wide as the
other one, and equal numbers fill equal columns with the same mark behind them. -/
theorem inColumns_lt {columns : List (Nat × String)} {first second : List Nat}
    (firstFit : Fit columns first) (secondFit : Fit columns second) (ordered : first < second) :
    inColumns columns first < inColumns columns second := by
  induction firstFit generalizing second with
  | nil =>
    cases secondFit
    exact absurd ordered (List.lt_irrefl _)
  | @cons column number columns numbers _ _ inductionHypothesis =>
    obtain ⟨width, mark⟩ := column
    cases secondFit with
    | cons otherFits otherRest =>
      rcases List.cons_lt_cons_iff.mp ordered with smaller | ⟨rfl, rest⟩
      · exact append_lt_append (by simp) (Decimal.lastDigits_lt smaller otherFits) _ _
      · exact List.append_left_lt (List.append_left_lt (inductionHypothesis otherRest rest))

/-- A text is its numbers in columns, if these are wide enough. A wider number would push
the rest of the text to the right, and neither the length nor the order would be kept. -/
theorem toList_text {stamp : Timestamp} (fit : Fit columns stamp.numbers) :
    stamp.text.toList = inColumns columns stamp.numbers := by
  simp only [Fit, columns, numbers, List.forall₂_cons] at fit
  obtain ⟨year, month, day, hour, minute, second, millisecond, _⟩ := fit
  simp only [text, String.toList_append, Decimal.toList_padded year, Decimal.toList_padded month,
    Decimal.toList_padded day, Decimal.toList_padded hour, Decimal.toList_padded minute,
    Decimal.toList_padded second, Decimal.toList_padded millisecond, columns, numbers, inColumns,
    List.append_assoc, String.toList_empty, List.append_nil]

/-- The columns take as many characters as they are wide, and one for each mark. -/
theorem length_text {stamp : Timestamp} (fit : Fit columns stamp.numbers) :
    stamp.text.length = 23 := by
  rw [← String.length_toList, toList_text fit]
  simp [inColumns, columns, numbers]

section Clock

variable {seconds millisecond otherSeconds otherMillisecond : Nat}

/-- The date of a stamp before the year 10000 is the one of its day, the year included. -/
theorem year_ofUnix (early : seconds < 253402300800) (millisecond : Nat) :
    (ofUnix seconds millisecond).year.toNat =
        (Calendar.Date.ofDayNumber (seconds / 86400)).year ∧
      (Calendar.Date.ofDayNumber (seconds / 86400)).year < 10000 := by
  obtain ⟨valid, counted⟩ := Calendar.Date.ofDayNumber_spec (seconds / 86400)
  have small := valid.year_lt (by omega)
  refine ⟨?_, small⟩
  exact UInt32.toNat_ofNat_of_lt' (Nat.lt_of_lt_of_le small (by decide))

/-- The numbers of a stamp before the year 10000 fit their columns. The year has four
digits, a month at most 31 days, and the others are remainders, apart from the
milliseconds, for which it is assumed. -/
theorem fit_ofUnix (early : seconds < 253402300800) (short : millisecond < 1000) :
    Fit columns (ofUnix seconds millisecond).numbers := by
  obtain ⟨first, last, _, ends⟩ := (Calendar.Date.ofDayNumber_spec (seconds / 86400)).1
  have days : Calendar.daysInMonth (Calendar.Date.ofDayNumber (seconds / 86400)).year
      (Calendar.Date.ofDayNumber (seconds / 86400)).month ≤ 31 := by
    unfold Calendar.daysInMonth
    split
    · split <;> decide
    · split <;> decide
  obtain ⟨year, small⟩ := year_ofUnix early millisecond
  have fits {width number : Nat} (wide : 0 < width) (below : number < 10 ^ width) :
      Decimal.Fits width number := (Nat.length_toDigits_le_iff (by decide) wide).mpr below
  simp only [Fit, columns, numbers, List.forall₂_cons, year]
  simp only [ofUnix]
  exact ⟨fits (by decide) (by omega), fits (by decide) (by omega), fits (by decide) (by omega),
    fits (by decide) (by omega), fits (by decide) (by omega), fits (by decide) (by omega),
    fits (by decide) short, .nil⟩

/-- An earlier time has smaller numbers. On one day the dates agree, and the hour, the
minute and the second are compared as quotients and remainders of the same second of the
day. On an earlier day the date is smaller, and the time does not matter. -/
theorem numbers_lt (otherEarly : otherSeconds < 253402300800)
    (earlier : seconds < otherSeconds ∨ seconds = otherSeconds ∧ millisecond < otherMillisecond) :
    (ofUnix seconds millisecond).numbers < (ofUnix otherSeconds otherMillisecond).numbers := by
  have year := (year_ofUnix (by omega : seconds < 253402300800) millisecond).1
  have otherYear := (year_ofUnix otherEarly otherMillisecond).1
  simp only [numbers, year, otherYear, List.cons_lt_cons_iff]
  by_cases sameDay : seconds / 86400 = otherSeconds / 86400
  · simp only [ofUnix]
    rw [sameDay]
    omega
  · obtain ⟨_, counted⟩ := Calendar.Date.ofDayNumber_spec (seconds / 86400)
    obtain ⟨otherValid, otherCounted⟩ := Calendar.Date.ofDayNumber_spec (otherSeconds / 86400)
    have earlierDay : (Calendar.Date.ofDayNumber (seconds / 86400)).dayNumber <
        (Calendar.Date.ofDayNumber (otherSeconds / 86400)).dayNumber := by omega
    have date := Calendar.Date.lt_of_dayNumber_lt otherValid earlierDay
    simp only [ofUnix]
    omega

/-- An earlier time has a smaller text: its numbers are smaller, and both rows of numbers
stand in the same columns. -/
theorem text_lt (early : seconds < 253402300800) (short : millisecond < 1000)
    (otherEarly : otherSeconds < 253402300800) (otherShort : otherMillisecond < 1000)
    (earlier : seconds < otherSeconds ∨ seconds = otherSeconds ∧ millisecond < otherMillisecond) :
    (ofUnix seconds millisecond).text < (ofUnix otherSeconds otherMillisecond).text := by
  have fit := fit_ofUnix early short
  have otherFit := fit_ofUnix otherEarly otherShort
  rw [String.lt_iff, toList_text fit, toList_text otherFit]
  exact inColumns_lt fit otherFit (numbers_lt otherEarly earlier)

end Clock

/-- How two texts compare is known from one condition for each outcome, if one of the
conditions always holds: an outcome excludes the others, so its condition cannot fail.

It is therefore enough to show for each condition where it leads. The converse uses that
texts are never smaller than themselves, and never smaller and larger than another one. -/
theorem compare_iff_of_cases {first second : String} {before same after : Prop}
    (covered : before ∨ same ∨ after) (smaller : before → first < second)
    (equal : same → first = second) (larger : after → second < first) :
    (first < second ↔ before) ∧ (first = second ↔ same) ∧ (second < first ↔ after) := by
  refine ⟨⟨fun ordered => ?_, smaller⟩, ⟨fun alike => ?_, equal⟩, ⟨fun ordered => ?_, larger⟩⟩
  · rcases covered with holds | holds | holds
    · exact holds
    · exact absurd (equal holds ▸ ordered) (String.lt_irrefl _)
    · exact absurd (larger holds) (String.lt_asymm ordered)
  · rcases covered with holds | holds | holds
    · exact absurd (alike ▸ smaller holds) (String.lt_irrefl _)
    · exact holds
    · exact absurd (alike ▸ larger holds) (String.lt_irrefl _)
  · rcases covered with holds | holds | holds
    · exact absurd (smaller holds) (String.lt_asymm ordered)
    · exact absurd (equal holds ▸ ordered) (String.lt_irrefl _)
    · exact holds

/-- Texts sort as the times that they show, up to the end of the year 9999. Each is as
long as all others, and the text of one time is smaller than, equal to or larger than that
of another exactly if the time is, by its seconds and then by its milliseconds. The times
are those that machine words compute.

The later year has to be excluded, because its fifth digit moves all columns, and so has a
millisecond of four digits. One direction is enough, taken both ways: an earlier time has
a smaller text, and of two times one is earlier or they are the same. -/
theorem texts_sort_as_times {firstSeconds secondSeconds : UInt64}
    {firstMillisecond secondMillisecond : UInt32}
    (firstEarly : firstSeconds < 253402300800) (firstShort : firstMillisecond < 1000)
    (secondEarly : secondSeconds < 253402300800) (secondShort : secondMillisecond < 1000) :
    let first : Timestamp := ofUnix firstSeconds.toNat firstMillisecond.toNat
    let second : Timestamp := ofUnix secondSeconds.toNat secondMillisecond.toNat
    (ofUnixInWords? firstSeconds firstMillisecond = some first ∧
      ofUnixInWords? secondSeconds secondMillisecond = some second) ∧
      first.text.length = 23 ∧ second.text.length = 23 ∧
      (first.text < second.text ↔ firstSeconds < secondSeconds ∨
        firstSeconds = secondSeconds ∧ firstMillisecond < secondMillisecond) ∧
      (first.text = second.text ↔
        firstSeconds = secondSeconds ∧ firstMillisecond = secondMillisecond) ∧
      (second.text < first.text ↔ secondSeconds < firstSeconds ∨
        secondSeconds = firstSeconds ∧ secondMillisecond < firstMillisecond) := by
  rw [UInt64.lt_iff_toNat_lt] at firstEarly secondEarly
  rw [UInt32.lt_iff_toNat_lt] at firstShort secondShort
  intro first second
  refine ⟨⟨ofUnixInWords?_eq _ _, ofUnixInWords?_eq _ _⟩,
    length_text (fit_ofUnix firstEarly firstShort),
    length_text (fit_ofUnix secondEarly secondShort), ?_⟩
  simp only [UInt64.lt_iff_toNat_lt, UInt32.lt_iff_toNat_lt, ← UInt64.toNat_inj,
    ← UInt32.toNat_inj]
  apply compare_iff_of_cases
  · omega
  · exact text_lt firstEarly firstShort secondEarly secondShort
  · rintro ⟨sameSeconds, sameMillisecond⟩
    exact congrArg text (congrArg₂ ofUnix sameSeconds sameMillisecond)
  · exact text_lt secondEarly secondShort firstEarly firstShort

/-- The last millisecond of a leap day sorts in front of the first one of March, although
its day, its hour and everything behind them are larger. -/
theorem texts_sort_at_end_of_leap_day :
    (ofUnix 951868799 999).text = "2000-02-29 23:59:59.999" ∧
      (ofUnix 951868800 0).text = "2000-03-01 00:00:00.000" ∧
      (ofUnix 951868799 999).text < (ofUnix 951868800 0).text := by
  refine ⟨by decide +kernel, by decide +kernel, ?_⟩
  have order := texts_sort_as_times
    (by decide : (951868799 : UInt64) < 253402300800) (by decide : (999 : UInt32) < 1000)
    (by decide : (951868800 : UInt64) < 253402300800) (by decide : (0 : UInt32) < 1000)
  exact order.2.2.2.1.mpr (.inl (by decide))

end Timestamp

end ContractScript
