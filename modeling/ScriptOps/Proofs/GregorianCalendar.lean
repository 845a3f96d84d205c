import Mathlib.Data.List.Range
import Mathlib.Tactic.IntervalCases
import Mathlib.Tactic.Ring
import ScriptOps.Calendar

/-!
# The proleptic Gregorian calendar

The calendar by the lengths of its years and months, and the count of the days from the start of
1970 to a date. `CalendarDate.ofDays` computes the date of a day count another way, through eras of
400 years and years that begin in March. It gives the date with that count.
-/

namespace ScriptOps

/-! ### Years, months and days -/

/-- Every fourth year has a leap day, but of the years that end a century only every fourth. -/
def IsLeapYear (year : ℤ) : Prop :=
  year % 4 = 0 ∧ (year % 100 ≠ 0 ∨ year % 400 = 0)

instance (year : ℤ) : Decidable (IsLeapYear year) :=
  inferInstanceAs (Decidable (_ ∧ _))

/-- The leap days of a year, one or none. -/
def leapDays (year : ℤ) : ℤ :=
  if IsLeapYear year then 1 else 0

/-- The days of a month. -/
def monthLength (year month : ℤ) : ℤ :=
  if month = 2 then 28 + leapDays year
  else if month = 4 ∨ month = 6 ∨ month = 9 ∨ month = 11 then 30
  else 31

/-- The leap days before a year, counted from year 1. -/
def leapDaysBefore (year : ℤ) : ℤ :=
  (year - 1) / 4 - (year - 1) / 100 + (year - 1) / 400

/-- The days from the start of 1970 to the start of a year. -/
def daysBeforeYear (year : ℤ) : ℤ :=
  365 * (year - 1970) + (leapDaysBefore year - leapDaysBefore 1970)

/-- The days of a year before a month. -/
def daysBeforeMonth (year month : ℤ) : ℤ :=
  ((List.range (month - 1).toNat).map fun m : ℕ => monthLength year (m + 1)).sum

/-- A year has a leap day or none, by the rule of the calendar. -/
theorem leapDays_cases (year : ℤ) :
    (year % 4 = 0 ∧ (year % 100 ≠ 0 ∨ year % 400 = 0)) ∧ leapDays year = 1 ∨
      ¬(year % 4 = 0 ∧ (year % 100 ≠ 0 ∨ year % 400 = 0)) ∧ leapDays year = 0 := by
  by_cases h : IsLeapYear year
  · exact .inl ⟨h, if_pos h⟩
  · exact .inr ⟨h, if_neg h⟩

/-- From year to year the leap days are counted. -/
theorem leapDaysBefore_succ (year : ℤ) :
    leapDaysBefore (year + 1) = leapDaysBefore year + leapDays year := by
  have hleap := leapDays_cases year
  unfold leapDaysBefore
  omega

/-- From year to year the count grows by the days of the year. -/
theorem daysBeforeYear_succ (year : ℤ) :
    daysBeforeYear (year + 1) = daysBeforeYear year + 365 + leapDays year := by
  have hleap := leapDaysBefore_succ year
  unfold daysBeforeYear
  omega

namespace CalendarDate

/-- The date exists. -/
structure IsValid (date : CalendarDate) : Prop where
  one_le_month : 1 ≤ date.month
  month_le : date.month ≤ 12
  one_le_day : 1 ≤ date.day
  day_le : date.day ≤ monthLength date.year date.month

/-- The days from the first of January 1970 to a date. -/
def dayNumber (date : CalendarDate) : ℤ :=
  daysBeforeYear date.year + daysBeforeMonth date.year date.month + (date.day - 1)

/-! ### Years that begin in March -/

/-- The days of an era before one of its years. -/
def daysBeforeYearOfEra (year : ℤ) : ℤ :=
  365 * year + year / 4 - year / 100

/-- A day of an era by its century, its four years of the century and its year of the four. -/
theorem exists_century {dayOfEra : ℤ} (hlower : 0 ≤ dayOfEra) (hupper : dayOfEra < daysPerEra) :
    ∃ century four one dayOfYear : ℤ,
      dayOfEra = 36524 * century + 1461 * four + 365 * one + dayOfYear ∧
      (0 ≤ century ∧ century ≤ 3) ∧ (0 ≤ four ∧ four ≤ 24) ∧ (0 ≤ one ∧ one ≤ 3) ∧
      0 ≤ dayOfYear ∧
      (dayOfYear ≤ 364 ∨ dayOfYear = 365 ∧ one = 3 ∧ (four < 24 ∨ century = 3)) := by
  unfold daysPerEra at hupper
  let century := min (dayOfEra / 36524) 3
  let dayOfCentury := dayOfEra - 36524 * century
  let dayOfFour := dayOfCentury % 1461
  let one := min (dayOfFour / 365) 3
  refine ⟨century, dayOfCentury / 1461, one, dayOfFour - 365 * one, ?_⟩
  omega

/-- The year of a day in its era, and the day of that year. The divisors take the leap days out of
the count of the days, so that years of 365 days are left. -/
theorem exists_yearOfEra {dayOfEra : ℤ} (hlower : 0 ≤ dayOfEra) (hupper : dayOfEra < daysPerEra) :
    ∃ year dayOfYear : ℤ,
      (dayOfEra - dayOfEra / 1460 + dayOfEra / 36524 - dayOfEra / 146096) / 365 = year ∧
      dayOfEra = daysBeforeYearOfEra year + dayOfYear ∧ (0 ≤ year ∧ year < 400) ∧
      0 ≤ dayOfYear ∧ dayOfYear < 365 + leapDays (year + 1) := by
  obtain ⟨century, four, one, dayOfYear, rfl, hcentury, hfour, hone, hday⟩ :=
    exists_century hlower hupper
  refine ⟨100 * century + 4 * four + one, dayOfYear, ?_, ?_, by omega, hday.1, ?_⟩
  · -- the day within its 1460 days and within its century
    let dayOfFours := 24 * century + four + 365 * one + dayOfYear
    let dayOfCentury := 1461 * four + 365 * one + dayOfYear
    have hfours : 36524 * century + 1461 * four + 365 * one + dayOfYear =
        dayOfFours + 1460 * (25 * century + four) := by omega
    have hcentury' : 36524 * century + 1461 * four + 365 * one + dayOfYear =
        dayOfCentury + 36524 * century := by omega
    have hlast : (36524 * century + 1461 * four + 365 * one + dayOfYear) / 146096 =
        dayOfCentury / 36524 := by
      rcases (by omega : dayOfCentury < 36524 ∨ century = 3 ∧ dayOfCentury = 36524) with hlt | hlast
      · rw [Int.ediv_eq_zero_of_lt (by omega) hlt, Int.ediv_eq_zero_of_lt (by omega) (by omega)]
      · rw [hcentury', hlast.1, hlast.2]
        rfl
    rw [hlast, hfours, Int.add_mul_ediv_left _ _ (by decide), ← hfours, hcentury',
      Int.add_mul_ediv_left _ _ (by decide)]
    omega
  · unfold daysBeforeYearOfEra
    omega
  · have hleap := leapDays_cases (100 * century + 4 * four + one + 1)
    omega

/-- The days from the first of March of a year to a month. -/
def daysBeforeMarchMonth (month : ℤ) : ℤ :=
  (153 * month + 2) / 5

/-- The months from March on. The days of January and February are those before the next March. -/
theorem month_of_marchMonth {marchMonth : ℤ} (year : ℤ) (hlower : 0 ≤ marchMonth)
    (hupper : marchMonth < 12) :
    let month := if marchMonth < 10 then marchMonth + 3 else marchMonth - 9
    let year' := year + if month ≤ 2 then 1 else 0
    (1 ≤ month ∧ month ≤ 12) ∧
      daysBeforeYear year' + daysBeforeMonth year' month =
        daysBeforeYear (year + 1) - 306 + daysBeforeMarchMonth marchMonth ∧
      monthLength year' month =
        min (daysBeforeMarchMonth (marchMonth + 1)) (365 + leapDays (year + 1)) -
          daysBeforeMarchMonth marchMonth := by
  have hyear := daysBeforeYear_succ year
  have hleap := leapDays_cases (year + 1)
  interval_cases marchMonth <;>
    simp [daysBeforeMonth, daysBeforeMarchMonth, monthLength, List.range_succ] <;> omega

/-- The month of a day of a year that begins in March. -/
theorem marchMonth_bounds {dayOfYear leap : ℤ} (hlower : 0 ≤ dayOfYear)
    (hupper : dayOfYear < 365 + leap) (hleap : leap ≤ 1) :
    let marchMonth := (5 * dayOfYear + 2) / 153
    (0 ≤ marchMonth ∧ marchMonth < 12) ∧ daysBeforeMarchMonth marchMonth ≤ dayOfYear ∧
      dayOfYear < min (daysBeforeMarchMonth (marchMonth + 1)) (365 + leap) := by
  unfold daysBeforeMarchMonth
  omega

/-! ### The date of a day count -/

/-- The count up to the first of March of a year, by eras. -/
theorem daysBeforeYear_march {yearOfEra : ℤ} (era : ℤ) (hlower : 0 ≤ yearOfEra)
    (hupper : yearOfEra < 400) :
    daysBeforeYear (yearOfEra + era * 400 + 1) - 306 + epochOffset =
      daysPerEra * era + daysBeforeYearOfEra yearOfEra := by
  unfold daysBeforeYear leapDaysBefore epochOffset daysPerEra daysBeforeYearOfEra
  omega

end CalendarDate

/-- Leap years recur after 400 years. -/
theorem leapDays_add_era (year era : ℤ) : leapDays (year + era * 400) = leapDays year := by
  have hleap := leapDays_cases (year + era * 400)
  have hleap' := leapDays_cases year
  omega

/-- The integer has 64 bits with a sign. -/
def Fits64 (i : ℤ) : Prop :=
  -2 ^ 63 ≤ i ∧ i < 2 ^ 63

/-- A number of 64 bits is not wrapped around. -/
theorem wrap64_of_fits {i : ℤ} (hi : Fits64 i) : wrap64 i = i := by
  obtain ⟨hlower, hupper⟩ := hi
  rw [wrap64, Int.bmod_eq_of_le] <;> omega

namespace CalendarDate

/-- The date of a day count exists, and its count is the day count. -/
theorem ofDays_spec {days : ℤ} (hfits : Fits64 (days + epochOffset)) :
    (ofDays days).IsValid ∧ (ofDays days).dayNumber = days := by
  have hsplit := Int.mul_ediv_add_emod (days + epochOffset) daysPerEra
  obtain ⟨yearOfEra, dayOfYear, hyearOfEra, hday, hyear, hdayOfYear, hlast⟩ :=
    exists_yearOfEra (Int.emod_nonneg (days + epochOffset) (b := daysPerEra) (by decide))
      (Int.emod_lt_of_pos (days + epochOffset) (by decide))
  have hleap := leapDays_cases (yearOfEra + 1)
  obtain ⟨hmarch, hfirst, hnext⟩ := marchMonth_bounds hdayOfYear hlast (by omega)
  generalize hmarchMonth : (5 * dayOfYear + 2) / 153 = marchMonth at hmarch hfirst hnext
  generalize hera : (days + epochOffset) / daysPerEra = era at hsplit
  have hyears := daysBeforeYear_march era hyear.1 hyear.2
  obtain ⟨hmonth, hcount, hlength⟩ :=
    month_of_marchMonth (yearOfEra + era * 400) hmarch.1 hmarch.2
  have hleapEra : leapDays (yearOfEra + era * 400 + 1) = leapDays (yearOfEra + 1) := by
    rw [add_right_comm, leapDays_add_era]
  have hdayOfYear' : (days + epochOffset) % daysPerEra -
      (365 * yearOfEra + yearOfEra / 4 - yearOfEra / 100) = dayOfYear := by
    rw [hday, daysBeforeYearOfEra]
    omega
  unfold ofDays
  simp only [wrap64_of_fits hfits, hyearOfEra, hera, hdayOfYear', hmarchMonth]
  refine ⟨⟨hmonth.1, hmonth.2, ?_, ?_⟩, ?_⟩
  · change 1 ≤ dayOfYear - daysBeforeMarchMonth marchMonth + 1
    omega
  · change dayOfYear - daysBeforeMarchMonth marchMonth + 1 ≤ monthLength _ _
    rw [hlength, hleapEra]
    omega
  · rw [dayNumber, hcount]
    change _ + (dayOfYear - daysBeforeMarchMonth marchMonth + 1 - 1) = days
    omega

example : ofDays 19782 = ⟨2024, 2, 29⟩ ∧ (⟨2024, 2, 29⟩ : CalendarDate).dayNumber = 19782 := by
  decide

end CalendarDate

end ScriptOps
