import Mathlib
import ScriptOps.Proofs.GregorianCalendar

/-!
# The order of the days

Dates follow each other through their months and years. The count of the days grows by one from each
date to the next, and it tells the date: the counts to the starts of the years, and within a year to
the starts of the months, only grow, so a day lies in one year and in one month. Hence the date that
`CalendarDate.ofDays` computes is the one that so many days lead to from the start of 1970, and the
dates of consecutive counts are consecutive.
-/

namespace ScriptOps

/-! ### Counts that only grow -/

/-- Every month has at least 28 days. -/
theorem le_monthLength (year month : ℤ) : 28 ≤ monthLength year month := by
  have hleap := leapDays_cases year
  unfold monthLength
  split_ifs <;> omega

/-- From month to month the count grows by the days of the month. -/
theorem daysBeforeMonth_succ (year : ℤ) {month : ℤ} (hmonth : 1 ≤ month) :
    daysBeforeMonth year (month + 1) = daysBeforeMonth year month + monthLength year month := by
  obtain ⟨m, rfl⟩ := Int.exists_add_of_le hmonth
  have hm : ((1 + m : ℤ) - 1).toNat = m := by omega
  have hm' : ((1 + m : ℤ) + 1 - 1).toNat = m + 1 := by omega
  rw [daysBeforeMonth, hm', List.range_succ, List.map_append, List.sum_append, daysBeforeMonth, hm]
  simp [add_comm]

/-- The twelve months make up the year. -/
theorem daysBeforeMonth_thirteen (year : ℤ) : daysBeforeMonth year 13 = 365 + leapDays year := by
  simp [daysBeforeMonth, monthLength, List.range_succ]
  ring

/-- Later years begin later. -/
theorem monotone_daysBeforeYear : Monotone daysBeforeYear := by
  apply monotone_int_of_le_succ
  intro year
  have hsucc := daysBeforeYear_succ year
  have hleap := leapDays_cases year
  omega

/-- Within a year later months begin later. -/
theorem monotone_daysBeforeMonth (year : ℤ) : Monotone (daysBeforeMonth year) := by
  apply monotone_int_of_le_succ
  intro month
  by_cases hmonth : 1 ≤ month
  · have hlength := le_monthLength year month
    rw [daysBeforeMonth_succ year hmonth]
    omega
  · -- no months lie before these
    have hnone : (month + 1 - 1).toNat = (month - 1).toNat := by omega
    rw [daysBeforeMonth, daysBeforeMonth, hnone]

/-- A count that only grows passes a day once. -/
theorem eq_of_count_bounds {count : ℤ → ℤ} (hcount : Monotone count) {m n day : ℤ}
    (hm : count m ≤ day ∧ day < count (m + 1)) (hn : count n ≤ day ∧ day < count (n + 1)) :
    m = n := by
  have hmn := hcount.reflect_lt (hm.1.trans_lt hn.2)
  have hnm := hcount.reflect_lt (hn.1.trans_lt hm.2)
  omega

namespace CalendarDate

variable {date date' : CalendarDate}

/-! ### The count tells the date -/

/-- A day of the year lies in its month. -/
theorem IsValid.day_bounds (h : date.IsValid) :
    daysBeforeMonth date.year date.month ≤
        daysBeforeMonth date.year date.month + (date.day - 1) ∧
      daysBeforeMonth date.year date.month + (date.day - 1) <
        daysBeforeMonth date.year (date.month + 1) := by
  obtain ⟨hmonth, -, hday, hday'⟩ := h
  rw [daysBeforeMonth_succ _ hmonth]
  omega

/-- A day lies in its year. -/
theorem IsValid.dayNumber_bounds (h : date.IsValid) :
    daysBeforeYear date.year ≤ date.dayNumber ∧
      date.dayNumber < daysBeforeYear (date.year + 1) := by
  have hday := h.day_bounds
  have hfirst : daysBeforeMonth date.year 1 = 0 := rfl
  have hlast := daysBeforeMonth_thirteen date.year
  have hlower := monotone_daysBeforeMonth date.year h.one_le_month
  have hupper := monotone_daysBeforeMonth date.year (add_le_add_left h.month_le 1)
  rw [show (12 : ℤ) + 1 = 13 from rfl] at hupper
  rw [daysBeforeYear_succ, dayNumber]
  omega

/-- Valid dates with one day number are the same date. -/
theorem IsValid.eq_of_dayNumber_eq (h : date.IsValid) (h' : date'.IsValid)
    (heq : date.dayNumber = date'.dayNumber) : date = date' := by
  obtain ⟨year, month, day⟩ := date
  obtain ⟨year', month', day'⟩ := date'
  have hyear : year = year' :=
    eq_of_count_bounds monotone_daysBeforeYear h.dayNumber_bounds (heq ▸ h'.dayNumber_bounds)
  subst hyear
  have hday : daysBeforeMonth year month + (day - 1) =
      daysBeforeMonth year month' + (day' - 1) := by
    simp only [dayNumber] at heq
    omega
  have hmonth : month = month' :=
    eq_of_count_bounds (monotone_daysBeforeMonth year) h.day_bounds (hday ▸ h'.day_bounds)
  subst hmonth
  rw [add_right_inj, sub_left_inj] at hday
  rw [hday]

/-! ### The next day -/

/-- The day after a date: in the same month while it has days, else the first day of the next month,
or of the next year. -/
def next (date : CalendarDate) : CalendarDate :=
  if date.day < monthLength date.year date.month then ⟨date.year, date.month, date.day + 1⟩
  else if date.month < 12 then ⟨date.year, date.month + 1, 1⟩
  else ⟨date.year + 1, 1, 1⟩

/-- A date comes a number of days after another one, or before it if the number is negative. -/
def IsDaysAfter (days : ℤ) (start date : CalendarDate) : Prop :=
  next^[days.toNat] start = next^[(-days).toNat] date

/-- The first of January 1970. -/
def epoch : CalendarDate := ⟨1970, 1, 1⟩

/-- The next day exists, and its count is the next one. -/
theorem IsValid.next_spec (h : date.IsValid) :
    date.next.IsValid ∧ date.next.dayNumber = date.dayNumber + 1 := by
  obtain ⟨year, month, day⟩ := date
  obtain ⟨hmonth, hmonth', hday, hday'⟩ := h
  dsimp only at hmonth hmonth' hday hday'
  have hlength (year month : ℤ) : 1 ≤ monthLength year month :=
    le_trans (by decide) (le_monthLength year month)
  have hsucc := daysBeforeMonth_succ year hmonth
  simp only [next, dayNumber]
  split_ifs with hlast hdecember
  · refine ⟨⟨hmonth, hmonth', Int.le_add_one hday, hlast⟩, ?_⟩
    dsimp only
    omega
  · refine ⟨⟨Int.le_add_one hmonth, hdecember, le_rfl, hlength _ _⟩, ?_⟩
    dsimp only
    omega
  · obtain rfl : month = 12 := by omega
    have hyear := daysBeforeYear_succ year
    have hthirteen := daysBeforeMonth_thirteen year
    have hfirst : daysBeforeMonth (year + 1) 1 = 0 := rfl
    rw [show (12 : ℤ) + 1 = 13 from rfl] at hsucc
    refine ⟨⟨le_rfl, (by decide : (1 : ℤ) ≤ 12), le_rfl, hlength _ _⟩, ?_⟩
    dsimp only
    omega

/-- Some days later the date is valid and its day number is larger by as many. -/
theorem IsValid.iterate_next_spec (h : date.IsValid) (n : ℕ) :
    (next^[n] date).IsValid ∧ (next^[n] date).dayNumber = date.dayNumber + n := by
  induction n with
  | zero => exact ⟨h, (add_zero _).symm⟩
  | succ n ih =>
    obtain ⟨hvalid, hcount⟩ := ih.1.next_spec
    rw [Function.iterate_succ_apply']
    refine ⟨hvalid, ?_⟩
    rw [hcount, ih.2, Nat.cast_succ, add_assoc]

/-- The difference of the counts is the number of days from one date to the other. -/
theorem IsValid.isDaysAfter {days : ℤ} (h : date.IsValid) (h' : date'.IsValid)
    (hdays : date'.dayNumber = date.dayNumber + days) : IsDaysAfter days date date' := by
  obtain ⟨hvalid, hcount⟩ := h.iterate_next_spec days.toNat
  obtain ⟨hvalid', hcount'⟩ := h'.iterate_next_spec (-days).toNat
  apply hvalid.eq_of_dayNumber_eq hvalid'
  omega

/-- The epoch is a valid date. -/
theorem isValid_epoch : epoch.IsValid :=
  ⟨by decide, by decide, by decide, by decide⟩

/-! ### The dates of the day counts -/

/-- Day counts are dates of the proleptic Gregorian calendar. The date of a count exists, its count
is that number, and so many days after the start of 1970, or before it, one comes to this date. So
distinct counts have distinct dates, each date is the one of its count, and the next count has the
next date. -/
theorem ofDays_gregorian :
    (∀ days : ℤ, Fits64 (days + epochOffset) →
      (ofDays days).IsValid ∧ (ofDays days).dayNumber = days ∧
        IsDaysAfter days epoch (ofDays days)) ∧
    (∀ days days' : ℤ, Fits64 (days + epochOffset) → Fits64 (days' + epochOffset) →
      ofDays days = ofDays days' → days = days') ∧
    (∀ date : CalendarDate, date.IsValid → Fits64 (date.dayNumber + epochOffset) →
      ofDays date.dayNumber = date) ∧
    (∀ days : ℤ, Fits64 (days + epochOffset) → Fits64 (days + 1 + epochOffset) →
      ofDays (days + 1) = (ofDays days).next) := by
  refine ⟨?_, ?_, ?_, ?_⟩
  · intro days hfits
    obtain ⟨hvalid, hcount⟩ := ofDays_spec hfits
    refine ⟨hvalid, hcount, isValid_epoch.isDaysAfter hvalid ?_⟩
    have hepoch : epoch.dayNumber = 0 := by decide
    rw [hcount, hepoch, zero_add]
  · intro days days' hfits hfits' heq
    rw [← (ofDays_spec hfits).2, ← (ofDays_spec hfits').2, heq]
  · intro date hdate hfits
    obtain ⟨hvalid, hcount⟩ := ofDays_spec hfits
    exact hvalid.eq_of_dayNumber_eq hdate hcount
  · intro days hfits hfits'
    obtain ⟨hvalid, hcount⟩ := ofDays_spec hfits
    obtain ⟨hvalid', hcount'⟩ := ofDays_spec hfits'
    obtain ⟨hnext, hnextCount⟩ := hvalid.next_spec
    apply hvalid'.eq_of_dayNumber_eq hnext
    rw [hcount', hnextCount, hcount]

/-- The year 1900 had no leap day. -/
theorem ofDays_gregorian_century :
    let days : ℤ := -25509
    let date : CalendarDate := ⟨1900, 2, 28⟩
    (Fits64 (days + epochOffset) ∧ Fits64 (days + 1 + epochOffset) ∧ date.IsValid) ∧
      ofDays days = date ∧ IsDaysAfter days epoch date ∧ ofDays (days + 1) = ⟨1900, 3, 1⟩ := by
  intro days date
  obtain ⟨hspec, -, hdate, hnext⟩ := ofDays_gregorian
  have hfits : Fits64 (days + epochOffset) := ⟨by decide, by decide⟩
  have hfits' : Fits64 (days + 1 + epochOffset) := ⟨by decide, by decide⟩
  have hvalid : date.IsValid := ⟨by decide, by decide, by decide, by decide⟩
  have hcount : date.dayNumber = days := by decide
  have heq : ofDays days = date := hcount ▸ hdate date hvalid (hcount ▸ hfits)
  refine ⟨⟨hfits, hfits', hvalid⟩, heq, ?_, ?_⟩
  · rw [← heq]
    exact (hspec days hfits).2.2
  · rw [hnext days hfits hfits', heq]
    decide

end CalendarDate

end ScriptOps
