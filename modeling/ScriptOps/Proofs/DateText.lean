import ScriptOps.Proofs.GregorianCalendar
import ScriptOps.Proofs.RoundedValues

/-!
# The text of a time value

A time value is split into days and seconds by two rounded quotients and a rounded difference. For
time values of 64 bits the quotients have exact floors, and the difference is exact but for the last
day before 1970, where a time value may have places that are too fine for it. There a time value
less than `2 ^ (-26)` milliseconds before a second may be rounded up to it. Else the text is that of
the second in which the time value lies.
-/

namespace ScriptOps

/-! ### Times of the calendar -/

/-- A time of the proleptic Gregorian calendar in UTC, to the second. -/
structure CalendarTime where
  /-- The day. -/
  date : CalendarDate
  /-- The hour of the day. -/
  hour : ℤ
  /-- The minute of the hour. -/
  minute : ℤ
  /-- The second of the minute. -/
  second : ℤ

namespace CalendarTime

/-- The day exists and the clock shows the time. -/
structure IsValid (time : CalendarTime) : Prop where
  date : time.date.IsValid
  hour : 0 ≤ time.hour ∧ time.hour < 24
  minute : 0 ≤ time.minute ∧ time.minute < 60
  second : 0 ≤ time.second ∧ time.second < 60

/-- The seconds since the start of 1970. -/
def secondNumber (time : CalendarTime) : ℤ :=
  86400 * time.date.dayNumber + 3600 * time.hour + 60 * time.minute + time.second

/-- The day of the week, from 0 for Sunday, by the days since a Thursday. -/
def weekday (time : CalendarTime) : ℕ :=
  ((time.date.dayNumber + 4) % 7).toNat

/-- The clock with two places for each of its parts. -/
def clockText (time : CalendarTime) : String :=
  ":".intercalate [zeroPadded 2 time.hour, zeroPadded 2 time.minute, zeroPadded 2 time.second]

/-- The text of a time. -/
def text (time : CalendarTime) : String :=
  " ".intercalate [
    weekdayNames.getD time.weekday "",
    monthNames.getD (time.date.month - 1).toNat "",
    zeroPadded 2 time.date.day,
    yearText time.date.year,
    time.clockText,
    "GMT+0000 (Coordinated Universal Time)"]

/-- The time a number of seconds after the start of 1970. -/
def ofSeconds (seconds : ℤ) : CalendarTime where
  date := .ofDays (seconds / 86400)
  hour := seconds % 86400 / 3600
  minute := seconds % 86400 / 60 % 60
  second := seconds % 60

end CalendarTime

/-- The time value does not lie in the last day before 1970 and there less than `2 ^ (-26)`
milliseconds before a second. -/
def IsClearOfSecond (t : ℚ) : Prop :=
  -86400000 < t → t < 0 → ∀ k : ℤ, t < 1000 * k → t ≤ 1000 * k - 2 ^ (-26 : ℤ)

/-- A number of 64 bits is not clamped. -/
theorem clamp64_of_fits {i : ℤ} (hi : Fits64 i) : clamp64 i = i := by
  obtain ⟨hlower, hupper⟩ := hi
  rw [clamp64]
  omega

/-- Where the day fits, the seconds are split into a valid time with the same number of seconds. -/
theorem CalendarTime.ofSeconds_spec {seconds : ℤ}
    (hfits : Fits64 (seconds / 86400 + CalendarDate.epochOffset)) :
    (ofSeconds seconds).IsValid ∧ (ofSeconds seconds).secondNumber = seconds := by
  obtain ⟨hvalid, hcount⟩ := CalendarDate.ofDays_spec hfits
  refine ⟨⟨hvalid, ?_, ?_, ?_⟩, ?_⟩
  · simp only [ofSeconds]
    omega
  · simp only [ofSeconds]
    omega
  · simp only [ofSeconds]
    omega
  · simp only [secondNumber, ofSeconds, hcount]
    omega

/-- A time value that is split into the days and the seconds since the start of 1970 has the text of
that time. -/
theorem dateText_of_splitTime {x : Float} {seconds : ℤ} (hx : x.isFinite = true)
    (hweek : Fits64 (seconds / 86400 + 4))
    (hfits : Fits64 (seconds / 86400 + CalendarDate.epochOffset))
    (hsplit : splitTime x = (seconds / 86400, seconds % 86400)) :
    dateText x = (CalendarTime.ofSeconds seconds).text := by
  obtain ⟨-, hcount⟩ := CalendarDate.ofDays_spec hfits
  have hweekday : (CalendarTime.ofSeconds seconds).weekday = weekdayOfDays (seconds / 86400) := by
    rw [weekdayOfDays, wrap64_of_fits hweek, CalendarTime.weekday,
      CalendarTime.ofSeconds, hcount]
  have hnonneg : 0 ≤ seconds % 86400 := Int.emod_nonneg _ (by decide)
  have hsecond : (seconds % 86400).tmod 60 = seconds % 60 := by
    rw [Int.tmod_eq_emod_of_nonneg hnonneg]
    omega
  rw [dateText, if_pos hx, hsplit, CalendarTime.text, hweekday]
  simp only [List.map_cons, List.map_nil, Int.tdiv_eq_ediv_of_nonneg hnonneg, hsecond,
    Int.tmod_eq_emod_of_nonneg (Int.ediv_nonneg hnonneg (by decide : (0 : ℤ) ≤ 60))]
  rfl

/-! ### Splitting a time value -/

/-- The milliseconds of a day are exact as a double. -/
theorem isExactly_millisecondsPerDay : IsExactly millisecondsPerDay 86400000 := by
  have hday := isExactly_floatOfInt (i := 86400000) (by norm_num) (fitsDouble_intCast (by norm_num))
  exact_mod_cast hday

/-- So is one thousand. -/
theorem isExactly_thousand : IsExactly (1000 : Float) 1000 := by
  have hsecond := isExactly_floatOfInt (i := 1000) (by norm_num) (fitsDouble_intCast (by norm_num))
  exact_mod_cast hsecond

section

variable {x : Float} {t : ℚ}

/-- The quotient by a day has the floor of the exact quotient. -/
theorem floorInt_div_day (hx : IsExactly x t) (hsize : |t| < 2 ^ 63)
    (htiny : 0 ≤ t ∨ t ≤ -2 ^ (-26 : ℤ)) :
    floorInt (x / millisecondsPerDay) = ⌊t / 86400000⌋ := by
  have hday : ((84375 * 2 ^ 10 : ℕ) : ℚ) = 86400000 := by norm_num
  rw [← hday]
  refine hx.floorInt_div (hday ▸ isExactly_millisecondsPerDay) (by decide) hsize
    (htiny.imp_right fun hneg => ?_)
  have hplace : (2 : ℚ) ^ (-1022 : ℤ) ≤ 2 ^ (-53 : ℤ) := zpow_le_zpow_right₀ one_le_two (by decide)
  rw [hday, abs_div, abs_of_neg (hneg.trans_lt (by norm_num)), abs_of_pos (by norm_num)]
  refine hplace.trans ?_
  norm_num at hneg ⊢
  linarith

/-- The quotient of a time of the day by a second has the floor of the exact quotient. -/
theorem floorInt_div_second (hx : IsExactly x t) (hlower : 0 ≤ t) (hupper : t ≤ 86400000) :
    floorInt (x / 1000) = ⌊t / 1000⌋ := by
  have hsecond : ((125 * 2 ^ 3 : ℕ) : ℚ) = 1000 := by norm_num
  rw [← hsecond]
  refine hx.floorInt_div (hsecond ▸ isExactly_thousand) (by decide) ?_ (.inl hlower)
  rw [abs_of_nonneg hlower]
  norm_num
  linarith

/-- The day of a time value begins at most a day before it. -/
theorem rest_bounds (t : ℚ) :
    0 ≤ t - ⌊t / 86400000⌋ * 86400000 ∧ t - ⌊t / 86400000⌋ * 86400000 < 86400000 := by
  have hfloor := (le_div_iff₀ (by norm_num)).1 (Int.floor_le (t / 86400000))
  have hnext := (div_lt_iff₀ (by norm_num)).1 (Int.lt_floor_add_one (t / 86400000))
  constructor <;> linarith

/-- Where the difference to the start of the day is not rounded. Within a day before 1970 a time
value may have places that are too fine for the time of the day. -/
theorem fitsDouble_rest (hx : IsExactly x t) (hsize : |t| < 2 ^ 63)
    (hday : 0 ≤ t ∨ t ≤ -86400000) : FitsDouble (t - ⌊t / 86400000⌋ * 86400000) := by
  obtain ⟨hlower, hupper⟩ := rest_bounds t
  rcases lt_or_ge |t| 86400000 with hfirst | hlarge
  · have hnonneg : 0 ≤ t := hday.resolve_right fun hneg => by linarith [(abs_lt.1 hfirst).1]
    have hzero : ⌊t / 86400000⌋ = 0 := by
      rw [abs_of_nonneg hnonneg] at hfirst
      rw [Int.floor_eq_zero_iff, Set.mem_Ico, div_lt_one (by norm_num)]
      exact ⟨by positivity, hfirst⟩
    rw [hzero, Int.cast_zero, zero_mul, sub_zero]
    exact hx.fits
  · -- in units of the time value, of which a day has fewer than `2 ^ 53`
    obtain ⟨i, e, hi, he, hle, ht⟩ := hx.exists_unit_le (k := 10) hsize
    have he' : -26 ≤ e := le_unit_of_le_abs hi (by
      rw [← ht]
      exact le_trans (by norm_num) hlarge)
    obtain ⟨j, hj⟩ : ∃ j : ℕ, (10 : ℤ) = e + j := ⟨(10 - e).toNat, by omega⟩
    have hdivisor : (86400000 : ℚ) = 84375 * 2 ^ j * 2 ^ e := by
      rw [mul_assoc, mul_comm (2 ^ j : ℚ), ← zpow_natCast, ← zpow_add₀ two_ne_zero, ← hj]
      norm_num
    have hrest : t - ⌊t / 86400000⌋ * 86400000 =
        (i - ⌊t / 86400000⌋ * (84375 * 2 ^ j) : ℤ) * 2 ^ e := by
      push_cast
      rw [sub_mul, ← ht, mul_assoc, ← hdivisor]
    rw [hrest] at hlower hupper ⊢
    exact fitsDouble_of_lt he he' hlower (hupper.trans (by norm_num))

/-- A time of the day that is not close below a whole second is not rounded up to it. -/
theorem isNearest_rest_floor {v r : ℚ} (hv : IsNearest v r) (hlower : 0 ≤ r) (hupper : r < 86400000)
    (hgap : ∀ k : ℤ, r < 1000 * k → r ≤ 1000 * k - 2 ^ (-26 : ℤ)) :
    0 ≤ v ∧ v ≤ 86400000 ∧ ⌊v / 1000⌋ = ⌊r / 1000⌋ := by
  have hfloor := (le_div_iff₀ (by norm_num)).1 (Int.floor_le (r / 1000))
  have hnext := (div_lt_iff₀ (by norm_num)).1 (Int.lt_floor_add_one (r / 1000))
  have hn : 0 ≤ ⌊r / 1000⌋ := Int.floor_nonneg.2 (by positivity)
  have hn' : ⌊r / 1000⌋ < 86400 := by
    rw [Int.floor_lt]
    push_cast
    linarith
  generalize ⌊r / 1000⌋ = n at hfloor hnext hn hn'
  -- the whole second below is a double, so rounding does not pass it
  have hsecond : 1000 * n ≤ v := by
    have hfits := hv.lower (1000 * n : ℤ) (fitsDouble_intCast (by rw [abs_lt]; omega))
    push_cast at hfits
    exact hfits (by linarith)
  -- nor does it reach the next second, as a double lies in the gap before it
  have hbefore : v ≤ 1000 * (n + 1) - 2 ^ (-26 : ℤ) := by
    refine hv.upper _ ⟨1000 * (n + 1) * 2 ^ 26 - 1, -26, by rw [abs_lt]; omega, by decide, ?_⟩ ?_
    · push_cast
      norm_num
      ring
    · have := hgap (n + 1)
      push_cast at this
      exact this (by linarith)
  have hplace : (0 : ℚ) < 2 ^ (-26 : ℤ) := by positivity
  have hnonneg : (0 : ℚ) ≤ n := by exact_mod_cast hn
  have hlast : (n : ℚ) + 1 ≤ 86400 := by exact_mod_cast hn'
  refine ⟨by linarith, by linarith, Int.floor_eq_iff.2 ⟨?_, ?_⟩⟩
  · rw [le_div_iff₀ (by norm_num)]
    linarith
  · rw [div_lt_iff₀ (by norm_num)]
    linarith

/-- The start of a day is a double, for days within 64 bits. The day in which they begin is even. -/
theorem isExactly_dayStart {day : ℤ} (hlower : -106751991168 ≤ day) (hupper : day ≤ 106751991167) :
    IsExactly (floatOfInt day * millisecondsPerDay) (day * 86400000) := by
  have hproduct : floatOfInt day * millisecondsPerDay = floatOfInt (day * 86400000) := by
    change floatOfInt day * floatOfInt 86400000 = _
    rw [floatOfInt_mul (by omega) (by decide), if_neg (by omega)]
  have hfits : FitsDouble (day * 86400000) := by
    rcases hlower.eq_or_lt with rfl | hlower
    · exact ⟨-106751991168 / 2 * 84375, 11, by decide, by decide, by norm_num⟩
    · refine ⟨day * 84375, 10, by rw [abs_lt]; omega, by decide, ?_⟩
      push_cast
      ring
  have hsize : |((day * 86400000 : ℤ) : ℚ)| < 2 ^ 64 := by
    have : |day * 86400000| < 2 ^ 64 := by
      rw [abs_lt]
      omega
    exact_mod_cast this
  have hexact := isExactly_floatOfInt hsize (by exact_mod_cast hfits)
  rw [hproduct]
  exact_mod_cast hexact

/-- The days within 64 bits of milliseconds. -/
theorem day_bounds (hsize : |t| < 2 ^ 63) :
    -106751991168 ≤ ⌊t / 86400000⌋ ∧ ⌊t / 86400000⌋ ≤ 106751991167 := by
  obtain ⟨hlower, hupper⟩ := abs_lt.1 hsize
  rw [Int.le_floor, ← Int.lt_add_one_iff, Int.floor_lt, le_div_iff₀ (by norm_num),
    div_lt_iff₀ (by norm_num)]
  push_cast
  constructor <;> linarith

/-- The time of the day has the floor of the exact one. -/
theorem floorInt_rest (hx : IsExactly x t) (hsize : |t| < 2 ^ 63)
    (hclear : IsClearOfSecond t) :
    floorInt ((x - floatOfInt ⌊t / 86400000⌋ * millisecondsPerDay) / 1000) =
      ⌊(t - ⌊t / 86400000⌋ * 86400000) / 1000⌋ := by
  obtain ⟨hlower, hupper⟩ := rest_bounds t
  obtain ⟨hday, hday'⟩ := day_bounds hsize
  have hrest := roundsTo_sub hx (isExactly_dayStart hday hday') (lt_two_zpow_1023 (by
    rw [abs_of_nonneg hlower]
    linarith))
  by_cases hlast : -86400000 < t ∧ t < 0
  · have hfloor : ⌊t / 86400000⌋ = -1 := by
      rw [Int.floor_eq_iff, le_div_iff₀ (by norm_num), div_lt_iff₀ (by norm_num)]
      push_cast
      constructor <;> linarith
    obtain ⟨v, hv, hnearest⟩ := hrest
    rw [hfloor] at hlower hupper hv hnearest ⊢
    obtain ⟨hnonneg, hle, heq⟩ := isNearest_rest_floor hnearest hlower hupper fun k hk => by
      have := hclear hlast.1 hlast.2 (k - 86400)
      push_cast at hk this ⊢
      linarith [this (by linarith)]
    rw [floorInt_div_second hv hnonneg hle, heq]
  · have hfits := fitsDouble_rest hx hsize (by
      by_contra h
      rw [not_or, not_le, not_le] at h
      exact hlast h.symm)
    exact floorInt_div_second (hrest.isExactly hfits) hlower hupper.le

/-- The day of a time value is that of its second. -/
theorem day_of_second (t : ℚ) : ⌊t / 86400000⌋ = ⌊t / 1000⌋ / 86400 := by
  have hquotient : t / 86400000 = t / 1000 / (86400 : ℕ) := by
    rw [div_div]
    norm_num
  rw [hquotient, Int.floor_div_natCast]
  rfl

/-- The quotients split a time value exactly. -/
theorem splitTime_eq (hx : IsExactly x t) (hsize : |t| < 2 ^ 63)
    (hclear : IsClearOfSecond t) :
    splitTime x = (⌊t / 1000⌋ / 86400, ⌊t / 1000⌋ % 86400) := by
  have htiny : 0 ≤ t ∨ t ≤ -2 ^ (-26 : ℤ) := by
    rcases le_or_gt 0 t with hnonneg | hneg
    · exact .inl hnonneg
    rcases lt_or_ge (-86400000) t with hlast | hle
    · have := hclear hlast hneg 0
      rw [Int.cast_zero, mul_zero, zero_sub] at this
      exact .inr (this hneg)
    · exact .inr (hle.trans (by norm_num))
  have hday := day_of_second t
  have hrest : ⌊(t - ⌊t / 86400000⌋ * 86400000) / 1000⌋ = ⌊t / 1000⌋ % 86400 := by
    have hquotient : (t - ⌊t / 86400000⌋ * 86400000) / 1000 =
        t / 1000 - (⌊t / 86400000⌋ * 86400 : ℤ) := by
      push_cast
      ring
    rw [hquotient, Int.floor_sub_intCast, hday]
    omega
  obtain ⟨hlower, hupper⟩ := day_bounds hsize
  rw [splitTime, floorInt_div_day hx hsize htiny]
  simp only [floorInt_rest hx hsize hclear, hrest]
  rw [hday] at hlower hupper ⊢
  rw [clamp64_of_fits ⟨by omega, by omega⟩, clamp64_of_fits ⟨by omega, by omega⟩]

/-- A time value of 64 bits that is clear of the next second has the text of the time in which it
lies. No sum on its day count leaves 64 bits. -/
theorem dateText_shows_time (hx : IsExactly x t) (hsize : |t| < 2 ^ 63)
    (hclear : IsClearOfSecond t) :
    (Fits64 ((splitTime x).1 + 4) ∧ Fits64 ((splitTime x).1 + CalendarDate.epochOffset)) ∧
      ∃ time : CalendarTime, time.IsValid ∧ time.secondNumber = ⌊t / 1000⌋ ∧
        dateText x = time.text := by
  have hsplit := splitTime_eq hx hsize hclear
  obtain ⟨hlower, hupper⟩ := day_bounds hsize
  rw [day_of_second] at hlower hupper
  rw [hsplit]
  have hweek : Fits64 (⌊t / 1000⌋ / 86400 + 4) := by
    constructor <;> omega
  have hfits : Fits64 (⌊t / 1000⌋ / 86400 + CalendarDate.epochOffset) := by
    unfold CalendarDate.epochOffset
    constructor <;> omega
  obtain ⟨hvalid, hcount⟩ := CalendarTime.ofSeconds_spec hfits
  have htext := dateText_of_splitTime (isFinite_iff.2 ⟨t, hx⟩) hweek hfits hsplit
  exact ⟨⟨hweek, hfits⟩, _, hvalid, hcount, htext⟩

end

/-- A millisecond and a half before 1970 is in the last second of 1969. -/
theorem dateText_shows_time_before_epoch :
    IsExactly (.ofBits 0xbff8000000000000) (-3 / 2) ∧ |(-3 / 2 : ℚ)| < 2 ^ 63 ∧
      IsClearOfSecond (-3 / 2) ∧
      (Fits64 ((splitTime (.ofBits 0xbff8000000000000)).1 + 4) ∧
        Fits64 ((splitTime (.ofBits 0xbff8000000000000)).1 + CalendarDate.epochOffset)) ∧
      ∃ time : CalendarTime, time.IsValid ∧ time.secondNumber = ⌊(-3 / 2 : ℚ) / 1000⌋ ∧
        dateText (.ofBits 0xbff8000000000000) = time.text := by
  have hx : IsExactly (.ofBits 0xbff8000000000000) (-3 / 2) :=
    ⟨⟨true, 3 * 2 ^ 51, -52⟩, rfl, by norm_num [Binary.value, Binary.magnitude]⟩
  have hsize : |(-3 / 2 : ℚ)| < 2 ^ 63 := by
    rw [abs_lt]
    norm_num
  have hclear : IsClearOfSecond (-3 / 2) := by
    intro _ _ k hk
    have hk' : (0 : ℤ) ≤ k := by
      by_contra hneg
      have : (k : ℚ) ≤ -1 := by exact_mod_cast (by omega : k ≤ -1)
      linarith
    have : (0 : ℚ) ≤ k := by exact_mod_cast hk'
    norm_num
    linarith
  exact ⟨hx, hsize, hclear, dateText_shows_time hx hsize hclear⟩

/-! ### Times that are rounded up -/

/-- A number below 60 is written with two digits. -/
theorem length_zeroPadded_two {i : ℤ} (hlower : 0 ≤ i) (hupper : i < 60) :
    (zeroPadded 2 i).toList.length = 2 := by
  lift i to ℕ using hlower
  have hplaces : ∀ n < 60, (zeroPadded 2 (n : ℕ)).toList.length = 2 := by decide
  exact hplaces i (by omega)

/-- The places of the hour and of the second in the text of a time. -/
theorem CalendarTime.IsValid.clock_of_text {time : CalendarTime} (hvalid : time.IsValid)
    (front hour minute second : String) (hhour : hour.toList.length = 2)
    (hminute : minute.toList.length = 2) (hsecond : second.toList.length = 2)
    (htext : time.text = front ++ " " ++ (hour ++ ":" ++ minute ++ ":" ++ second) ++ " " ++
      "GMT+0000 (Coordinated Universal Time)") :
    zeroPadded 2 time.hour = hour ∧ zeroPadded 2 time.second = second := by
  have hhour' := length_zeroPadded_two hvalid.hour.1 (by linarith [hvalid.hour.2])
  have hminute' := length_zeroPadded_two hvalid.minute.1 hvalid.minute.2
  have hsecond' := length_zeroPadded_two hvalid.second.1 hvalid.second.2
  obtain ⟨front', hfront'⟩ : ∃ front', time.text = front' ++ " " ++ time.clockText ++ " " ++
      "GMT+0000 (Coordinated Universal Time)" := ⟨_, rfl⟩
  have hclock : time.clockText = zeroPadded 2 time.hour ++ ":" ++ zeroPadded 2 time.minute ++ ":" ++
    zeroPadded 2 time.second := rfl
  rw [hfront', hclock] at htext
  have hlists := congrArg String.toList htext
  simp only [String.toList_append, List.append_assoc] at hlists
  have hplaces := List.append_cancel_left (List.append_inj' hlists (by
    simp only [List.length_append, hhour, hminute, hsecond, hhour', hminute', hsecond'])).2
  obtain ⟨hhours, hplaces⟩ := List.append_inj hplaces (hhour'.trans hhour.symm)
  have hplaces := List.append_cancel_left hplaces
  obtain ⟨-, hplaces⟩ := List.append_inj hplaces (hminute'.trans hminute.symm)
  have hplaces := List.append_cancel_left hplaces
  obtain ⟨hseconds, -⟩ := List.append_inj hplaces (hsecond'.trans hsecond.symm)
  exact ⟨String.toList_inj.1 hhours, String.toList_inj.1 hseconds⟩

/-- The last millisecond of 1969 is rounded up to an hour that there is not, and a large time value
close below a day to a negative second: the texts are those of no time. -/
theorem dateText_shows_no_time_before_midnight :
    (IsExactly (.ofBits 0xbe112e0be826d695) (-4835703278458517 / 2 ^ 82) ∧
      dateText (.ofBits 0xbe112e0be826d695) =
        "Wed Dec 31 1969 24:00:00 GMT+0000 (Coordinated Universal Time)" ∧
      ¬∃ time : CalendarTime, time.IsValid ∧
        dateText (.ofBits 0xbe112e0be826d695) = time.text) ∧
    IsExactly (.ofBits 0x43e499700000a4cb) 11874725580067198976 ∧
      dateText (.ofBits 0x43e499700000a4cb) =
        "Sun Oct 01 376297043 00:00:-3 GMT+0000 (Coordinated Universal Time)" ∧
      ¬∃ time : CalendarTime, time.IsValid ∧
        dateText (.ofBits 0x43e499700000a4cb) = time.text := by
  have hmidnight : dateText (.ofBits 0xbe112e0be826d695) =
      "Wed Dec 31 1969 24:00:00 GMT+0000 (Coordinated Universal Time)" := by decide +kernel
  have hlarge : dateText (.ofBits 0x43e499700000a4cb) =
      "Sun Oct 01 376297043 00:00:-3 GMT+0000 (Coordinated Universal Time)" := by decide +kernel
  refine ⟨⟨?_, hmidnight, ?_⟩, ?_, hlarge, ?_⟩
  · exact ⟨⟨true, 4835703278458517, -82⟩, rfl, by norm_num [Binary.value, Binary.magnitude]⟩
  · -- the text fixes the clock, and no valid hour is shown as 24
    rintro ⟨time, hvalid, htext⟩
    obtain ⟨hhour, -⟩ := hvalid.clock_of_text "Wed Dec 31 1969" "24" "00" "00" rfl rfl rfl
      (htext.symm.trans hmidnight)
    obtain ⟨hlower, hupper⟩ := hvalid.hour
    lift time.hour to ℕ using hlower with hour
    have hhours : ∀ n < 24, zeroPadded 2 (n : ℕ) ≠ "24" := by decide
    exact hhours hour (by omega) hhour
  · exact ⟨⟨false, 5798205849642187, 11⟩, rfl, by norm_num [Binary.value, Binary.magnitude]⟩
  · rintro ⟨time, hvalid, htext⟩
    obtain ⟨-, hsecond⟩ := hvalid.clock_of_text "Sun Oct 01 376297043" "00" "00" "-3" rfl rfl rfl
      (htext.symm.trans hlarge)
    obtain ⟨hlower, hupper⟩ := hvalid.second
    lift time.second to ℕ using hlower with second
    have hseconds : ∀ n < 60, zeroPadded 2 (n : ℕ) ≠ "-3" := by decide
    exact hseconds second (by omega) hsecond

end ScriptOps
