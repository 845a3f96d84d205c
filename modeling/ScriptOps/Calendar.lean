import ScriptOps.Number.Residue

/-!
# Dates

A time value counts milliseconds from the start of 1970. Its day count becomes a date of the
proleptic Gregorian calendar through years that begin in March, so that the leap day is the last day
of its year and the months before it follow one linear rule.
-/

namespace ScriptOps

/-- An integer in 64 bits with a sign. Sums that do not fit wrap around. -/
def wrap64 (i : Int) : Int :=
  i.bmod 0x10000000000000000

/-- A day of the proleptic Gregorian calendar. -/
structure CalendarDate where
  /-- The astronomical year: the year before 1 is 0. -/
  year : Int
  /-- The month, from 1 to 12. -/
  month : Int
  /-- The day of the month, from 1. -/
  day : Int
deriving DecidableEq

namespace CalendarDate

/-- The days of 400 years. -/
def daysPerEra : Int := 146097

/-- The days from the first of March of year 0 to the start of 1970. -/
def epochOffset : Int := 719468

/-- The date a number of days after the first of January 1970, for day counts of 64 bits. -/
def ofDays (days : Int) : CalendarDate :=
  let shifted := wrap64 (days + epochOffset)
  let era := shifted / daysPerEra
  let dayOfEra := shifted % daysPerEra
  let yearOfEra := (dayOfEra - dayOfEra / 1460 + dayOfEra / 36524 - dayOfEra / 146096) / 365
  let dayOfYear := dayOfEra - (365 * yearOfEra + yearOfEra / 4 - yearOfEra / 100)
  let marchMonth := (5 * dayOfYear + 2) / 153
  let month := if marchMonth < 10 then marchMonth + 3 else marchMonth - 9
  let year := yearOfEra + era * 400 + if month ≤ 2 then 1 else 0
  ⟨year, month, dayOfYear - (153 * marchMonth + 2) / 5 + 1⟩

end CalendarDate

/-- The day of the week, from 0 for Sunday. The first of January 1970 was a Thursday. -/
def weekdayOfDays (days : Int) : Nat :=
  (wrap64 (days + 4) % 7).toNat

/-! ### The text of a time value -/

/-- An integer in at least `width` places, filled with zeros. A sign takes one of the places. -/
def zeroPadded (width : Nat) (i : Int) : String :=
  let sign := if i < 0 then "-" else ""
  let digits := toString i.natAbs
  sign ++ String.ofList (List.replicate (width - sign.length - digits.length) '0') ++ digits

/-- A year has four places, or a minus sign and six. -/
def yearText (year : Int) : String :=
  if year < 0 then "-" ++ zeroPadded 6 (-year) else zeroPadded 4 year

/-- The milliseconds of a day. -/
def millisecondsPerDay : Float := 86400000

/-- The greatest integer that is at most a finite number. -/
def floorInt (x : Float) : Int :=
  ((Binary.ofFloat? x).map Binary.floor).getD 0

/-- Day and second counts stay within 64 bits. -/
def clamp64 (i : Int) : Int :=
  max (-0x8000000000000000) (min i 0x7fffffffffffffff)

/-- The days before a time value and the seconds since the last of them, in the arithmetic of
doubles. -/
def splitTime (time : Float) : Int × Int :=
  let days := floorInt (time / millisecondsPerDay)
  let rest := time - floatOfInt days * millisecondsPerDay
  (clamp64 days, clamp64 (floorInt (rest / 1000)))

/-- The names of the days of the week. -/
def weekdayNames : Array String := #["Sun", "Mon", "Tue", "Wed", "Thu", "Fri", "Sat"]

/-- The names of the months. -/
def monthNames : Array String :=
  #["Jan", "Feb", "Mar", "Apr", "May", "Jun", "Jul", "Aug", "Sep", "Oct", "Nov", "Dec"]

/-- The text of a time value, in UTC. -/
def dateText (time : Float) : String :=
  if time.isFinite then
    let (days, seconds) := splitTime time
    let date := CalendarDate.ofDays days
    let clock := [seconds.tdiv 3600, (seconds.tdiv 60).tmod 60, seconds.tmod 60]
    " ".intercalate [
      weekdayNames.getD (weekdayOfDays days) "",
      monthNames.getD (date.month - 1).toNat "",
      zeroPadded 2 date.day,
      yearText date.year,
      ":".intercalate (clock.map (zeroPadded 2)),
      "GMT+0000 (Coordinated Universal Time)"]
  else "Invalid Date"

end ScriptOps
