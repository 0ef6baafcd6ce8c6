import Mathlib.Algebra.Order.Ring.Int
import Mathlib.Data.Nat.Notation

/-!
# The real-time clock library

The part of `libRtc.cpp` that goes between ticks, the microseconds since 1 January of the year `1`,
and dates, and what it uses of `Common::Date`.

`int` and `jd_t` are `ℤ`; all dates that get past the checks have small numbers, and nothing wraps.
So it is with the `uint64_t` of the ticks, which are `ℕ`: the numbers that are computed from a tick
are smaller than it or below `2 ^ 32`, a date of the years up to `9999` has a tick below `2 ^ 59`,
and no difference is below zero.

A pointer is an `Option` with what it points to, and `none` for `nullptr`. A call returns its code,
and what the pointer it writes to points to afterwards.
-/

namespace Prosperismo.Rtc

/-! ### `Common::Date` -/

/-- `FloorDiv`, with a positive divisor. -/
def floorDiv (a b : ℤ) : ℤ := (a - if a < 0 then b - 1 else 0).tdiv b

/-- `Date::DaysInMonth`. -/
def daysInMonth (month : ℤ) : ℤ :=
  match month with
  | 1 | 3 | 5 | 7 | 8 | 10 | 12 => 31
  | 4 | 6 | 9 | 11 => 30
  | 2 => 28
  | _ => 0

/-- `Date::IsLeapYear`. -/
def isLeapYear (year : ℤ) : Bool :=
  let year := if year < 1 then year + 1 else year
  decide (year.tmod 4 = 0 ∧ year.tmod 100 ≠ 0 ∨ year.tmod 400 = 0)

/-- `Date::IsValid`. -/
def isValid (year month day : ℤ) : Bool :=
  if year = 0 then false
  else decide (1 ≤ day ∧ (day ≤ daysInMonth month ∨
    day = 29 ∧ month = 2 ∧ isLeapYear year = true))

/-- `YmdToJd`. -/
def ymdToJd (year month day : ℤ) : ℤ :=
  let tYear := if year < 0 then year + 1 else year
  let a := floorDiv (14 - month) 12
  let y := tYear + 4800 - a
  let m := month + 12 * a - 3
  day + floorDiv (153 * m + 2) 5 + 365 * y + floorDiv y 4 - floorDiv y 100 + floorDiv y 400 - 32045

/-- `DATE_JD_INVALID`. -/
def dateJdInvalid : ℤ := -0x80000000

/-- The constructor of `Date`. -/
def dateOf (year month day : ℤ) : ℤ :=
  if isValid year month day then ymdToJd year month day else dateJdInvalid

/-- `Date::DayOfWeek`. -/
def dayOfWeek (jd : ℤ) : ℤ :=
  if jd = dateJdInvalid then 0
  else if 0 ≤ jd then jd.tmod 7 + 1
  else (jd + 1).tmod 7 + 7

/-! ### Dates of the library -/

/-- `OK`. -/
def ok : ℤ := 0

/-- `RTC_ERROR_INVALID_POINTER`. -/
def errorInvalidPointer : ℤ := -2135621630

/-- `RTC_ERROR_INVALID_VALUE`. -/
def errorInvalidValue : ℤ := -2135621629

/-- `RTC_ERROR_INVALID_YEAR`. -/
def errorInvalidYear : ℤ := -2135621624

/-- `RTC_ERROR_INVALID_MONTH`. -/
def errorInvalidMonth : ℤ := -2135621623

/-- `RTC_ERROR_INVALID_DAY`. -/
def errorInvalidDay : ℤ := -2135621622

/-- `RTC_ERROR_INVALID_HOUR`. -/
def errorInvalidHour : ℤ := -2135621621

/-- `RTC_ERROR_INVALID_MINUTE`. -/
def errorInvalidMinute : ℤ := -2135621620

/-- `RTC_ERROR_INVALID_SECOND`. -/
def errorInvalidSecond : ℤ := -2135621619

/-- `RTC_ERROR_INVALID_MICROSECOND`. -/
def errorInvalidMicrosecond : ℤ := -2135621618

/-- `RtcDateTime`. -/
@[ext]
structure RtcDateTime where
  year : ℕ
  month : ℕ
  day : ℕ
  hour : ℕ
  minute : ℕ
  second : ℕ
  microsecond : ℕ
  deriving DecidableEq

/-- `RtcCheckValid`. -/
def rtcCheckValid (time : Option RtcDateTime) : ℤ :=
  match time with
  | none => errorInvalidPointer
  | some time =>
    if time.year = 0 ∨ 9999 < time.year then errorInvalidYear
    else if time.month = 0 ∨ 12 < time.month then errorInvalidMonth
    else if time.day = 0 ∨ !isValid time.year time.month time.day then errorInvalidDay
    else if 24 ≤ time.hour then errorInvalidHour
    else if 60 ≤ time.minute then errorInvalidMinute
    else if 60 ≤ time.second then errorInvalidSecond
    else if 1000000 ≤ time.microsecond then errorInvalidMicrosecond
    else ok

/-- `RtcGetDaysInMonth`. -/
def rtcGetDaysInMonth (year month : ℤ) : ℤ :=
  if year ≤ 0 ∨ 9999 < year then errorInvalidYear
  else if month ≤ 0 ∨ 12 < month then errorInvalidMonth
  else if month = 2 ∧ isLeapYear year = true then 29
  else daysInMonth month

/-- `RtcGetDayOfWeek`. -/
def rtcGetDayOfWeek (year month day : ℤ) : ℤ :=
  let days := rtcGetDaysInMonth year month
  if days < 0 then days
  else if day ≤ 0 ∨ days < day then errorInvalidDay
  else
    let dow := dayOfWeek (dateOf year month day)
    if dow = 7 then 0 else dow

/-! ### Ticks -/

/-- The date that `RtcSetTick` computes from a number of days: the year, the month and the day. -/
def dateOfDays (days : ℕ) : ℕ × ℕ × ℕ :=
  let days := days + 307
  let j := (days <<< 2) - 1
  let ly := j / 146097
  let j := j - 146097 * ly
  let ld := j >>> 2
  let j := ((ld <<< 2) + 3) / 1461
  let ld := (((ld <<< 2) + 7) - 1461 * j) >>> 2
  let lm := (5 * ld - 3) / 153
  let ld := (5 * ld + 2 - 153 * lm) / 5
  let ly := 100 * ly + j
  if lm < 10 then (ly, lm + 3, ld) else (ly + 1, lm - 9, ld)

/-- `RtcSetTick`. -/
def rtcSetTick (time : Option RtcDateTime) (tick : Option ℕ) : ℤ × Option RtcDateTime :=
  match time, tick with
  | some _, some tick =>
    let days := tick / 86400000000
    let usec := tick % 86400000000
    let (ly, lm, ld) := dateOfDays days
    if ly = 0 ∨ 9999 < ly then (errorInvalidValue, time)
    else
      let hour := usec / 3600000000
      let usec := usec % 3600000000
      let minute := usec / 60000000
      let usec := usec % 60000000
      let second := usec / 1000000
      let usec := usec % 1000000
      let time := some ⟨ly, lm, ld, hour, minute, second, usec⟩
      (rtcCheckValid time, time)
  | _, _ => (errorInvalidPointer, time)

/-- The number of days that `RtcGetTick` computes from a date. -/
def daysOfDate (year month day : ℕ) : ℕ :=
  let (year, month) := if 2 < month then (year, month - 3) else (year - 1, month + 9)
  let c := year / 100
  let ya := year - 100 * c
  ((146097 * c) >>> 2) + ((1461 * ya) >>> 2) + (153 * month + 2) / 5 + day - 307

/-- `RtcGetTick`. -/
def rtcGetTick (time : Option RtcDateTime) (tick : Option ℕ) : ℤ × Option ℕ :=
  match time, tick with
  | some value, some _ =>
    let valid := rtcCheckValid time
    if valid ≠ ok then (valid, tick)
    else
      let days := daysOfDate value.year value.month value.day * 86400000000
      let usec := value.hour * 3600000000 + value.minute * 60000000 + value.second * 1000000 +
        value.microsecond
      (ok, some (days + usec))
  | _, _ => (errorInvalidPointer, tick)

end Prosperismo.Rtc
