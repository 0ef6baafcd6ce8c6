import Prosperismo.Base.Scanf
import Prosperismo.Rtc.Model

/-!
# Ticks as text

`RtcFormatRFC3339` and `RtcParseRFC3339` of `libRtc.cpp`. A `const char*` is the memory from where
it points to, as far as it may be read; a read past its end is `none`. What a call has written is
the string with its terminator.

A tick is a `uint64_t`, and here it does wrap where a time zone is added or taken away. The digits
of a fraction are counted in `ℕ`: the `int` of the code overflows after `2 ^ 31` of them. -/

namespace Prosperismo.Rtc

/-- A number modulo `2 ^ 64`. -/
def toUnsigned (n : ℤ) : ℕ := (n % 0x10000000000000000).toNat

/-- The ticks of a number of minutes. -/
def minuteTicks (minutes : ℤ) : ℤ := minutes * 60000000

/-- A zero-initialised `RtcDateTime`. -/
def RtcDateTime.zero : RtcDateTime := ⟨0, 0, 0, 0, 0, 0, 0⟩

/-- The zone of `RtcFormatRFC3339`: a `char[8]`, which keeps seven characters. -/
def zoneText (timeZoneMinutes : ℤ) : List Char :=
  if timeZoneMinutes = 0 then ['Z']
  else
    let sign := if timeZoneMinutes < 0 then '-' else '+'
    let minutes := timeZoneMinutes.natAbs
    (sign :: (padded 2 (minutes / 60) ++ ':' :: padded 2 (minutes % 60))).take 7

/-- The text of a date-time, up to the zone. -/
def timeText (time : RtcDateTime) : List Char :=
  padded 4 time.year ++ '-' :: (padded 2 time.month ++ '-' :: (padded 2 time.day ++
    'T' :: (padded 2 time.hour ++ ':' :: (padded 2 time.minute ++ ':' :: (padded 2 time.second ++
      '.' :: padded 2 (time.microsecond / 10000))))))

/-- `RtcFormatRFC3339`, at a time when `RtcGetCurrentTick` gives `now`. The string has at most `31`
characters. -/
def rtcFormatRFC3339 (now : ℕ) (dateTime : Option (List Char)) (utc : Option ℕ)
    (timeZoneMinutes : ℤ) : ℤ × Option (List Char) :=
  match dateTime with
  | none => (errorInvalidPointer, none)
  | some _ =>
    let tick := utc.getD now
    let offsetTicks := minuteTicks timeZoneMinutes
    if offsetTicks < 0 ∧ (tick : ℤ) < -offsetTicks then (errorInvalidValue, dateTime)
    else
      let tick := toUnsigned (tick + offsetTicks)
      let set := rtcSetTick (some .zero) (some tick)
      if set.1 ≠ ok then (set.1, dateTime)
      else
        let time := set.2.getD .zero
        (ok, some ((timeText time ++ zoneText timeZoneMinutes).take 31 ++ ['\x00']))

/-! ### Parsing -/

/-- `"%hu-%hu-%huT%hu:%hu:%hu%n"`. -/
def dateFormat : List Directive :=
  [.number none, .literal '-', .number none, .literal '-', .number none, .literal 'T',
    .number none, .literal ':', .number none, .literal ':', .number none]

/-- `"%02d:%02d"`. -/
def zoneFormat : List Directive := [.number (some 2), .literal ':', .number (some 2)]

/-- A number goes into an `unsigned short`. For one that does not fit the C standard says nothing,
and `libc` may store anything. -/
def toShort (libc : ℤ → ℕ) (value : ℤ) : ℕ :=
  if 0 ≤ value ∧ value < 65536 then value.toNat else libc value

/-- The date-time that the numbers of `dateFormat` are stored in. -/
def storeFields (libc : ℤ → ℕ) (values : List ℤ) : RtcDateTime :=
  match values.map (toShort libc) with
  | [year, month, day, hour, minute, second] => ⟨year, month, day, hour, minute, second, 0⟩
  | _ => .zero

/-- The loop over the digits of a fraction: the microseconds, the number of digits, and the rest. -/
def fractionLoop (microsecond digits : ℕ) : List Char → Option (ℕ × ℕ × List Char)
  | [] => none
  | c :: pos =>
    if c.isDigit then
      fractionLoop (if digits < 6 then microsecond * 10 + (c.toNat - '0'.toNat) else microsecond)
        (digits + 1) pos
    else some (microsecond, digits, c :: pos)

/-- The zeros that are missing to a microsecond. -/
def fillLoop (microsecond : ℕ) : ℕ → ℕ
  | 0 => microsecond
  | missing + 1 => fillLoop (microsecond * 10) missing

/-- The fraction, if there is one, and the rest. -/
def readFraction : List Char → Option (ℕ × List Char)
  | [] => none
  | c :: pos =>
    if c = '.' then do
      let read ← fractionLoop 0 0 pos
      -- without digits there is nothing to fill
      some (fillLoop read.1 (if 0 < read.2.1 then 6 - read.2.1 else 0), read.2.2)
    else some (0, c :: pos)

/-- The end of `RtcParseRFC3339`, with `*utc` set to the tick of the date-time: the zone. -/
def readZone (utc : ℕ) : List Char → Option (ℤ × Option ℕ)
  | [] => none
  | c :: pos =>
    if c = 'Z' ∨ c = '\x00' then some (ok, some utc)
    else if c ≠ '+' ∧ c ≠ '-' then some (errorInvalidValue, some utc)
    else do
      let scanned ← scanf zoneFormat pos
      match scanned.1 with
      | [zoneHour, zoneMin] =>
        let zoneMinutes := zoneHour * 60 + zoneMin
        let offsetTicks := minuteTicks (if c = '-' then -zoneMinutes else zoneMinutes)
        if 0 < offsetTicks ∧ (utc : ℤ) < offsetTicks then some (errorInvalidValue, some utc)
        else some (ok, some (toUnsigned (utc - offsetTicks)))
      | _ => some (errorInvalidValue, some utc)

/-- `RtcParseRFC3339`. -/
def rtcParseRFC3339 (libc : ℤ → ℕ) (utc : Option ℕ) (dateTime : Option (List Char)) :
    Option (ℤ × Option ℕ) :=
  match utc, dateTime with
  | some _, some dateTime => do
    let scanned ← scanf dateFormat dateTime
    if scanned.1.length ≠ 6 then some (errorInvalidValue, utc)
    else
      -- `date_time + parsed`, where `parsed` is `0` if `%n` was not reached
      let (microsecond, pos) ← readFraction (scanned.2.getD dateTime)
      let time := { storeFields libc scanned.1 with microsecond := microsecond }
      let got := rtcGetTick (some time) utc
      if got.1 ≠ ok then some got
      else readZone (got.2.getD 0) pos
  | _, _ => some (errorInvalidPointer, utc)

end Prosperismo.Rtc
