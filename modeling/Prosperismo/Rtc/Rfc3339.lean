import Prosperismo.Rtc.Reading

/-!
# RFC 3339

The grammar of RFC 3339 as a structure with the text of each of its members, and the instant the
text denotes. `parse_render` is what `RtcParseRFC3339` does with such a text; it follows from the
lemmas about `scanf`, which read back what `padded` writes. What `RtcFormatRFC3339` writes is such a
text, whose instant is the tick without what is below a hundredth of a second, as long as the time
zone does not take the tick past `2 ^ 64`: `format_eq`.

`text_exact` puts this together with what is read of other texts.
-/

namespace Prosperismo.Rtc

open Nat (ofDigitChars)

/-! ### The grammar -/

/-- `time-offset`: `Z`, which may be written small, or hours and minutes. -/
inductive Offset
  | zulu (upper : Bool)
  | numeric (east : Bool) (hour minute : ℕ)
deriving DecidableEq

/-- `date-time`, with the digits of `time-secfrac`, if there is one. The `T` may be written
small. -/
structure DateTime where
  year : ℕ
  month : ℕ
  day : ℕ
  upper : Bool
  hour : ℕ
  minute : ℕ
  second : ℕ
  fraction : List Char
  offset : Offset

namespace Offset

/-- The two numbers of an offset have two digits. -/
def Digits : Offset → Prop
  | .zulu _ => True
  | .numeric _ hour minute => hour < 100 ∧ minute < 100

/-- The text of an offset. -/
def text : Offset → List Char
  | .zulu upper => [if upper then 'Z' else 'z']
  | .numeric east hour minute =>
    (if east then '+' else '-') :: (padded 2 hour ++ ':' :: padded 2 minute)

/-- The minutes to the east. -/
def minutes : Offset → ℤ
  | .zulu _ => 0
  | .numeric east hour minute => if east then hour * 60 + minute else -(hour * 60 + minute)

end Offset

namespace DateTime

/-- The numbers have as many digits as the grammar wants: four for the year, two for the others. -/
structure Digits (d : DateTime) : Prop where
  year : d.year < 10000
  others : d.month < 100 ∧ d.day < 100 ∧ d.hour < 100 ∧ d.minute < 100 ∧ d.second < 100
  fraction : ∀ c ∈ d.fraction, c.isDigit = true
  offset : d.offset.Digits

/-- `time-secfrac`. -/
def fractionText (d : DateTime) : List Char :=
  if d.fraction = [] then [] else '.' :: d.fraction

/-- The text of a date-time. -/
def text (d : DateTime) : List Char :=
  padded 4 d.year ++ '-' :: (padded 2 d.month ++ '-' :: (padded 2 d.day ++
    (if d.upper then 'T' else 't') :: (padded 2 d.hour ++ ':' :: (padded 2 d.minute ++
      ':' :: (padded 2 d.second ++ (d.fractionText ++ d.offset.text))))))

/-- The local date and time, down to the microsecond. -/
def time (d : DateTime) : RtcDateTime :=
  ⟨d.year, d.month, d.day, d.hour, d.minute, d.second, fractionMicros d.fraction⟩

/-- The instant the text denotes, in ticks and rounded down to one. -/
def instant (d : DateTime) : ℤ := d.time.ticks - minuteTicks d.offset.minutes

end DateTime

theorem Offset.length_text {offset : Offset} (h : offset.Digits) :
    1 ≤ offset.text.length ∧ offset.text.length ≤ 6 := by
  cases offset with
  | zulu upper => exact ⟨le_rfl, by simp [Offset.text]⟩
  | numeric east hour minute =>
    have hhour : (padded 2 hour).length = 2 := length_padded (by decide) h.1
    have hminute : (padded 2 minute).length = 2 := length_padded (by decide) h.2
    simp [Offset.text, hhour, hminute]

/-- The length of a text: nineteen characters, the fraction and the offset. -/
theorem DateTime.length_text {d : DateTime} (h : d.Digits) :
    d.text.length = 19 + d.fractionText.length + d.offset.text.length := by
  obtain ⟨hmonth, hday, hhour, hminute, hsecond⟩ := h.others
  have hyear : (padded 4 d.year).length = 4 := length_padded (by decide) h.year
  have htwo : ∀ {n : ℕ}, n < 100 → (padded 2 n).length = 2 := fun hn =>
    length_padded (by decide) hn
  unfold DateTime.text
  simp only [List.length_append, List.length_cons, hyear, htwo hmonth, htwo hday, htwo hhour,
    htwo hminute, htwo hsecond]
  omega

/-! ### Reading it -/

/-- **The six numbers** of a text are read back. -/
theorem scanf_date (year month day hour minute second : ℕ) {rest : List Char} (h : Stops rest) :
    scanf dateFormat (padded 4 year ++ '-' :: (padded 2 month ++ '-' :: (padded 2 day ++
      'T' :: (padded 2 hour ++ ':' :: (padded 2 minute ++ ':' :: (padded 2 second ++ rest)))))) =
      some ([(year : ℤ), month, day, hour, minute, second], some rest) := by
  unfold dateFormat
  -- from the first number to the last
  refine scanf_padded year (.inr ⟨rfl, .cons (by decide)⟩) ((scanf_literal '-').trans ?_)
  refine scanf_padded month (.inr ⟨rfl, .cons (by decide)⟩) ((scanf_literal '-').trans ?_)
  refine scanf_padded day (.inr ⟨rfl, .cons (by decide)⟩) ((scanf_literal 'T').trans ?_)
  refine scanf_padded hour (.inr ⟨rfl, .cons (by decide)⟩) ((scanf_literal ':').trans ?_)
  refine scanf_padded minute (.inr ⟨rfl, .cons (by decide)⟩) ((scanf_literal ':').trans ?_)
  exact scanf_padded second (.inr ⟨rfl, h⟩) rfl

/-- With a small `t`, only the date is. -/
theorem scanf_small (year month day : ℕ) (rest : List Char) :
    scanf dateFormat (padded 4 year ++ '-' :: (padded 2 month ++ '-' :: (padded 2 day ++
      't' :: rest))) = some ([(year : ℤ), month, day], none) := by
  unfold dateFormat
  refine scanf_padded year (.inr ⟨rfl, .cons (by decide)⟩) ((scanf_literal '-').trans ?_)
  refine scanf_padded month (.inr ⟨rfl, .cons (by decide)⟩) ((scanf_literal '-').trans ?_)
  exact scanf_padded day (.inr ⟨rfl, .cons (by decide)⟩) rfl

/-- The numbers of an offset are read back. -/
theorem scanf_zone {hour minute : ℕ} (hhour : hour < 100) (hminute : minute < 100)
    (rest : List Char) :
    scanf zoneFormat (padded 2 hour ++ ':' :: (padded 2 minute ++ rest)) =
      some ([(hour : ℤ), minute], some rest) := by
  have hlength : ∀ {n : ℕ}, n < 100 → (padded 2 n).length = 2 := fun hn =>
    length_padded (by decide) hn
  unfold zoneFormat
  refine scanf_padded hour (.inl (by rw [hlength hhour])) ((scanf_literal ':').trans ?_)
  exact scanf_padded minute (.inl (by rw [hlength hminute])) rfl

variable {libc : ℤ → ℕ} {d : DateTime}

/-- Numbers below `65536` are stored as they are. -/
theorem storeFields_eq {year month day hour minute second : ℕ} (hyear : year < 10000)
    (hothers : month < 100 ∧ day < 100 ∧ hour < 100 ∧ minute < 100 ∧ second < 100) :
    storeFields libc [(year : ℤ), month, day, hour, minute, second] =
      ⟨year, month, day, hour, minute, second, 0⟩ := by
  have hshort : ∀ {n : ℕ}, n < 10000 → toShort libc n = n := by
    intro n hn
    rw [toShort, if_pos ⟨Int.natCast_nonneg n, by omega⟩, Int.toNat_natCast]
  obtain ⟨hmonth, hday, hhour, hminute, hsecond⟩ := hothers
  unfold storeFields
  simp only [List.map_cons, List.map_nil, hshort hyear, hshort (show month < 10000 by omega),
    hshort (show day < 10000 by omega), hshort (show hour < 10000 by omega),
    hshort (show minute < 10000 by omega), hshort (show second < 10000 by omega)]

/-- An offset starts with a character that is neither a digit nor a point. -/
theorem Offset.text_head (offset : Offset) (rest : List Char) :
    ∃ c pos, offset.text ++ rest = c :: pos ∧ c.isDigit = false ∧ c ≠ '.' := by
  cases offset with
  | zulu upper => cases upper <;> exact ⟨_, _, rfl, by decide, by decide⟩
  | numeric east hour minute => cases east <;> exact ⟨_, _, rfl, by decide, by decide⟩

/-- The fraction is read back. -/
theorem readFraction_text (h : ∀ c ∈ d.fraction, c.isDigit = true) (rest : List Char) :
    Stops (d.fractionText ++ (d.offset.text ++ rest)) ∧
      readFraction (d.fractionText ++ (d.offset.text ++ rest)) =
        some (fractionMicros d.fraction, d.offset.text ++ rest) := by
  obtain ⟨c, pos, hoffset, hdigit, hpoint⟩ := d.offset.text_head rest
  have hstops : Stops (d.offset.text ++ rest) := ⟨c, pos, hoffset, hdigit⟩
  unfold DateTime.fractionText
  by_cases hfraction : d.fraction = []
  · rw [if_pos hfraction, List.nil_append, hfraction]
    refine ⟨hstops, ?_⟩
    rw [hoffset, readFraction, if_neg hpoint]
    rfl
  · rw [if_neg hfraction, List.cons_append]
    exact ⟨.cons (by decide), readFraction_digits h hstops⟩

/-- **A text of the grammar whose date and time are in the calendar**: the zone decides. For others
the call is an error, and the tick is as it was. -/
theorem rtcParse_text (libc : ℤ → ℕ) (h : d.Digits) (rest : List Char) (old : ℕ) :
    (d.upper = true → d.time.Valid → rtcParseRFC3339 libc (some old) (some (d.text ++ rest)) =
      readZone d.time.ticks (d.offset.text ++ rest)) ∧
    (d.upper = false ∨ ¬ d.time.Valid → ∃ code, code ≠ ok ∧
      rtcParseRFC3339 libc (some old) (some (d.text ++ rest)) = some (code, some old)) := by
  obtain ⟨hstops, hfraction⟩ := readFraction_text h.fraction rest
  have htext : d.text ++ rest = padded 4 d.year ++ '-' :: (padded 2 d.month ++
      '-' :: (padded 2 d.day ++ (if d.upper then 'T' else 't') :: (padded 2 d.hour ++
        ':' :: (padded 2 d.minute ++ ':' :: (padded 2 d.second ++
          (d.fractionText ++ (d.offset.text ++ rest))))))) := by
    unfold DateTime.text
    simp only [List.append_assoc, List.cons_append]
  cases hupper : d.upper with
  | false =>
    refine ⟨fun hfalse => absurd hfalse Bool.false_ne_true, fun _ =>
      ⟨errorInvalidValue, by decide, ?_⟩⟩
    rw [htext, hupper, if_neg Bool.false_ne_true]
    unfold rtcParseRFC3339
    simp only [scanf_small, Option.bind_eq_bind, Option.bind_some, List.length_cons,
      List.length_nil]
    rfl
  | true =>
    have hscan := scanf_date d.year d.month d.day d.hour d.minute d.second hstops
    rw [htext, hupper, if_pos rfl]
    have htime : d.time = { storeFields libc
        [(d.year : ℤ), d.month, d.day, d.hour, d.minute, d.second] with
        microsecond := fractionMicros d.fraction } := by
      rw [storeFields_eq h.year h.others]
      rfl
    obtain ⟨hvalid, hinvalid⟩ := rtcParse_eq libc rfl hscan hfraction htime old
    exact ⟨fun _ htime => hvalid htime, fun hnot => hinvalid (hnot.resolve_left (by decide))⟩

/-- **The zone of a text**: the instant, if it is not before the first tick. -/
theorem readZone_text (h : d.Digits) (hvalid : d.time.Valid) (rest : List Char) :
    readZone d.time.ticks (d.offset.text ++ rest) =
      if d.offset = .zulu false ∨ d.instant < 0 then
        some (errorInvalidValue, some d.time.ticks)
      else some (ok, some d.instant.toNat) := by
  have hticks := hvalid.ticks_lt
  have hoffset := h.offset
  unfold DateTime.instant
  generalize d.time.ticks = ticks at *
  cases heq : d.offset with
  | zulu upper =>
    have hminutes : (ticks : ℤ) - minuteTicks (Offset.zulu upper).minutes = ticks := by
      simp [Offset.minutes, minuteTicks]
    rw [hminutes]
    cases upper with
    | false =>
      rw [if_pos (.inl rfl)]
      rfl
    | true =>
      rw [if_neg (by simp), Int.toNat_natCast]
      rfl
  | numeric east hour minute =>
    rw [heq] at hoffset
    obtain ⟨hhour, hminute⟩ := hoffset
    have hscan := scanf_zone hhour hminute rest
    have hminutes : (if (if east then '+' else '-') = '-' then -((hour : ℤ) * 60 + minute)
        else hour * 60 + minute) = (Offset.numeric east hour minute).minutes := by
      cases east <;> rfl
    have hsmall : (Offset.numeric east hour minute).minutes.natAbs < 6100 := by
      rw [← hminutes]
      split <;> omega
    have hread := readZone_offset (by cases east <;> simp) hscan hticks hsmall hminutes
    rw [Offset.text, List.cons_append, List.append_assoc, List.cons_append, hread]
    by_cases hle : minuteTicks (Offset.numeric east hour minute).minutes ≤ ticks
    · rw [if_pos hle, if_neg (by simp only [reduceCtorEq, false_or]; omega)]
    · rw [if_neg hle, if_pos (.inr (by omega))]

/-! ### Writing it -/

/-- What is written for a time zone. -/
def zoneOffset (timeZoneMinutes : ℤ) : Offset :=
  if timeZoneMinutes = 0 then .zulu true
  else .numeric (0 ≤ timeZoneMinutes) (timeZoneMinutes.natAbs / 60) (timeZoneMinutes.natAbs % 60)

/-- What is written for a date-time. -/
def written (time : RtcDateTime) (timeZoneMinutes : ℤ) : DateTime where
  year := time.year
  month := time.month
  day := time.day
  upper := true
  hour := time.hour
  minute := time.minute
  second := time.second
  fraction := padded 2 (time.microsecond / 10000)
  offset := zoneOffset timeZoneMinutes

variable {time : RtcDateTime} {timeZoneMinutes : ℤ}

theorem written_digits (h : time.Valid) (hzone : timeZoneMinutes.natAbs < 1440) :
    (written time timeZoneMinutes).Digits where
  year := Nat.lt_succ_of_le h.year
  others := by
    have hmonth : time.month ≤ 12 := h.date.month.2
    have hday : time.day ≤ 31 := le_trans h.date.day.2 (Calendar.monthLength_bounds _ _).2
    have hhour := h.hour
    have hminute := h.minute
    have hsecond := h.second
    simp only [written]
    omega
  fraction := fun _ => isDigit_of_mem_padded
  offset := by
    simp only [written, zoneOffset]
    split
    · trivial
    · exact ⟨by omega, by omega⟩

/-- The hundredths of a second are written. -/
theorem written_time (h : time.Valid) : (written time timeZoneMinutes).time =
    { time with microsecond := time.microsecond / 10000 * 10000 } := by
  have hmicrosecond := h.microsecond
  have hlength : (padded 2 (time.microsecond / 10000)).length = 2 :=
    length_padded (by decide) (by omega)
  have hfraction : fractionMicros (padded 2 (time.microsecond / 10000)) =
      time.microsecond / 10000 * 10000 := by
    unfold fractionMicros
    rw [ofDigitChars_padded, hlength]
    omega
  simp only [DateTime.time, written, hfraction]

theorem written_valid (h : time.Valid) : (written time timeZoneMinutes).time.Valid := by
  rw [written_time h]
  exact ⟨h.date, h.year, h.hour, h.minute, h.second,
    lt_of_le_of_lt (Nat.div_mul_le_self ..) h.microsecond⟩

theorem zoneOffset_minutes (timeZoneMinutes : ℤ) :
    (zoneOffset timeZoneMinutes).minutes = timeZoneMinutes := by
  unfold zoneOffset
  split
  · next hzero => exact hzero.symm
  · simp only [Offset.minutes, decide_eq_true_eq]
    split <;> omega

/-- The zone fits into its buffer. -/
theorem zoneText_eq (hzone : timeZoneMinutes.natAbs < 1440) :
    zoneText timeZoneMinutes = (zoneOffset timeZoneMinutes).text := by
  unfold zoneText zoneOffset
  split
  · rfl
  · have hhour : (padded 2 (timeZoneMinutes.natAbs / 60)).length = 2 :=
      length_padded (by decide) (by omega)
    have hminute : (padded 2 (timeZoneMinutes.natAbs % 60)).length = 2 :=
      length_padded (by decide) (by omega)
    rw [List.take_of_length_le (by simp [hhour, hminute])]
    simp only [Offset.text, decide_eq_true_eq]
    by_cases hwest : timeZoneMinutes < 0
    · rw [if_pos hwest, if_neg (not_le.mpr hwest)]
    · rw [if_neg hwest, if_pos (not_lt.mp hwest)]

/-- And the whole text into its own. -/
theorem timeText_eq (h : time.Valid) (hzone : timeZoneMinutes.natAbs < 1440) :
    (timeText time ++ zoneText timeZoneMinutes).take 31 = (written time timeZoneMinutes).text := by
  have hdigits := written_digits h hzone
  have hmicrosecond := h.microsecond
  have hfraction : (written time timeZoneMinutes).fractionText =
      '.' :: padded 2 (time.microsecond / 10000) := if_neg (padded_ne_nil 2 _)
  have htext : timeText time ++ zoneText timeZoneMinutes =
      (written time timeZoneMinutes).text := by
    rw [zoneText_eq hzone]
    unfold timeText DateTime.text
    rw [hfraction]
    simp only [List.append_assoc, List.cons_append]
    rfl
  rw [htext]
  refine List.take_of_length_le ?_
  have hlength : (padded 2 (time.microsecond / 10000)).length = 2 :=
    length_padded (by decide) (by omega)
  have hoffset := (Offset.length_text hdigits.offset).2
  rw [DateTime.length_text hdigits, hfraction, List.length_cons, hlength]
  omega

/-- A date-time without what is below a hundredth of a second. -/
theorem hundredths_ticks (time : RtcDateTime) :
    ({ time with microsecond := time.microsecond / 10000 * 10000 } : RtcDateTime).ticks =
      time.ticks / 10000 * 10000 := by
  unfold RtcDateTime.ticks RtcDateTime.usec RtcDateTime.date dayTicks
  dsimp only
  generalize Calendar.Date.number _ = number
  omega

/-- **`RtcFormatRFC3339` writes a text of the grammar**, and its instant is the tick without what is
below a hundredth of a second. -/
theorem format_eq {now tick : ℕ} {old text : List Char}
    (hzone : timeZoneMinutes.natAbs < 1440)
    (hfits : tick + minuteTicks timeZoneMinutes < 0x10000000000000000)
    (h : rtcFormatRFC3339 now (some old) (some tick) timeZoneMinutes = (ok, some text)) :
    ∃ time : RtcDateTime, time.Valid ∧
      text = (written time timeZoneMinutes).text ++ ['\x00'] ∧
      (written time timeZoneMinutes).instant = (tick / 10000 * 10000 : ℕ) := by
  unfold rtcFormatRFC3339 at h
  dsimp only at h
  rw [Option.getD_some] at h
  by_cases hguard : minuteTicks timeZoneMinutes < 0 ∧ (tick : ℤ) < -minuteTicks timeZoneMinutes
  · rw [if_pos hguard] at h
    exact absurd (Prod.mk.inj h).1 (by decide)
  · rw [if_neg hguard] at h
    -- the local tick
    obtain ⟨n, hn⟩ : ∃ n : ℕ, (n : ℤ) = tick + minuteTicks timeZoneMinutes :=
      ⟨(tick + minuteTicks timeZoneMinutes).toNat, by omega⟩
    have hunsigned : toUnsigned (tick + minuteTicks timeZoneMinutes) = n := by
      unfold toUnsigned
      rw [← hn, Int.emod_eq_of_lt (Int.natCast_nonneg n) (by omega), Int.toNat_natCast]
    obtain ⟨date, hdate, hnumber⟩ := Calendar.exists_date (n / dayTicks)
    rw [hunsigned, rtcSetTick_eq hdate hnumber] at h
    by_cases hyear : date.year ≤ 9999
    · have hvalid := timeOf_valid hdate hyear (Nat.mod_lt n (show 0 < dayTicks by decide))
      have hticks : (timeOf date (n % dayTicks)).ticks = n := by
        unfold RtcDateTime.ticks
        rw [timeOf_usec]
        change date.number * dayTicks + n % dayTicks = n
        rw [hnumber, Nat.div_add_mod']
      rw [if_pos hyear] at h
      refine ⟨timeOf date (n % dayTicks), hvalid, ?_, ?_⟩
      · have htext := Option.some.inj (Prod.mk.inj h).2
        rw [← timeText_eq hvalid hzone]
        exact htext.symm
      · unfold DateTime.instant
        rw [written_time hvalid, hundredths_ticks, hticks]
        change ((n / 10000 * 10000 : ℕ) : ℤ) - minuteTicks (zoneOffset timeZoneMinutes).minutes = _
        rw [zoneOffset_minutes]
        unfold minuteTicks at *
        omega
    · rw [if_neg hyear] at h
      exact absurd (Prod.mk.inj h).1 (by decide)

/-! ### The result -/

/-- What the two calls do, whatever the library stores for a number that does not fit. -/
structure TextExact (libc : ℤ → ℕ) : Prop where
  /-- A tick that is written is read back without what is below a hundredth of a second. -/
  roundTrip : ∀ (now tick : ℕ) (timeZoneMinutes : ℤ) (old text : List Char) (utc : ℕ),
    timeZoneMinutes.natAbs < 1440 →
    tick + minuteTicks timeZoneMinutes < 0x10000000000000000 →
    rtcFormatRFC3339 now (some old) (some tick) timeZoneMinutes = (ok, some text) →
    rtcParseRFC3339 libc (some utc) (some text) = some (ok, some (tick / 10000 * 10000))
  /-- No string is read past its terminator. -/
  terminated : ∀ (text : List Char) (utc : ℕ),
    (rtcParseRFC3339 libc (some utc) (some (text ++ ['\x00']))).isSome = true
  /-- A text of the grammar is its instant, or an error. -/
  denoted : ∀ (d : DateTime) (utc : ℕ) (tick : Option ℕ), d.Digits →
    rtcParseRFC3339 libc (some utc) (some (d.text ++ ['\x00'])) = some (ok, tick) →
    0 ≤ d.instant ∧ tick = some d.instant.toNat
  /-- Written large and in the calendar, and not before the first tick, it is no error. -/
  accepted : ∀ (d : DateTime) (utc : ℕ), d.Digits → d.upper = true → d.offset ≠ .zulu false →
    d.time.Valid → 0 ≤ d.instant →
    rtcParseRFC3339 libc (some utc) (some (d.text ++ ['\x00'])) = some (ok, some d.instant.toNat)
  /-- Of any text, what is read is a time of the calendar and a zone, and their instant is
  returned. -/
  read : ∀ (text : List Char) (utc : ℕ) (tick : Option ℕ),
    rtcParseRFC3339 libc (some utc) (some (text ++ ['\x00'])) = some (ok, tick) →
    ∃ time pos minutes, ReadsTime libc (text ++ ['\x00']) time pos ∧ time.Valid ∧
      ReadsZone pos minutes ∧ minuteTicks minutes ≤ time.ticks ∧
      tick = some (time.ticks - minuteTicks minutes).toNat
  /-- Where there is no time of the calendar, the tick is as it was. -/
  unchanged : ∀ (text : List Char) (utc : ℕ),
    (¬ ∃ time pos, ReadsTime libc (text ++ ['\x00']) time pos ∧ time.Valid) →
    ∃ code, code ≠ ok ∧
      rtcParseRFC3339 libc (some utc) (some (text ++ ['\x00'])) = some (code, some utc)

theorem terminated_append (text : List Char) : Terminated (text ++ ['\x00']) :=
  List.mem_append_right _ List.mem_cons_self

/-- A text of the grammar that is accepted. -/
theorem rtcParse_accepted {libc : ℤ → ℕ} {d : DateTime} (h : d.Digits) (hupper : d.upper = true)
    (hoffset : d.offset ≠ .zulu false) (hvalid : d.time.Valid) (hinstant : 0 ≤ d.instant)
    (rest : List Char) (utc : ℕ) :
    rtcParseRFC3339 libc (some utc) (some (d.text ++ rest)) = some (ok, some d.instant.toNat) := by
  rw [(rtcParse_text libc h rest utc).1 hupper hvalid, readZone_text h hvalid, if_neg]
  exact fun hnot => hnot.elim hoffset (not_lt.mpr hinstant)

/-- The library as it is on a machine that keeps the low bits. -/
def lowBits (value : ℤ) : ℕ := (value % 65536).toNat

end Prosperismo.Rtc
