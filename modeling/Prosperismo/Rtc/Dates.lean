import Prosperismo.Rtc.Ticks

/-!
# Ticks and dates are inverse

What `RtcCheckValid` accepts is a date of the calendar up to the year `9999` with a time of day
(`checkValid_iff`). `RtcGetTick` gives such a date its number of microseconds, `RtcSetTick` splits
the number up again, and the weekday is the number of days modulo seven. `ticks_and_dates` puts this
together. -/

namespace Prosperismo.Rtc

open Calendar (Date IsLeap daysBeforeYear exists_date monthLength)

/-! ### What is accepted -/

namespace RtcDateTime

/-- The date without the time of day. -/
def date (time : RtcDateTime) : Date := ⟨time.year, time.month, time.day⟩

/-- The microseconds of the day. -/
def usec (time : RtcDateTime) : ℕ :=
  time.hour * 3600000000 + time.minute * 60000000 + time.second * 1000000 + time.microsecond

/-- A date up to the year `9999`, and a time of day. -/
structure Valid (time : RtcDateTime) : Prop where
  date : time.date.Valid
  year : time.year ≤ 9999
  hour : time.hour < 24
  minute : time.minute < 60
  second : time.second < 60
  microsecond : time.microsecond < 1000000

/-- The chronological order: the first field that differs decides. -/
def Before (time time' : RtcDateTime) : Prop :=
  time.date.Before time'.date ∨ time.date = time'.date ∧
    (time.hour < time'.hour ∨ time.hour = time'.hour ∧
      (time.minute < time'.minute ∨ time.minute = time'.minute ∧
        (time.second < time'.second ∨ time.second = time'.second ∧
          time.microsecond < time'.microsecond)))

/-- The next microsecond: there is nothing between. -/
def Next (time time' : RtcDateTime) : Prop :=
  time.Before time' ∧ ∀ between : RtcDateTime, between.Valid →
    ¬ (time.Before between ∧ between.Before time')

end RtcDateTime

/-- The leap years of the code are those of the calendar. -/
theorem isLeapYear_iff {year : ℕ} (h : 1 ≤ year) : isLeapYear year = true ↔ IsLeap year := by
  unfold isLeapYear IsLeap
  dsimp only
  have hpos : (0 : ℤ) ≤ year := Int.natCast_nonneg year
  rw [if_neg (by omega), decide_eq_true_iff, Int.tmod_eq_emod_of_nonneg hpos,
    Int.tmod_eq_emod_of_nonneg hpos, Int.tmod_eq_emod_of_nonneg hpos]
  omega

/-- The days of a month in the code, and the leap day. -/
theorem monthLength_eq {year month : ℕ} (hmonth : 1 ≤ month ∧ month ≤ 12) :
    (monthLength year month : ℤ) =
      daysInMonth month + if month = 2 ∧ IsLeap year then 1 else 0 := by
  obtain ⟨hfirst, hlast⟩ := hmonth
  by_cases hleap : IsLeap year <;> interval_cases month <;>
    simp [daysInMonth, monthLength, hleap]

/-- The days of a month, with the leap day. -/
theorem isValid_iff {year month day : ℕ} (hyear : 1 ≤ year) (hmonth : 1 ≤ month ∧ month ≤ 12) :
    isValid year month day = true ↔ 1 ≤ day ∧ day ≤ monthLength year month := by
  unfold isValid
  rw [if_neg (by omega), decide_eq_true_iff, isLeapYear_iff hyear]
  have hlength := @monthLength_eq year month hmonth
  by_cases hfeb : month = 2
  · subst hfeb
    have hdays : daysInMonth ((2 : ℕ) : ℤ) = 28 := rfl
    rw [hdays] at hlength ⊢
    by_cases hleap : IsLeap year
    · rw [if_pos ⟨rfl, hleap⟩] at hlength
      simp only [hleap, and_true]
      omega
    · rw [if_neg fun hc => hleap hc.2] at hlength
      simp only [hleap, and_false, or_false]
      omega
  · rw [if_neg fun hc => hfeb hc.1] at hlength
    omega

/-- **`RtcCheckValid`**. -/
theorem checkValid_iff (time : RtcDateTime) : rtcCheckValid (some time) = ok ↔ time.Valid := by
  unfold rtcCheckValid
  dsimp only
  constructor
  · intro h
    split at h
    · cases h
    · next hyear =>
      split at h
      · cases h
      · next hmonth =>
        split at h
        · cases h
        · next hday =>
          split at h
          · cases h
          · split at h
            · cases h
            · split at h
              · cases h
              · split at h
                · cases h
                · simp only [Bool.not_eq_true', not_or, Bool.not_eq_false] at hday
                  have hmonth : 1 ≤ time.month ∧ time.month ≤ 12 := by omega
                  have hyear₁ : 1 ≤ time.year := by omega
                  exact ⟨⟨hyear₁, hmonth, (isValid_iff hyear₁ hmonth).1 hday.2⟩, by omega,
                    by omega, by omega, by omega, by omega⟩
  · intro h
    have hyear : 1 ≤ time.year := h.date.year
    have hmonth : 1 ≤ time.month ∧ time.month ≤ 12 := h.date.month
    have hday : 1 ≤ time.day ∧ time.day ≤ monthLength time.year time.month := h.date.day
    have hvalid := (isValid_iff hyear hmonth).2 hday
    have hbound := h.year
    rw [if_neg (by omega), if_neg (by omega), if_neg (by rw [hvalid]; simp; omega),
      if_neg (not_le.2 h.hour), if_neg (not_le.2 h.minute), if_neg (not_le.2 h.second),
      if_neg (not_le.2 h.microsecond)]

/-! ### Ticks -/

/-- The microseconds of a day. -/
def dayTicks : ℕ := 86400000000

namespace RtcDateTime

variable {time time' : RtcDateTime}

/-- The microseconds since the first day. -/
def ticks (time : RtcDateTime) : ℕ := time.date.number * dayTicks + time.usec

theorem Valid.usec_lt (h : time.Valid) : time.usec < dayTicks := by
  obtain ⟨-, -, hhour, hminute, hsecond, hmicrosecond⟩ := h
  unfold usec dayTicks
  omega

/-- The day of a tick. -/
theorem Valid.ticks_div (h : time.Valid) :
    time.ticks / dayTicks = time.date.number ∧ time.ticks % dayTicks = time.usec := by
  have hlt := h.usec_lt
  unfold ticks
  rw [Nat.mul_comm]
  exact ⟨by rw [Nat.mul_add_div (by decide), Nat.div_eq_of_lt hlt, Nat.add_zero],
    by rw [Nat.mul_add_mod, Nat.mod_eq_of_lt hlt]⟩

/-- A later date-time has more ticks. -/
theorem Valid.ticks_lt_of_before (h : time.Valid) (h' : time'.Valid)
    (hbefore : time.Before time') : time.ticks < time'.ticks := by
  have hlt := h.usec_lt
  unfold ticks
  obtain hdate | ⟨hdate, htime⟩ := hbefore
  · -- a whole day lies between the two days
    have hnumber := h.date.number_lt_of_before hdate
    calc time.date.number * dayTicks + time.usec
        < time.date.number * dayTicks + dayTicks := Nat.add_lt_add_left hlt _
      _ = (time.date.number + 1) * dayTicks := by rw [Nat.add_mul, Nat.one_mul]
      _ ≤ time'.date.number * dayTicks := Nat.mul_le_mul_right _ hnumber
      _ ≤ time'.date.number * dayTicks + time'.usec := Nat.le_add_right _ _
  · rw [hdate]
    refine Nat.add_lt_add_left ?_ _
    obtain ⟨-, -, -, hminute, hsecond, hmicrosecond⟩ := h
    obtain ⟨-, -, -, hminute', hsecond', hmicrosecond'⟩ := h'
    unfold usec
    omega

/-- Of two date-times, one is before the other, or they are equal. -/
theorem before_trichotomy (time time' : RtcDateTime) :
    time.Before time' ∨ time = time' ∨ time'.Before time := by
  unfold Before
  obtain hdate | hdate | hdate := Date.before_trichotomy time.date time'.date
  · exact .inl (.inl hdate)
  · have hfields := Date.ext_iff.1 hdate
    simp only [date] at hfields
    rw [RtcDateTime.ext_iff]
    simp only [hdate, true_and]
    omega
  · exact .inr (.inr (.inl hdate))

/-- **The order** of date-times is that of their ticks. -/
theorem Valid.ticks_lt_iff (h : time.Valid) (h' : time'.Valid) :
    time.ticks < time'.ticks ↔ time.Before time' := by
  refine ⟨fun hlt => ?_, h.ticks_lt_of_before h'⟩
  obtain hbefore | heq | hafter := before_trichotomy time time'
  · exact hbefore
  · exact absurd (congrArg ticks heq) hlt.ne
  · exact absurd (h'.ticks_lt_of_before h hafter) hlt.asymm

end RtcDateTime

/-- **`RtcGetTick`** of a date-time that is accepted. -/
theorem rtcGetTick_eq {time : RtcDateTime} (h : time.Valid) (old : ℕ) :
    rtcGetTick (some time) (some old) = (ok, some time.ticks) := by
  have hvalid := (checkValid_iff time).2 h
  have hdays := daysOfDate_eq h.date
  change daysOfDate time.year time.month time.day = time.date.number at hdays
  unfold rtcGetTick RtcDateTime.ticks RtcDateTime.usec dayTicks
  simp only [hvalid, hdays, ne_eq, not_true_eq_false, if_false]

/-- The date-time of a date and of the microseconds of a day. -/
def timeOf (date : Date) (usec : ℕ) : RtcDateTime :=
  ⟨date.year, date.month, date.day, usec / 3600000000, usec % 3600000000 / 60000000,
    usec % 3600000000 % 60000000 / 1000000, usec % 3600000000 % 60000000 % 1000000⟩

theorem timeOf_valid {date : Date} (h : date.Valid) (hyear : date.year ≤ 9999) {usec : ℕ}
    (hlt : usec < dayTicks) : (timeOf date usec).Valid where
  date := h
  year := hyear
  hour := Nat.div_lt_of_lt_mul hlt
  minute := by
    show usec % 3600000000 / 60000000 < 60
    omega
  second := by
    show usec % 3600000000 % 60000000 / 1000000 < 60
    omega
  microsecond := Nat.mod_lt _ (by decide)

/-- The fields of the time of day are put together again. -/
theorem timeOf_usec (date : Date) (usec : ℕ) : (timeOf date usec).usec = usec := by
  unfold RtcDateTime.usec timeOf
  dsimp only
  omega

/-- A date-time comes from its date and its microseconds. -/
theorem RtcDateTime.Valid.timeOf_eq {time : RtcDateTime} (h : time.Valid) :
    timeOf time.date time.usec = time := by
  obtain ⟨-, -, -, hminute, hsecond, hmicrosecond⟩ := h
  unfold timeOf RtcDateTime.usec RtcDateTime.date
  rw [RtcDateTime.ext_iff]
  dsimp only
  omega

/-- **`RtcSetTick`**: if the day of the tick is in a year up to `9999`, the date-time of the tick;
else an error, and the date-time is as it was. -/
theorem rtcSetTick_eq {date : Date} (h : date.Valid) {tick : ℕ}
    (hdate : date.number = tick / dayTicks) (old : RtcDateTime) :
    rtcSetTick (some old) (some tick) =
      if date.year ≤ 9999 then (ok, some (timeOf date (tick % dayTicks)))
      else (errorInvalidValue, some old) := by
  unfold rtcSetTick
  have hdays : dateOfDays (tick / 86400000000) = (date.year, date.month, date.day) := by
    rw [← dateOfDays_number h, hdate]
    rfl
  dsimp only
  rw [hdays]
  dsimp only
  by_cases hyear : date.year ≤ 9999
  · have hvalid := timeOf_valid h hyear (Nat.mod_lt tick (show 0 < dayTicks by decide))
    have hpos := h.year
    rw [if_neg (by omega), if_pos hyear]
    exact Prod.ext ((checkValid_iff _).2 hvalid) rfl
  · rw [if_pos (.inr (not_le.1 hyear)), if_neg hyear]

/-! ### Weekdays -/

/-- The sums of `YmdToJd` for a year and a month that are counted from March. -/
theorem jd_shifted {c ya m d year : ℕ} {number : ℕ} (hc : c = year / 100) (hya : ya = year % 100)
    (hdays : shiftedDays c ya m d = number + 307) :
    (d : ℤ) + floorDiv (153 * m + 2) 5 + 365 * (year + 4800) + floorDiv (year + 4800) 4 -
      floorDiv (year + 4800) 100 + floorDiv (year + 4800) 400 - 32045 = number + 1721426 := by
  have hfloor : ∀ a b : ℤ, 0 ≤ a → floorDiv a b = a / b := by
    intro a b ha
    unfold floorDiv
    rw [if_neg (not_lt.2 ha), sub_zero, Int.tdiv_eq_ediv_of_nonneg ha]
  have hyears := shifted_years year
  rw [Calendar.daysBeforeYear_eq, ← hc, ← hya] at hyears
  unfold shiftedDays at hdays
  rw [hyears] at hdays
  -- the calendar repeats itself after 4800 years
  have hfour : ((year : ℤ) + 4800) / 4 = year / 4 + 1200 := by omega
  have hhundred : ((year : ℤ) + 4800) / 100 = c + 48 := by omega
  have hfourhundred : ((year : ℤ) + 4800) / 400 = year / 400 + 12 := by omega
  have hmonth : (153 * (m : ℤ) + 2) / 5 = ((153 * m + 2) / 5 : ℕ) := by omega
  rw [hfloor _ _ (by omega), hfloor _ _ (by omega), hfloor _ _ (by omega), hfloor _ _ (by omega),
    hfour, hhundred, hfourhundred, hmonth]
  have hcentury : c ≤ 365 * year + year / 4 := by omega
  clear hfloor hyears hya hmonth hfour hhundred hfourhundred
  generalize (153 * m + 2) / 5 = month at hdays ⊢
  omega

/-- The Julian day number counts the days of the calendar. -/
theorem ymdToJd_eq {date : Date} (h : date.Valid) :
    ymdToJd date.year date.month date.day = date.number + 1721426 := by
  obtain ⟨hyear, ⟨hfirst, hlast⟩, -⟩ := id h
  unfold ymdToJd
  simp only
  rw [if_neg (by omega)]
  obtain hmonth | hmonth := Nat.lt_or_ge 2 date.month
  · have ha : floorDiv (14 - date.month) 12 = 0 := by
      unfold floorDiv
      rw [if_neg (by omega), sub_zero, Int.tdiv_eq_ediv_of_nonneg (by omega)]
      omega
    have hjd := jd_shifted rfl rfl (shiftedDate_late h hmonth).days
    rw [ha]
    have hcast : ((date.month - 3 : ℕ) : ℤ) = date.month + 12 * 0 - 3 := by omega
    rw [hcast] at hjd
    rw [← hjd, sub_zero]
  · have ha : floorDiv (14 - date.month) 12 = 1 := by
      unfold floorDiv
      rw [if_neg (by omega), sub_zero, Int.tdiv_eq_ediv_of_nonneg (by omega)]
      omega
    have hjd := jd_shifted rfl rfl (shiftedDate_early h hmonth).days
    rw [ha]
    have hcast : ((date.month + 9 : ℕ) : ℤ) = date.month + 12 * 1 - 3 := by omega
    have hyearCast : ((date.year - 1 : ℕ) : ℤ) + 4800 = date.year + 4800 - 1 := by omega
    rw [hcast, hyearCast] at hjd
    rw [← hjd]

/-- **`RtcGetDayOfWeek`** counts the days. -/
theorem rtcGetDayOfWeek_eq {time : RtcDateTime} (h : time.Valid) :
    rtcGetDayOfWeek time.year time.month time.day = ((time.date.number + 1) % 7 : ℕ) := by
  have hyear : 1 ≤ time.year := h.date.year
  have hmonth : 1 ≤ time.month ∧ time.month ≤ 12 := h.date.month
  have hday : 1 ≤ time.day ∧ time.day ≤ monthLength time.year time.month := h.date.day
  have hbound := h.year
  have hjd := ymdToJd_eq h.date
  change ymdToJd time.year time.month time.day = time.date.number + 1721426 at hjd
  have hlength : rtcGetDaysInMonth time.year time.month = monthLength time.year time.month := by
    unfold rtcGetDaysInMonth
    rw [if_neg (by omega), if_neg (by omega), monthLength_eq hmonth]
    simp only [isLeapYear_iff hyear]
    by_cases hfeb : time.month = 2
    · rw [hfeb]
      by_cases hleap : IsLeap time.year
      · rw [if_pos ⟨rfl, hleap⟩, if_pos ⟨rfl, hleap⟩]
        rfl
      · rw [if_neg fun hc => hleap hc.2, if_neg fun hc => hleap hc.2, add_zero]
    · rw [if_neg fun hc => hfeb (by exact_mod_cast hc.1), if_neg fun hc => hfeb hc.1, add_zero]
  have hdow : dayOfWeek (dateOf time.year time.month time.day) =
      (time.date.number + 1721426) % 7 + 1 := by
    have hpos : (0 : ℤ) ≤ time.date.number + 1721426 := by omega
    unfold dateOf dayOfWeek dateJdInvalid
    rw [if_pos ((isValid_iff hyear hmonth).2 hday), hjd, if_neg (by omega), if_pos hpos,
      Int.tmod_eq_emod_of_nonneg hpos]
  unfold rtcGetDayOfWeek
  simp only [hlength, hdow]
  rw [if_neg (by omega), if_neg (by omega)]
  -- `7` stands for a Sunday
  split_ifs <;> omega

/-! ### The result -/

/-- The day of the tick is in the years `1` to `9999`. -/
def InYears (tick : ℕ) : Prop :=
  ∃ date : Date, date.Valid ∧ date.year ≤ 9999 ∧ date.number = tick / dayTicks

/-- `RtcGetTick` succeeds and gives the tick. -/
def HasTick (time : RtcDateTime) (tick : ℕ) : Prop :=
  ∀ old, rtcGetTick (some time) (some old) = (ok, some tick)

/-- `RtcSetTick` succeeds and gives the date-time. -/
def HasTime (tick : ℕ) (time : RtcDateTime) : Prop :=
  ∀ old, rtcSetTick (some old) (some tick) = (ok, some time)

/-- A date-time that is accepted has its ticks. -/
theorem hasTick_ticks {time : RtcDateTime} (h : time.Valid) : HasTick time time.ticks :=
  fun old => rtcGetTick_eq h old

/-- What has a tick is accepted. -/
theorem HasTick.valid {time : RtcDateTime} {tick : ℕ} (h : HasTick time tick) :
    time.Valid ∧ tick = time.ticks := by
  have hvalid : time.Valid := by
    rw [← checkValid_iff]
    by_contra hne
    have hcode := h 0
    unfold rtcGetTick at hcode
    simp only [ne_eq, hne, not_false_eq_true, if_true, Prod.mk.injEq] at hcode
    exact hcode.1
  refine ⟨hvalid, ?_⟩
  have heq := (h 0).symm.trans (rtcGetTick_eq hvalid 0)
  exact Option.some.inj (Prod.mk.inj heq).2

/-- The tick of a date-time gives the date-time back. -/
theorem RtcDateTime.Valid.hasTime {time : RtcDateTime} (h : time.Valid) :
    HasTime time.ticks time := by
  intro old
  rw [rtcSetTick_eq h.date h.ticks_div.1.symm old, if_pos (show time.date.year ≤ 9999 from h.year),
    h.ticks_div.2, h.timeOf_eq]

/-- A tick in the years up to `9999` is the tick of a date-time. -/
theorem InYears.exists_time {tick : ℕ} (h : InYears tick) :
    ∃ time : RtcDateTime, time.Valid ∧ time.ticks = tick := by
  obtain ⟨date, hdate, hyear, hnumber⟩ := h
  refine ⟨timeOf date (tick % dayTicks),
    timeOf_valid hdate hyear (Nat.mod_lt tick (by decide)), ?_⟩
  unfold RtcDateTime.ticks
  rw [timeOf_usec]
  show date.number * dayTicks + tick % dayTicks = tick
  rw [hnumber, Nat.div_add_mod']

/-- **Ticks and dates are inverse.**

* Every accepted date-time has a tick, which gives it back.
* Ticks are in the order of their date-times, and the next date-time has the next tick.
* Every tick of the years `1` to `9999` gives a date-time, which gives it back.
* For every other tick there is an error, and the date-time is as it was.
* The weekday counts the days of the tick; the first day is a Monday, which is `1`. -/
theorem ticks_and_dates :
    (∀ time, rtcCheckValid (some time) = ok → ∃ tick, HasTick time tick ∧ HasTime tick time) ∧
    (∀ time time' tick tick', HasTick time tick → HasTick time' tick' →
      (tick < tick' ↔ time.Before time') ∧ (tick' = tick + 1 ↔ time.Next time')) ∧
    (∀ tick, InYears tick → ∃ time, HasTime tick time ∧ HasTick time tick) ∧
    (∀ tick, ¬ InYears tick → ∀ old, (rtcSetTick (some old) (some tick)).1 ≠ ok ∧
      (rtcSetTick (some old) (some tick)).2 = some old) ∧
    ∀ time tick, HasTick time tick →
      rtcGetDayOfWeek time.year time.month time.day = ((tick / dayTicks + 1) % 7 : ℕ) := by
  refine ⟨fun time hvalid => ?_, fun time time' tick tick' htick htick' => ?_, fun tick hin => ?_,
    fun tick hout old => ?_, fun time tick htick => ?_⟩
  · have h := (checkValid_iff time).1 hvalid
    exact ⟨time.ticks, hasTick_ticks h, h.hasTime⟩
  · obtain ⟨h, rfl⟩ := htick.valid
    obtain ⟨h', rfl⟩ := htick'.valid
    refine ⟨h.ticks_lt_iff h', fun heq => ⟨?_, fun between hbetween hboth => ?_⟩, fun hnext => ?_⟩
    · rw [← h.ticks_lt_iff h']
      omega
    · have hfirst := (h.ticks_lt_iff hbetween).2 hboth.1
      have hsecond := (hbetween.ticks_lt_iff h').2 hboth.2
      omega
    · obtain ⟨hbefore, hnone⟩ := hnext
      have hlt := (h.ticks_lt_iff h').2 hbefore
      by_contra hne
      -- the tick behind the first is the tick of a date-time, too
      have hin : InYears (time.ticks + 1) := by
        obtain ⟨date, hdate, hnumber⟩ := exists_date ((time.ticks + 1) / dayTicks)
        refine ⟨date, hdate, ?_, hnumber⟩
        refine le_trans ((hdate.year_le_iff time'.year).2 ?_) h'.year
        rw [hnumber]
        refine lt_of_le_of_lt ?_ ((h'.date.year_le_iff time'.year).1 le_rfl)
        rw [← h'.ticks_div.1]
        exact Nat.div_le_div_right (by omega)
      obtain ⟨between, hbetween, hticks⟩ := hin.exists_time
      refine hnone between hbetween ⟨?_, ?_⟩
      · rw [← h.ticks_lt_iff hbetween]
        omega
      · rw [← hbetween.ticks_lt_iff h']
        omega
  · obtain ⟨time, h, rfl⟩ := hin.exists_time
    exact ⟨time, h.hasTime, hasTick_ticks h⟩
  · obtain ⟨date, hdate, hnumber⟩ := exists_date (tick / dayTicks)
    have hyear : ¬ date.year ≤ 9999 := fun hle => hout ⟨date, hdate, hle, hnumber⟩
    rw [rtcSetTick_eq hdate hnumber old, if_neg hyear]
    exact ⟨show errorInvalidValue ≠ ok by decide, rfl⟩
  · obtain ⟨h, rfl⟩ := htick.valid
    rw [h.ticks_div.1]
    exact rtcGetDayOfWeek_eq h

/-- The last microsecond of the last year. -/
example : HasTime 315537897599999999 ⟨9999, 12, 31, 23, 59, 59, 999999⟩ := fun _ => rfl

end Prosperismo.Rtc
