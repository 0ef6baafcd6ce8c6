import Prosperismo.Base.Calendar
import Prosperismo.Rtc.Model

/-!
# Ticks are the microseconds since the first day

`daysOfDate` is the number of a date in the calendar (`daysOfDate_eq`), and `dateOfDays` is its
inverse (`dateOfDays_number`): both count years from 1 March, in centuries of `146097 / 4` days and
years of `1461 / 4` days. As every number is the number of a date, what is proved about dates and
their ticks is proved about all ticks.
-/

namespace Prosperismo.Rtc

open Calendar (Date IsLeap daysBeforeMonth daysBeforeYear daysBeforeYear_eq monthLength yearLength)

/-! ### Years from March -/

/-- The century, the year of it, the month and the day, with the year and the month counted from
March. The last day of the year is there in leap years. -/
structure Shifted (c ya m d : ℕ) : Prop where
  year : ya < 100
  month : m < 12
  day : 1 ≤ d ∧ (153 * m + 2) / 5 + d ≤ 366
  next : (153 * m + 2) / 5 + d ≤ (153 * (m + 1) + 2) / 5
  leap : (153 * m + 2) / 5 + d = 366 → ya % 4 = 3 ∧ (ya = 99 → c % 4 = 3)

/-- The number of days before a shifted date, from 1 March of the year `0` on and with `1` for
it. -/
def shiftedDays (c ya m d : ℕ) : ℕ := 146097 * c / 4 + 1461 * ya / 4 + ((153 * m + 2) / 5 + d)

/-- **`dateOfDays`** finds the shifted date. -/
theorem dateOfDays_shifted {c ya m d : ℕ} (h : Shifted c ya m d)
    (hpos : 307 ≤ shiftedDays c ya m d) :
    dateOfDays (shiftedDays c ya m d - 307) =
      if m < 10 then (100 * c + ya, m + 3, d) else (100 * c + ya + 1, m - 9, d) := by
  obtain ⟨hyear, hmonth, hday, hnext, hleap⟩ := h
  have hfirst : 1 ≤ (153 * m + 2) / 5 + d := by omega
  unfold dateOfDays
  simp only [Nat.shiftLeft_eq, Nat.shiftRight_eq_div_pow, Nat.reducePow]
  rw [Nat.sub_add_cancel hpos]
  -- the century
  have hcentury : (shiftedDays c ya m d * 4 - 1) / 146097 = c := by
    unfold shiftedDays
    generalize (153 * m + 2) / 5 + d = doy at *
    omega
  rw [hcentury]
  -- the day of the century
  have hld : (shiftedDays c ya m d * 4 - 1 - 146097 * c) / 4 =
      1461 * ya / 4 + ((153 * m + 2) / 5 + d) - 1 := by
    unfold shiftedDays
    generalize (153 * m + 2) / 5 + d = doy at *
    omega
  rw [hld]
  -- the year, and the day of the year
  have hya : ((1461 * ya / 4 + ((153 * m + 2) / 5 + d) - 1) * 4 + 3) / 1461 = ya := by
    generalize (153 * m + 2) / 5 + d = doy at *
    omega
  rw [hya]
  have hdoy : ((1461 * ya / 4 + ((153 * m + 2) / 5 + d) - 1) * 4 + 7 - 1461 * ya) / 4 =
      (153 * m + 2) / 5 + d := by
    generalize (153 * m + 2) / 5 + d = doy at *
    omega
  rw [hdoy]
  -- the month, and the day of the month
  have hm : (5 * ((153 * m + 2) / 5 + d) - 3) / 153 = m := by
    clear hcentury hld hya hdoy hleap
    omega
  have hd : (5 * ((153 * m + 2) / 5 + d) + 2 - 153 * m) / 5 = d := by
    clear hcentury hld hya hdoy hleap
    omega
  rw [hm, hd]

/-! ### Dates -/

/-- The years up to `year`, in centuries and years of the century. -/
theorem shifted_years (year : ℕ) :
    146097 * (year / 100) / 4 + 1461 * (year % 100) / 4 = daysBeforeYear (year + 1) := by
  rw [daysBeforeYear_eq]
  have hcenturies : 146097 * (year / 100) / 4 = 36524 * (year / 100) + year / 100 / 4 := by omega
  have hyears : 1461 * (year % 100) / 4 = 365 * (year % 100) + year % 100 / 4 := by omega
  have hfour : year / 4 = 25 * (year / 100) + year % 100 / 4 := by omega
  have hcentury : year / 400 = year / 100 / 4 := by omega
  rw [hcenturies, hyears, hfour, hcentury]
  omega

/-- The days before a month from March on. -/
theorem daysBeforeMonth_shifted {year month : ℕ} (hmonth : 3 ≤ month ∧ month ≤ 12) :
    daysBeforeMonth year month + 1 =
      (153 * (month - 3) + 2) / 5 + (if IsLeap year then 60 else 59) + 1 := by
  obtain ⟨hfirst, hlast⟩ := hmonth
  interval_cases month <;> simp only [daysBeforeMonth, monthLength] <;> split_ifs <;> rfl

/-- The months from March on have the days that the formula gives them. -/
theorem monthLength_shifted {year month : ℕ} (hmonth : 3 ≤ month ∧ month ≤ 12) :
    (153 * (month - 3) + 2) / 5 + monthLength year month = (153 * (month - 3 + 1) + 2) / 5 := by
  obtain ⟨hfirst, hlast⟩ := hmonth
  interval_cases month <;> rfl

/-- A date with its year counted from March. -/
structure ShiftedDate (date : Date) (c ya m : ℕ) : Prop where
  shifted : Shifted c ya m date.day
  days : shiftedDays c ya m date.day = date.number + 307
  decoded : (if m < 10 then (100 * c + ya, m + 3, date.day)
    else (100 * c + ya + 1, m - 9, date.day)) = (date.year, date.month, date.day)
  code : daysOfDate date.year date.month date.day = shiftedDays c ya m date.day - 307

/-- **A date from March to December** is in the year that it says. -/
theorem shiftedDate_late {date : Date} (h : date.Valid) (hmonth : 2 < date.month) :
    ShiftedDate date (date.year / 100) (date.year % 100) (date.month - 3) := by
  obtain ⟨hyear, ⟨-, hlast⟩, hday⟩ := h
  have hbefore := @daysBeforeMonth_shifted date.year date.month ⟨hmonth, hlast⟩
  have hlength := @monthLength_shifted date.year date.month ⟨hmonth, hlast⟩
  have hyears := shifted_years date.year
  rw [Calendar.daysBeforeYear_succ hyear, yearLength] at hyears
  have hmod := Nat.div_add_mod date.year 100
  refine ⟨⟨Nat.mod_lt _ (by decide), by omega, ⟨hday.1, by omega⟩, by omega, fun hend => ?_⟩, ?_,
    ?_, ?_⟩
  · -- the year ends with January and February
    omega
  · unfold Date.number shiftedDays
    rw [hyears]
    split_ifs at hbefore ⊢ <;> omega
  · rw [if_pos (by omega), hmod, Nat.sub_add_cancel hmonth]
  · unfold daysOfDate shiftedDays
    simp only [if_pos hmonth, Nat.shiftRight_eq_div_pow, Nat.reducePow]
    have hya : date.year - 100 * (date.year / 100) = date.year % 100 := by omega
    rw [hya, Nat.add_assoc _ ((153 * (date.month - 3) + 2) / 5)]

/-- **January and February** are in the year before. -/
theorem shiftedDate_early {date : Date} (h : date.Valid) (hmonth : date.month ≤ 2) :
    ShiftedDate date ((date.year - 1) / 100) ((date.year - 1) % 100) (date.month + 9) := by
  obtain ⟨hyear, ⟨hfirst, -⟩, hday⟩ := h
  have hyears := shifted_years (date.year - 1)
  rw [Nat.sub_add_cancel hyear] at hyears
  have hmod := Nat.div_add_mod (date.year - 1) 100
  have hlength : date.month = 1 ∧ daysBeforeMonth date.year date.month = 0 ∧
        monthLength date.year date.month = 31 ∨
      date.month = 2 ∧ daysBeforeMonth date.year date.month = 31 ∧
        monthLength date.year date.month = if IsLeap date.year then 29 else 28 := by
    obtain hone | htwo : date.month = 1 ∨ date.month = 2 := by omega
    · exact .inl ⟨hone, by rw [hone]; rfl, by rw [hone]; rfl⟩
    · exact .inr ⟨htwo, by rw [htwo]; rfl, by rw [htwo]; rfl⟩
  have hfeb : monthLength date.year date.month = 29 →
      (date.year - 1) % 100 % 4 = 3 ∧
        ((date.year - 1) % 100 = 99 → (date.year - 1) / 100 % 4 = 3) := by
    intro hlong
    obtain ⟨-, -, hlen⟩ | ⟨-, -, hlen⟩ := hlength
    · exact absurd (hlong.symm.trans hlen) (by decide)
    · by_cases hleap : IsLeap date.year
      · unfold IsLeap at hleap
        omega
      · rw [if_neg hleap] at hlen
        omega
  have hlong : date.month = 2 → monthLength date.year date.month ≤ 29 := by
    intro htwo
    obtain ⟨hone, -, -⟩ | ⟨-, -, hlen⟩ := hlength
    · omega
    · rw [hlen]
      split_ifs <;> omega
  refine ⟨⟨Nat.mod_lt _ (by decide), by omega, ⟨hday.1, by omega⟩, by omega, fun hend => ?_⟩, ?_,
    ?_, ?_⟩
  · exact hfeb (by omega)
  · unfold Date.number shiftedDays
    rw [hyears]
    clear hfeb hlong
    obtain ⟨hone, hbefore, -⟩ | ⟨htwo, hbefore, -⟩ := hlength
    · rw [hbefore, hone]
      omega
    · rw [hbefore, htwo]
      omega
  · rw [if_neg (by omega), hmod, Nat.sub_add_cancel hyear, Nat.add_sub_cancel]
  · unfold daysOfDate shiftedDays
    simp only [if_neg (not_lt.2 hmonth), Nat.shiftRight_eq_div_pow, Nat.reducePow]
    have hya : date.year - 1 - 100 * ((date.year - 1) / 100) = (date.year - 1) % 100 := by omega
    rw [hya, Nat.add_assoc _ ((153 * (date.month + 9) + 2) / 5)]

/-- Every date has its year from March. -/
theorem exists_shiftedDate {date : Date} (h : date.Valid) :
    ∃ c ya m, ShiftedDate date c ya m := by
  obtain hmonth | hmonth := Nat.lt_or_ge 2 date.month
  · exact ⟨_, _, _, shiftedDate_late h hmonth⟩
  · exact ⟨_, _, _, shiftedDate_early h hmonth⟩

/-- **`RtcGetTick`** counts the days of the calendar. -/
theorem daysOfDate_eq {date : Date} (h : date.Valid) :
    daysOfDate date.year date.month date.day = date.number := by
  obtain ⟨c, ya, m, hshifted⟩ := exists_shiftedDate h
  rw [hshifted.code, hshifted.days, Nat.add_sub_cancel]

/-- **`RtcSetTick`** finds the date of a number of days. -/
theorem dateOfDays_number {date : Date} (h : date.Valid) :
    dateOfDays date.number = (date.year, date.month, date.day) := by
  obtain ⟨c, ya, m, hshifted⟩ := exists_shiftedDate h
  have hpos : 307 ≤ shiftedDays c ya m date.day := by
    rw [hshifted.days]
    exact Nat.le_add_left _ _
  rw [← hshifted.decoded, ← dateOfDays_shifted hshifted.shifted hpos, hshifted.days,
    Nat.add_sub_cancel]

end Prosperismo.Rtc
