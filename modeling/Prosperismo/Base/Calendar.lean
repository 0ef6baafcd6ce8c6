import Mathlib.Data.Nat.Find
import Mathlib.Tactic.IntervalCases
import Mathlib.Tactic.Linarith

/-!
# The proleptic Gregorian calendar

Dates with a year from `1` on, and the number of days from 1 January of the year `1` to a date,
counted from the lengths of the years and the months (`Date.number`).

* `daysBeforeYear_eq`: the days before a year in closed form.
* `number_lt_of_before`: later dates have larger numbers.
* `exists_date`: every number is the number of a date.
-/

namespace Prosperismo.Calendar

/-! ### Lengths -/

/-- Every fourth year is a leap year, of the centuries every fourth. -/
def IsLeap (year : ℕ) : Prop := year % 4 = 0 ∧ year % 100 ≠ 0 ∨ year % 400 = 0

instance (year : ℕ) : Decidable (IsLeap year) := inferInstanceAs (Decidable (_ ∨ _))

/-- The days of a year. -/
def yearLength (year : ℕ) : ℕ := if IsLeap year then 366 else 365

/-- The days of a month. -/
def monthLength (year month : ℕ) : ℕ :=
  match month with
  | 4 | 6 | 9 | 11 => 30
  | 2 => if IsLeap year then 29 else 28
  | _ => 31

/-- The days of the years `1` to `year - 1`. -/
def daysBeforeYear : ℕ → ℕ
  | 0 => 0
  | 1 => 0
  | year + 2 => daysBeforeYear (year + 1) + yearLength (year + 1)

/-- The days of the months `1` to `month - 1`. -/
def daysBeforeMonth (year : ℕ) : ℕ → ℕ
  | 0 => 0
  | 1 => 0
  | month + 2 => daysBeforeMonth year (month + 1) + monthLength year (month + 1)

theorem daysBeforeYear_succ {year : ℕ} (h : 1 ≤ year) :
    daysBeforeYear (year + 1) = daysBeforeYear year + yearLength year := by
  obtain ⟨year, rfl⟩ := Nat.exists_eq_add_of_le' h
  rfl

theorem daysBeforeMonth_succ (year : ℕ) {month : ℕ} (h : 1 ≤ month) :
    daysBeforeMonth year (month + 1) = daysBeforeMonth year month + monthLength year month := by
  obtain ⟨month, rfl⟩ := Nat.exists_eq_add_of_le' h
  rfl

/-- **The days before a year** in closed form. -/
theorem daysBeforeYear_eq (year : ℕ) :
    daysBeforeYear (year + 1) = 365 * year + year / 4 - year / 100 + year / 400 := by
  induction year with
  | zero => rfl
  | succ year ih =>
    rw [daysBeforeYear_succ (Nat.succ_pos year), ih, yearLength]
    rw [Nat.succ_eq_add_one]
    by_cases hleap : IsLeap (year + 1)
    · rw [if_pos hleap]
      unfold IsLeap at hleap
      omega
    · rw [if_neg hleap]
      unfold IsLeap at hleap
      omega

theorem monthLength_bounds (year month : ℕ) :
    28 ≤ monthLength year month ∧ monthLength year month ≤ 31 := by
  unfold monthLength
  split <;> (try split) <;> omega

/-- The months of a year are the days of the year. -/
theorem daysBeforeMonth_end (year : ℕ) : daysBeforeMonth year 13 = yearLength year := by
  simp only [daysBeforeMonth, monthLength, yearLength]
  split <;> rfl

/-- Years have days. -/
theorem daysBeforeYear_mono {year year' : ℕ} (hpos : 1 ≤ year) (h : year ≤ year') :
    daysBeforeYear year ≤ daysBeforeYear year' := by
  induction year', h using Nat.le_induction with
  | base => rfl
  | succ year' hle ih =>
    rw [daysBeforeYear_succ (hpos.trans hle)]
    exact ih.trans (Nat.le_add_right _ _)

/-- Months have days. -/
theorem daysBeforeMonth_mono (year : ℕ) {month month' : ℕ} (hpos : 1 ≤ month)
    (h : month ≤ month') : daysBeforeMonth year month ≤ daysBeforeMonth year month' := by
  induction month', h using Nat.le_induction with
  | base => rfl
  | succ month' hle ih =>
    rw [daysBeforeMonth_succ year (hpos.trans hle)]
    exact ih.trans (Nat.le_add_right _ _)

/-! ### Dates -/

/-- A year, a month and a day of the month. -/
@[ext]
structure Date where
  year : ℕ
  month : ℕ
  day : ℕ
  deriving DecidableEq

/-- The date is in the calendar. -/
structure Date.Valid (date : Date) : Prop where
  year : 1 ≤ date.year
  month : 1 ≤ date.month ∧ date.month ≤ 12
  day : 1 ≤ date.day ∧ date.day ≤ monthLength date.year date.month

/-- The days from 1 January of the year `1` to the date. -/
def Date.number (date : Date) : ℕ :=
  daysBeforeYear date.year + daysBeforeMonth date.year date.month + (date.day - 1)

/-- The dates before a date. -/
def Date.Before (date date' : Date) : Prop :=
  date.year < date'.year ∨ date.year = date'.year ∧
    (date.month < date'.month ∨ date.month = date'.month ∧ date.day < date'.day)

namespace Date

variable {date date' : Date}

/-- A date is in its month, and in its year. -/
theorem Valid.number_lt (h : date.Valid) :
    daysBeforeMonth date.year date.month + (date.day - 1) <
        daysBeforeMonth date.year (date.month + 1) ∧
      date.number < daysBeforeYear (date.year + 1) := by
  have hmonth := daysBeforeMonth_succ date.year h.month.1
  have hmono : daysBeforeMonth date.year (date.month + 1) ≤ daysBeforeMonth date.year 13 :=
    daysBeforeMonth_mono _ (Nat.succ_pos _) (Nat.succ_le_succ h.month.2)
  have hend := daysBeforeMonth_end date.year
  have hyear := daysBeforeYear_succ h.year
  obtain ⟨hfirst, hlast⟩ := h.day
  unfold number
  omega

/-- A later date has a larger number. -/
theorem Valid.number_lt_of_before (h : date.Valid) (hbefore : date.Before date') :
    date.number < date'.number := by
  obtain hyear | ⟨hyear, hmonth | ⟨hmonth, hday⟩⟩ := hbefore
  · -- the next year begins behind the date
    have hnext := h.number_lt.2
    have hmono : daysBeforeYear (date.year + 1) ≤ daysBeforeYear date'.year :=
      daysBeforeYear_mono (Nat.succ_pos _) hyear
    unfold number at hnext ⊢
    omega
  · -- the next month begins behind the date
    have hnext := h.number_lt.1
    have hmono : daysBeforeMonth date.year (date.month + 1) ≤
        daysBeforeMonth date.year date'.month :=
      daysBeforeMonth_mono _ (Nat.succ_pos _) hmonth
    unfold number
    rw [← hyear]
    omega
  · have hfirst := h.day.1
    unfold number
    rw [← hyear, ← hmonth]
    omega

/-- Of two dates, one is before the other, or they are equal. -/
theorem before_trichotomy (date date' : Date) :
    date.Before date' ∨ date = date' ∨ date'.Before date := by
  unfold Before
  rw [Date.ext_iff]
  omega

/-- The date is in a year up to `year` exactly if its number is smaller than that of the next year's
first day. -/
theorem Valid.year_le_iff (h : date.Valid) (year : ℕ) :
    date.year ≤ year ↔ date.number < daysBeforeYear (year + 1) := by
  constructor
  · intro hle
    exact h.number_lt.2.trans_le
      (daysBeforeYear_mono (Nat.succ_pos _) (Nat.succ_le_succ hle))
  · intro hlt
    by_contra hgt
    have hmono : daysBeforeYear (year + 1) ≤ daysBeforeYear date.year :=
      daysBeforeYear_mono (Nat.succ_pos _) (not_le.1 hgt)
    unfold number at hlt
    omega

end Date

/-- **Every number** is the number of a date. -/
theorem exists_date (number : ℕ) : ∃ date : Date, date.Valid ∧ date.number = number := by
  -- the last year that begins up to the day
  have hyear : ∃ year, number < daysBeforeYear (year + 1) := by
    refine ⟨number + 1, ?_⟩
    rw [daysBeforeYear_eq]
    omega
  have hlast := Nat.find_spec hyear
  have hfirst : ∀ year < Nat.find hyear, daysBeforeYear (year + 1) ≤ number :=
    fun year hlt => not_lt.1 (Nat.find_min hyear hlt)
  generalize Nat.find hyear = year at hlast hfirst
  have hpos : 1 ≤ year := by
    by_contra hzero
    obtain rfl : year = 0 := by omega
    exact absurd hlast (Nat.not_lt_zero _)
  have hbegin : daysBeforeYear year ≤ number := by
    have := hfirst (year - 1) (by omega)
    rwa [Nat.sub_add_cancel hpos] at this
  rw [daysBeforeYear_succ hpos] at hlast
  -- and the last month
  have hmonth : ∃ month, number - daysBeforeYear year < daysBeforeMonth year (month + 1) := by
    refine ⟨12, ?_⟩
    rw [daysBeforeMonth_end]
    omega
  have hmlast := Nat.find_spec hmonth
  have hmfirst : ∀ month < Nat.find hmonth,
      daysBeforeMonth year (month + 1) ≤ number - daysBeforeYear year :=
    fun month hlt => not_lt.1 (Nat.find_min hmonth hlt)
  have hmle : Nat.find hmonth ≤ 12 := Nat.find_min' hmonth (by
    rw [daysBeforeMonth_end]
    omega)
  generalize Nat.find hmonth = month at hmlast hmfirst hmle
  have hmpos : 1 ≤ month := by
    by_contra hzero
    obtain rfl : month = 0 := by omega
    exact absurd hmlast (Nat.not_lt_zero _)
  have hmbegin : daysBeforeMonth year month ≤ number - daysBeforeYear year := by
    have := hmfirst (month - 1) (by omega)
    rwa [Nat.sub_add_cancel hmpos] at this
  rw [daysBeforeMonth_succ year hmpos] at hmlast
  refine ⟨⟨year, month, number - daysBeforeYear year - daysBeforeMonth year month + 1⟩,
    ⟨hpos, ⟨hmpos, hmle⟩, ?_⟩, ?_⟩
  · dsimp only
    omega
  · unfold Date.number
    dsimp only
    omega

end Prosperismo.Calendar
