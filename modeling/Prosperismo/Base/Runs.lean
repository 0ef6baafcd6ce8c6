import Mathlib.Data.Set.Basic
import Mathlib.Order.Interval.Set.Basic

/-!
# Maximal runs of a set of numbers

A maximal run of `S` is an interval `[lo, hi)` inside `S` that neither the number
before it nor the number behind it extends. Different runs are apart, so "the first"
and "the last" run of a part of the numbers are what a scan from one side finds:
`isFirst_of_scan` and `isLast_of_scan` say so for a scan that was cut off at the start
of a window, or at its end.
-/

namespace Prosperismo

/-- `[lo, hi)` is a maximal run of `S`. -/
structure MaximalRun (S : Set ℕ) (lo hi : ℕ) : Prop where
  lt : lo < hi
  subset : ∀ x, lo ≤ x → x < hi → x ∈ S
  before : ∀ x, x + 1 = lo → x ∉ S
  after : hi ∉ S

namespace MaximalRun

variable {S : Set ℕ} {lo hi lo' hi' : ℕ}

/-- Two maximal runs are the same, or one ends before the other starts. -/
theorem eq_or_apart (h : MaximalRun S lo hi) (h' : MaximalRun S lo' hi') :
    (lo = lo' ∧ hi = hi') ∨ hi < lo' ∨ hi' < lo := by
  by_contra hno
  simp only [not_or, not_lt] at hno
  obtain ⟨hne, hle, hle'⟩ := hno
  -- runs that touch contain each other's ends
  have hends : hi = hi' := by
    rcases Nat.lt_trichotomy hi hi' with hlt | heq | hgt
    · exact absurd (h'.subset hi hle hlt) h.after
    · exact heq
    · exact absurd (h.subset hi' hle' hgt) h'.after
  have hstarts : lo = lo' := by
    rcases Nat.lt_trichotomy lo lo' with hlt | heq | hgt
    · exact absurd (h.subset (lo' - 1) (by omega) (by have := h'.lt; omega))
        (h'.before (lo' - 1) (by omega))
    · exact heq
    · exact absurd (h'.subset (lo - 1) (by omega) (by have := h.lt; omega))
        (h.before (lo - 1) (by omega))
  exact hne ⟨hstarts, hends⟩

/-- An interval of `S` that nothing follows belongs to a run, which ends with it. -/
theorem exists_lo (hlt : lo < hi) (hsub : ∀ x, lo ≤ x → x < hi → x ∈ S) (hafter : hi ∉ S) :
    ∃ first ≤ lo, MaximalRun S first hi := by
  induction lo with
  | zero => exact ⟨0, le_rfl, hlt, hsub, fun x hx => absurd hx (Nat.succ_ne_zero x), hafter⟩
  | succ lo ih =>
    by_cases hlo : lo ∈ S
    · obtain ⟨first, hle, hrun⟩ := ih (by omega) fun x hx hx' => by
        obtain rfl | hne := Nat.eq_or_lt_of_le hx
        · exact hlo
        · exact hsub x hne hx'
      exact ⟨first, by omega, hrun⟩
    · refine ⟨lo + 1, le_rfl, hlt, hsub, fun x hx => ?_, hafter⟩
      obtain rfl : x = lo := by omega
      exact hlo

/-- An interval of a bounded set that nothing precedes belongs to a run, which starts with it. -/
theorem exists_hi {bound : ℕ} (hbound : ∀ x ∈ S, x < bound) (hlt : lo < hi)
    (hsub : ∀ x, lo ≤ x → x < hi → x ∈ S) (hbefore : ∀ x, x + 1 = lo → x ∉ S) :
    ∃ last ≥ hi, MaximalRun S lo last := by
  induction hn : bound - hi generalizing hi with
  | zero =>
    exact ⟨hi, le_rfl, hlt, hsub, hbefore, fun hmem => absurd (hbound hi hmem) (by omega)⟩
  | succ n ih =>
    by_cases hhi : hi ∈ S
    · obtain ⟨last, hge, hrun⟩ := @ih (hi + 1) (by omega) (fun x hx hx' => by
        obtain rfl | hne := Nat.eq_or_lt_of_le (Nat.le_of_lt_succ hx')
        · exact hhi
        · exact hsub x hx hne) (by omega)
      exact ⟨last, by omega, hrun⟩
    · exact ⟨hi, le_rfl, hlt, hsub, hbefore, hhi⟩

end MaximalRun

/-- The first run of `S` that reaches beyond `start`, cut off there. -/
def IsFirst (S : Set ℕ) (start : ℕ) (r : ℕ × ℕ) : Prop :=
  ∃ lo, MaximalRun S lo r.2 ∧ start < r.2 ∧ r.1 = max lo start ∧
    ∀ lo' hi', MaximalRun S lo' hi' → start < hi' → (lo' = lo ∧ hi' = r.2) ∨ r.2 < lo'

/-- The last run of `S` that starts before `stop`, cut off there. -/
def IsLast (S : Set ℕ) (stop : ℕ) (r : ℕ × ℕ) : Prop :=
  ∃ hi, MaximalRun S r.1 hi ∧ r.1 < stop ∧ r.2 = min hi stop ∧
    ∀ lo' hi', MaximalRun S lo' hi' → lo' < stop → (lo' = r.1 ∧ hi' = hi) ∨ hi' < r.1

section Scan

variable {S : Set ℕ} {first last start stop : ℕ}

/-- A scan upwards from `start`: nothing up to `first`, then members up to `last`. -/
theorem isFirst_of_scan (hstart : start ≤ first) (hlt : first < last)
    (hnone : ∀ x, start ≤ x → x < first → x ∉ S) (hall : ∀ x, first ≤ x → x < last → x ∈ S)
    (hlast : last ∉ S) : IsFirst S start (first, last) := by
  obtain ⟨lo, hle, hrun⟩ := MaximalRun.exists_lo hlt hall hlast
  have hcut : first = max lo start := by
    -- the run has no number between the start and `first`
    by_contra hne
    have hlo : lo < first := by omega
    exact hnone (max lo start) (by omega) (by omega)
      (hrun.subset _ (by omega) (by have := hrun.lt; omega))
  refine ⟨lo, hrun, by omega, hcut, fun lo' hi' hrun' hreach => ?_⟩
  obtain ⟨rfl, rfl⟩ | hbehind | hahead := hrun.eq_or_apart hrun'
  · exact .inl ⟨rfl, rfl⟩
  · exact .inr hbehind
  · -- a run before this one would have a member from the start on
    have := hrun'.lt
    exact absurd (hrun'.subset (max lo' start) (by omega) (by omega))
      (hnone _ (by omega) (by omega))

/-- Nothing is found from `start` on, so no run reaches beyond it. -/
theorem not_run_of_scan (hnone : ∀ x, start ≤ x → x ∉ S) (lo hi : ℕ) (hrun : MaximalRun S lo hi) :
    hi ≤ start := by
  by_contra hlt
  have := hrun.lt
  exact hnone (hi - 1) (by omega) (hrun.subset _ (by omega) (by omega))

/-- A scan downwards from `stop`: nothing down to `last`, then members down to `first`. -/
theorem isLast_of_scan {bound : ℕ} (hbound : ∀ x ∈ S, x < bound) (hstop : last ≤ stop)
    (hlt : first < last) (hnone : ∀ x, last ≤ x → x < stop → x ∉ S)
    (hall : ∀ x, first ≤ x → x < last → x ∈ S) (hfirst : ∀ x, x + 1 = first → x ∉ S) :
    IsLast S stop (first, last) := by
  obtain ⟨hi, hge, hrun⟩ := MaximalRun.exists_hi hbound hlt hall hfirst
  have hcut : last = min hi stop := by
    by_contra hne
    exact hnone last le_rfl (by omega) (hrun.subset _ (by omega) (by omega))
  refine ⟨hi, hrun, by omega, hcut, fun lo' hi' hrun' hreach => ?_⟩
  obtain ⟨rfl, rfl⟩ | hbehind | hahead := hrun.eq_or_apart hrun'
  · exact .inl ⟨rfl, rfl⟩
  · exact absurd (hrun'.subset lo' le_rfl hrun'.lt) (hnone _ (by omega) hreach)
  · exact .inr hahead

/-- Nothing is found below `stop`, so no run starts there. -/
theorem not_start_of_scan (hnone : ∀ x, x < stop → x ∉ S) (lo hi : ℕ) (hrun : MaximalRun S lo hi) :
    stop ≤ lo := by
  by_contra hlt
  exact hnone lo (not_le.mp hlt) (hrun.subset lo le_rfl hrun.lt)

end Scan

end Prosperismo
