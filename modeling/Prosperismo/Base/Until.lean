import Mathlib.Data.Nat.Notation
import Mathlib.Logic.Basic

/-!
# Running a deterministic machine until it halts

`runUntil halted step n s` takes at most `n` steps from `s` and stops at the first state that
is `halted`, or at the step that finishes or fails by itself. The result keeps the state
reached when the steps ran out (`running`), so that a run can be continued
(`runUntil_running`); `runUntil_mono` compares two notions of halting, one stopping earlier than
the other.
-/

namespace Prosperismo

/-- What running a machine comes to: it failed, it is still running, or it is done. -/
inductive Result (σ : Type*)
  | exit
  | running (s : σ)
  | ok (s : σ)

/-- The states a result may stand for. -/
def Result.Reaches {σ : Type*} (r : Result σ) (s : σ) : Prop :=
  r = .ok s ∨ r = .running s

/-- At most `n` steps from `s`, until a halted state. -/
def runUntil {σ : Type*} (halted : σ → Bool) (step : σ → Result σ) : Nat → σ → Result σ
  | 0, s => .running s
  | n + 1, s =>
    if halted s then .ok s
    else match step s with
      | .exit => .exit
      | .ok s' => .ok s'
      | .running s' => runUntil halted step n s'

variable {σ : Type*} {halted halted' : σ → Bool} {step : σ → Result σ} {s s' : σ} {n m : ℕ}

/-- A run that is still going can be continued. -/
theorem runUntil_running (h : runUntil halted step n s = .running s') :
    runUntil halted step (n + m) s = runUntil halted step m s' := by
  induction n generalizing s with
  | zero =>
    obtain rfl : s = s' := by simpa [runUntil] using h
    rw [Nat.zero_add]
  | succ n ih =>
    rw [Nat.add_right_comm]
    simp only [runUntil] at h ⊢
    split at h
    · cases h
    · rename_i hhalted
      rw [if_neg hhalted]
      cases hstep : step s with
      | exit => rw [hstep] at h; cases h
      | ok s'' => rw [hstep] at h; cases h
      | running s'' => rw [hstep] at h; exact ih h

/-- A run that has ended does not change when it is given more steps. -/
theorem runUntil_ended (h : ∀ s', runUntil halted step n s ≠ .running s') :
    runUntil halted step (n + m) s = runUntil halted step n s := by
  induction n generalizing s with
  | zero => exact absurd rfl (h s)
  | succ n ih =>
    rw [Nat.add_right_comm]
    simp only [runUntil] at h ⊢
    split at h
    · rename_i hhalted
      rw [if_pos hhalted, if_pos hhalted]
    · rename_i hhalted
      rw [if_neg hhalted, if_neg hhalted]
      cases hstep : step s with
      | exit => rfl
      | ok s'' => rfl
      | running s'' =>
        rw [hstep] at h
        exact ih h

/-- Two runs of the same machine that both end, end the same way. -/
theorem runUntil_unique (h : ∀ s', runUntil halted step n s ≠ .running s')
    (h' : ∀ s', runUntil halted step m s ≠ .running s') :
    runUntil halted step n s = runUntil halted step m s := by
  rw [← runUntil_ended (m := m) h, Nat.add_comm, runUntil_ended h']

/-- **Halting later.** A machine that halts later does what the one that halts earlier does,
up to the state the latter halts at. -/
theorem runUntil_mono (hmono : ∀ s, halted' s = true → halted s = true) (n : ℕ) (s : σ) :
    (∀ s', runUntil halted step n s = .running s' → runUntil halted' step n s = .running s') ∧
    (runUntil halted step n s = .exit → runUntil halted' step n s = .exit) ∧
    (∀ s', runUntil halted step n s = .ok s' →
      (∃ k, runUntil halted' step k s = .running s' ∧ halted s' = true) ∨
        runUntil halted' step n s = .ok s' ∧ ∃ s₀, ¬ halted s₀ = true ∧ step s₀ = .ok s') := by
  induction n generalizing s with
  | zero => simp [runUntil]
  | succ n ih =>
    by_cases hhalted : halted s = true
    · -- the earlier machine halts at once: the later one has not moved
      simp only [runUntil, if_pos hhalted, reduceCtorEq, false_implies, implies_true, true_and,
        Result.ok.injEq]
      rintro s' rfl
      exact .inl ⟨0, rfl, hhalted⟩
    · have hhalted' : ¬ halted' s = true := fun h => hhalted (hmono s h)
      simp only [runUntil, if_neg hhalted, if_neg hhalted']
      cases hstep : step s with
      | exit => simp
      | ok s'' =>
        simp only [reduceCtorEq, false_implies, implies_true, true_and, Result.ok.injEq]
        rintro s' rfl
        exact .inr ⟨rfl, s, hhalted, hstep⟩
      | running s'' =>
        obtain ⟨hrunning, hexit, hok⟩ := ih s''
        refine ⟨hrunning, hexit, fun s' h => ?_⟩
        rcases hok s' h with ⟨k, hk, hs'⟩ | hk
        · refine .inl ⟨k + 1, ?_, hs'⟩
          simp only [runUntil, if_neg hhalted', hstep]
          exact hk
        · exact .inr hk

end Prosperismo
