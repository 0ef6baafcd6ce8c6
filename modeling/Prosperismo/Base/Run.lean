import Mathlib.Data.List.Basic

/-!
# Runs of a nondeterministic machine

A machine is a step relation `step : σ → α → σ → Prop`: from state `s`, the
call `a` may return in state `s'`. A call that stops the process has no
post-state, so it simply does not occur in a run. `Run step s as s'` chains
calls, and the two rules below are the only induction the developments built
on it need:

* `Run.invariant`: a property of the initial state that every step preserves
  holds at the end of every run;
* `Run.history`: the same for a property that also reads the calls made so
  far.
-/

namespace Prosperismo

variable {σ α : Type*} {step : σ → α → σ → Prop}

/-- `Run step s as s'`: the calls `as`, made in order from `s`, all return, and
the last one returns in `s'`. -/
inductive Run (step : σ → α → σ → Prop) : σ → List α → σ → Prop
  | nil (s : σ) : Run step s [] s
  | snoc {s s' s'' : σ} {as : List α} {a : α} :
      Run step s as s' → step s' a s'' → Run step s (as ++ [a]) s''

namespace Run

/-- **Invariant rule.** What holds initially and is preserved by every step
holds at the end of every run. -/
theorem invariant {I : σ → Prop} {s s' : σ} {as : List α} (h : Run step s as s')
    (hinit : I s) (hstep : ∀ s a s', I s → step s a s' → I s') : I s' := by
  induction h with
  | nil => exact hinit
  | snoc _ hlast ih => exact hstep _ _ _ ih hlast

/-- **Invariant rule with history.** The invariant may mention the calls made
so far. -/
theorem history {I : List α → σ → Prop} {s s' : σ} {as : List α} (h : Run step s as s')
    (hinit : I [] s)
    (hstep : ∀ as s a s', I as s → step s a s' → I (as ++ [a]) s') : I as s' := by
  induction h with
  | nil => exact hinit
  | snoc _ hlast ih => exact hstep _ _ _ _ ih hlast

/-- A single call is a run. -/
theorem single {s s' : σ} {a : α} (h : step s a s') : Run step s [a] s' :=
  snoc (nil s) h

/-- Two runs compose. -/
theorem append {s s' s'' : σ} {as bs : List α} (h : Run step s as s')
    (h' : Run step s' bs s'') : Run step s (as ++ bs) s'' := by
  induction h' with
  | nil => simpa using h
  | snoc _ hlast ih => rw [← List.append_assoc]; exact snoc ih hlast

/-- No calls lead nowhere. -/
theorem eq_of_nil {s s' : σ} (h : Run step s [] s') : s = s' := by
  generalize hcalls : ([] : List α) = calls at h
  cases h with
  | nil => rfl
  | snoc => exact absurd hcalls.symm (List.append_ne_nil_of_right_ne_nil _ (List.cons_ne_nil _ _))

/-- The first call of a run, and the rest. -/
theorem uncons {s s'' : σ} {a : α} {as : List α} (h : Run step s (a :: as) s'') :
    ∃ s', step s a s' ∧ Run step s' as s'' := by
  generalize hcalls : a :: as = calls at h
  induction h generalizing as with
  | nil => cases hcalls
  | @snoc s₁ s₂ bs b hfirst hlast ih =>
    cases bs with
    | nil =>
      -- there is only one call
      obtain ⟨rfl, rfl⟩ := List.cons.inj hcalls
      obtain rfl := hfirst.eq_of_nil
      exact ⟨s₂, hlast, nil s₂⟩
    | cons c cs =>
      obtain ⟨rfl, rfl⟩ := List.cons.inj hcalls
      obtain ⟨s', hstep, hrun⟩ := ih rfl
      exact ⟨s', hstep, snoc hrun hlast⟩

/-- A run stops after some of its calls on the way. -/
theorem split {s s'' : σ} {as bs : List α} (h : Run step s (as ++ bs) s'') :
    ∃ s', Run step s as s' ∧ Run step s' bs s'' := by
  induction as generalizing s with
  | nil => exact ⟨s, nil s, h⟩
  | cons a as ih =>
    obtain ⟨s₁, hfirst, hrest⟩ := h.uncons
    obtain ⟨s', has, hbs⟩ := ih hrest
    exact ⟨s', (single hfirst).append has, hbs⟩

/-- A run of a relation is a run of a larger one. -/
theorem mono {step' : σ → α → σ → Prop} (hstep : ∀ s a s', step s a s' → step' s a s') {s s' : σ}
    {as : List α} (h : Run step s as s') : Run step' s as s' := by
  induction h with
  | nil => exact nil s
  | snoc _ hlast ih => exact snoc ih (hstep _ _ _ hlast)

/-- **Conservation rule.** If in every step what is there and what comes in is what goes out and
what is there afterwards, in this order, then the same holds of every run. -/
theorem conserves {β : Type*} {I : σ → Prop} {s s' : σ} {as : List α} (h : Run step s as s')
    (stock : σ → List β) (input output : α → List β) (hinit : I s)
    (hstep : ∀ s a s', I s → a ∈ as → step s a s' →
      I s' ∧ stock s ++ input a = output a ++ stock s') :
    I s' ∧ stock s ++ as.flatMap input = as.flatMap output ++ stock s' := by
  induction h with
  | nil => exact ⟨hinit, List.append_nil _⟩
  | @snoc s₁ s₂ as a _ hlast ih =>
    obtain ⟨hI, hsame⟩ := ih fun s a s' hs ha => hstep s a s' hs (List.mem_append_left _ ha)
    obtain ⟨hI', hsame'⟩ := hstep _ _ _ hI (List.mem_append_right _ List.mem_cons_self) hlast
    refine ⟨hI', ?_⟩
    calc stock s ++ (as ++ [a]).flatMap input
        = (stock s ++ as.flatMap input) ++ input a := by simp
      _ = as.flatMap output ++ (stock s₁ ++ input a) := by rw [hsame, List.append_assoc]
      _ = (as ++ [a]).flatMap output ++ stock s₂ := by rw [hsame']; simp

/-- **Counting rule.** If in no step more goes out than comes in or was there, then the same holds
of every run. -/
theorem bounds {β γ : Type*} {I : σ → Prop} {s s' : σ} {as : List α} (h : Run step s as s')
    (stock : σ → ℕ) (input : α → List β) (output : α → List γ) (hinit : I s)
    (hstep : ∀ s a s', I s → step s a s' →
      I s' ∧ (output a).length + stock s' ≤ (input a).length + stock s) :
    (as.flatMap output).length + stock s' ≤ (as.flatMap input).length + stock s := by
  have hboth : I s' ∧
      (as.flatMap output).length + stock s' ≤ (as.flatMap input).length + stock s := by
    induction h with
    | nil => exact ⟨hinit, Nat.le_refl _⟩
    | @snoc s₁ s₂ as a _ hlast ih =>
      obtain ⟨hI, hle⟩ := ih
      obtain ⟨hI', hle'⟩ := hstep _ _ _ hI hlast
      refine ⟨hI', ?_⟩
      rw [List.flatMap_append, List.flatMap_append, List.length_append, List.length_append,
        List.flatMap_singleton, List.flatMap_singleton]
      omega
  exact hboth.2

end Run

end Prosperismo
