import Mathlib.Logic.Basic
import Mathlib.Data.List.Forall2

/-!
# Taking `Except` computations apart

A call that stops the process returns `Except.error`; these lemmas peel a successful
call into its successful steps, and a failing one into the step that fails, so that no
proof unfolds `bind`. `foldlM_invariant`, `foldlM_error` and `mapM_ok` are the rules for
loops. `Ensures` says of both outcomes what they satisfy, and is proved step by step
(`Ensures.bind`).
-/

namespace Prosperismo

universe u

variable {ε : Type*} {α β : Type u}

/-- A bind succeeds exactly when both its parts do. -/
theorem bind_ok {x : Except ε α} {f : α → Except ε β} {b : β} :
    (x >>= f) = .ok b ↔ ∃ a, x = .ok a ∧ f a = .ok b := by
  cases x with
  | error e => simp [Bind.bind, Except.bind]
  | ok a => simp [Bind.bind, Except.bind]

/-- `pure` succeeds with its argument. -/
theorem pure_ok {a b : α} : (pure a : Except ε α) = .ok b ↔ a = b := by
  simp [Pure.pure, Except.pure]

/-- **The loop rule.** What every successful step of a loop preserves holds at its end. -/
theorem foldlM_invariant {γ : Type*} {I : α → Prop} {f : α → γ → Except ε α} {l : List γ}
    (hstep : ∀ a, ∀ c ∈ l, ∀ a', I a → f a c = .ok a' → I a') {a a' : α}
    (h : l.foldlM f a = .ok a') (ha : I a) : I a' := by
  induction l generalizing a with
  | nil =>
    rw [List.foldlM_nil, pure_ok] at h
    exact h ▸ ha
  | cons c l ih =>
    rw [List.foldlM_cons, bind_ok] at h
    obtain ⟨b, hb, h⟩ := h
    exact ih (fun a c hc => hstep a c (List.mem_cons_of_mem _ hc)) h
      (hstep a c List.mem_cons_self b ha hb)

/-- The loop rule for an invariant about the elements that the loop has gone through. -/
theorem foldlM_invariant_prefix {γ : Type*} {I : List γ → α → Prop} {f : α → γ → Except ε α}
    (hstep : ∀ before c a a', I before a → f a c = .ok a' → I (before ++ [c]) a') {l : List γ}
    {a a' : α} (h : l.foldlM f a = .ok a') (ha : I [] a) : I l a' := by
  have hall : ∀ (l before : List γ) (a : α), I before a → l.foldlM f a = .ok a' →
      I (before ++ l) a' := by
    intro l
    induction l with
    | nil =>
      intro before a ha h
      rw [List.foldlM_nil, pure_ok] at h
      rwa [List.append_nil, ← h]
    | cons c l ih =>
      intro before a ha h
      rw [List.foldlM_cons, bind_ok] at h
      obtain ⟨b, hb, h⟩ := h
      have := ih (before ++ [c]) b (hstep before c a b ha hb) h
      rwa [List.append_assoc] at this
  exact hall l [] a ha h

/-- A bind fails exactly when one of its parts does. -/
theorem bind_error {x : Except ε α} {f : α → Except ε β} {e : ε} :
    (x >>= f) = .error e ↔ x = .error e ∨ ∃ a, x = .ok a ∧ f a = .error e := by
  cases x with
  | error e' => simp [Bind.bind, Except.bind]
  | ok a => simp [Bind.bind, Except.bind]

/-- A loop that fails has a first iteration that fails. -/
theorem foldlM_error {γ : Type*} {f : α → γ → Except ε α} {l : List γ} {a : α} {e : ε}
    (h : l.foldlM f a = .error e) :
    ∃ before c after a', l = before ++ c :: after ∧ before.foldlM f a = .ok a' ∧
      f a' c = .error e := by
  induction l generalizing a with
  | nil => cases h
  | cons c l ih =>
    rw [List.foldlM_cons] at h
    rcases bind_error.1 h with hc | ⟨a', hc, h⟩
    · exact ⟨[], c, l, a, rfl, rfl, hc⟩
    · obtain ⟨before, d, after, a'', rfl, hbefore, hd⟩ := ih h
      refine ⟨c :: before, d, after, a'', rfl, ?_, hd⟩
      rw [List.foldlM_cons, hc]
      exact hbefore

/-- Renaming errors does not change results. -/
theorem mapError_ok {ε' : Type*} {g : ε → ε'} {x : Except ε α} {a : α} :
    x.mapError g = .ok a ↔ x = .ok a := by
  cases x <;> simp [Except.mapError]

theorem mapError_error {ε' : Type*} {g : ε → ε'} {x : Except ε α} {e' : ε'} :
    x.mapError g = .error e' ↔ ∃ e, x = .error e ∧ g e = e' := by
  cases x <;> simp [Except.mapError]

/-- A successful map is successful on every element. -/
theorem mapM_ok {γ : Type*} {f : γ → Except ε α} {l : List γ} {r : List α}
    (h : l.mapM f = .ok r) : List.Forall₂ (fun c a => f c = .ok a) l r := by
  induction l generalizing r with
  | nil =>
    rw [List.mapM_nil, pure_ok] at h
    exact h ▸ .nil
  | cons c l ih =>
    simp only [List.mapM_cons, bind_ok, pure_ok] at h
    obtain ⟨a, ha, as, has, rfl⟩ := h
    exact .cons ha (ih has)

/-- Every result of a map comes from one of the elements. -/
theorem exists_of_mem_mapM_ok {γ : Type*} {f : γ → Except ε α} {l : List γ} {r : List α}
    (h : l.mapM f = .ok r) {a : α} (ha : a ∈ r) : ∃ c ∈ l, f c = .ok a := by
  have hall := mapM_ok h
  clear h
  induction hall with
  | nil => cases ha
  | @cons c _ _ _ hc _ ih =>
    rcases List.mem_cons.1 ha with rfl | ha
    · exact ⟨c, List.mem_cons_self, hc⟩
    · obtain ⟨c, hmem, hc⟩ := ih ha
      exact ⟨c, List.mem_cons_of_mem _ hmem, hc⟩

/-- Every element of a map has a result. -/
theorem mem_mapM_ok {γ : Type*} {f : γ → Except ε α} {l : List γ} {r : List α}
    (h : l.mapM f = .ok r) {c : γ} (hc : c ∈ l) : ∃ a, f c = .ok a ∧ a ∈ r := by
  have hall := mapM_ok h
  clear h
  induction hall with
  | nil => cases hc
  | @cons c' a _ _ ha _ ih =>
    rcases List.mem_cons.1 hc with rfl | hc
    · exact ⟨a, ha, List.mem_cons_self⟩
    · obtain ⟨a, ha, hmem⟩ := ih hc
      exact ⟨a, ha, List.mem_cons_of_mem _ hmem⟩

/-- A map succeeds when another one does that fails wherever it fails. -/
theorem exists_mapM_ok {γ : Type*} {f g : γ → Except ε α} {l : List γ} {r : List α}
    (hfg : ∀ c a, f c = .ok a → ∃ a', g c = .ok a') (h : l.mapM f = .ok r) :
    ∃ r', l.mapM g = .ok r' := by
  induction l generalizing r with
  | nil => exact ⟨[], rfl⟩
  | cons c l ih =>
    simp only [List.mapM_cons, bind_ok, pure_ok] at h ⊢
    obtain ⟨a, ha, as, has, -⟩ := h
    obtain ⟨a', ha'⟩ := hfg c a ha
    obtain ⟨as', has'⟩ := ih has
    exact ⟨a' :: as', a', ha', as', has', rfl⟩

/-! ### Both outcomes -/

/-- A result satisfies `P`, and an error `E`. -/
def Ensures (E : ε → Prop) (P : α → Prop) (x : Except ε α) : Prop :=
  match x with
  | .ok a => P a
  | .error e => E e

section Ensures

variable {E : ε → Prop} {P : α → Prop} {x : Except ε α}

theorem Ensures.ok {a : α} (h : P a) : Ensures E P (.ok a) := h

theorem Ensures.error {e : ε} (h : E e) : Ensures E P (.error e : Except ε α) := h

theorem Ensures.of_ok {a : α} (h : Ensures E P x) (hx : x = .ok a) : P a := by
  rw [hx] at h
  exact h

theorem Ensures.of_error {e : ε} (h : Ensures E P x) (hx : x = .error e) : E e := by
  rw [hx] at h
  exact h

/-- **The rule of a step**: what the first part ensures is what the second starts from. -/
theorem Ensures.bind {Q : β → Prop} {f : α → Except ε β} (hx : Ensures E P x)
    (hf : ∀ a, P a → Ensures E Q (f a)) : Ensures E Q (x >>= f) := by
  cases x with
  | error e => exact hx
  | ok a => exact hf a hx

theorem Ensures.mono {P' : α → Prop} (h : Ensures E P x) (hP : ∀ a, P a → P' a) :
    Ensures E P' x := by
  cases x with
  | error e => exact h
  | ok a => exact hP a h

/-- The rule of a map: an element at a time. -/
theorem Ensures.mapM {γ : Type*} {f : γ → Except ε α} {l : List γ}
    (h : ∀ c ∈ l, Ensures E P (f c)) : Ensures E (fun r => ∀ a ∈ r, P a) (l.mapM f) := by
  induction l with
  | nil => exact fun a ha => absurd ha List.not_mem_nil
  | cons c l ih =>
    rw [List.mapM_cons]
    refine (h c List.mem_cons_self).bind fun a ha => ?_
    refine (ih fun c hc => h c (List.mem_cons_of_mem _ hc)).bind fun as has => ?_
    exact List.forall_mem_cons.2 ⟨ha, has⟩

end Ensures

end Prosperismo
