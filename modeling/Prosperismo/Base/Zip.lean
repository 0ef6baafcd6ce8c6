import Prosperismo.Base.Except

/-!
# Two lists walked in step

`zipMapM f n as bs` calls `f` on the elements of two lists at the same position, with the
position counted from `n`, and collects the results; `zipForM` only checks. A walk that
succeeds has succeeded at every position (`zipMapM_ok`, `zipForM_ok`).
-/

namespace Prosperismo

universe u

variable {ε : Type*} {α β : Type*} {γ : Type u}

/-- The results of `f` at every position. -/
def zipMapM (f : Nat → α → β → Except ε γ) : Nat → List α → List β → Except ε (List γ)
  | n, a :: as, b :: bs => do
    let c ← f n a b
    let cs ← zipMapM f (n + 1) as bs
    return c :: cs
  | _, _, _ => pure []

/-- `f` succeeds at every position. -/
def zipForM (f : Nat → α → β → Except ε Unit) : Nat → List α → List β → Except ε Unit
  | n, a :: as, b :: bs => do
    f n a b
    zipForM f (n + 1) as bs
  | _, _, _ => pure ()

variable {n : ℕ} {as : List α} {bs : List β}

/-- **A walk that succeeds** collects the result at every position. -/
theorem zipMapM_ok {f : ℕ → α → β → Except ε γ} {cs : List γ} (hlen : as.length = bs.length) :
    zipMapM f n as bs = .ok cs ↔ cs.length = as.length ∧
      ∀ i a b, as[i]? = some a → bs[i]? = some b →
        ∃ c, cs[i]? = some c ∧ f (n + i) a b = .ok c := by
  induction as generalizing n bs cs with
  | nil =>
    have hresult : zipMapM f n [] bs = .ok [] := by cases bs <;> rfl
    rw [hresult]
    simp [eq_comm]
  | cons a as ih =>
    cases bs with
    | nil => cases hlen
    | cons b bs =>
      have hlen' : as.length = bs.length := Nat.succ.inj hlen
      simp only [zipMapM, bind_ok, pure_ok]
      constructor
      · rintro ⟨c, hc, cs', hcs', rfl⟩
        obtain ⟨hlength, hall⟩ := (ih hlen').1 hcs'
        refine ⟨by simp [hlength], fun i a' b' ha hb => ?_⟩
        cases i with
        | zero =>
          cases ha
          cases hb
          exact ⟨c, rfl, hc⟩
        | succ i =>
          rw [← Nat.add_assoc, Nat.add_right_comm]
          exact hall i a' b' ha hb
      · rintro ⟨hlength, hall⟩
        cases cs with
        | nil => cases hlength
        | cons c cs =>
          obtain ⟨c', hc', hc⟩ := hall 0 a b rfl rfl
          cases hc'
          refine ⟨c, hc, cs, (ih hlen').2 ⟨Nat.succ.inj hlength, fun i a' b' ha hb => ?_⟩, rfl⟩
          rw [Nat.add_right_comm, Nat.add_assoc]
          exact hall (i + 1) a' b' ha hb

/-- A walk that can succeed at every position succeeds. -/
theorem exists_zipMapM_ok {f : ℕ → α → β → Except ε γ} (hlen : as.length = bs.length)
    (h : ∀ i a b, as[i]? = some a → bs[i]? = some b → ∃ c, f (n + i) a b = .ok c) :
    ∃ cs, zipMapM f n as bs = .ok cs := by
  induction as generalizing n bs with
  | nil => exact ⟨[], by cases bs <;> rfl⟩
  | cons a as ih =>
    cases bs with
    | nil => cases hlen
    | cons b bs =>
      obtain ⟨c, hc⟩ := h 0 a b rfl rfl
      have htail : ∃ cs, zipMapM f (n + 1) as bs = .ok cs := by
        apply ih (Nat.succ.inj hlen)
        intro i a' b' ha hb
        rw [Nat.add_right_comm, Nat.add_assoc]
        exact h (i + 1) a' b' ha hb
      obtain ⟨cs, hcs⟩ := htail
      refine ⟨c :: cs, ?_⟩
      simp only [zipMapM, bind_ok, pure_ok]
      exact ⟨c, hc, cs, hcs, rfl⟩

/-- **A check that succeeds** succeeds at every position. -/
theorem zipForM_ok {f : ℕ → α → β → Except ε Unit} :
    zipForM f n as bs = .ok () ↔
      ∀ i a b, as[i]? = some a → bs[i]? = some b → f (n + i) a b = .ok () := by
  induction as generalizing n bs with
  | nil => simp [zipForM, pure_ok]
  | cons a as ih =>
    cases bs with
    | nil => simp [zipForM, pure_ok]
    | cons b bs =>
      simp only [zipForM, bind_ok]
      constructor
      · rintro ⟨_, hhead, htail⟩ i a' b' ha hb
        cases i with
        | zero =>
          cases ha
          cases hb
          exact hhead
        | succ i =>
          rw [← Nat.add_assoc, Nat.add_right_comm]
          exact ih.1 htail i a' b' ha hb
      · intro hall
        refine ⟨(), hall 0 a b rfl rfl, ih.2 fun i a' b' ha hb => ?_⟩
        rw [Nat.add_right_comm, Nat.add_assoc]
        exact hall (i + 1) a' b' ha hb

end Prosperismo
