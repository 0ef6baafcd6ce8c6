import Prosperismo.Spirv.Machine
import Mathlib.Data.List.Basic

/-!
# Emitting code

An emitter appends instructions to the code of a builder and draws fresh result
ids from it. `Emits m n P` says what an emitter does from next id `n`, whatever
has been emitted before: it appends some code `is`, returns some `x`, moves the
next id up to some `n'`, and `P x is n'`.

Two kinds of emitted code have rules of their own, both of which follow the
emitter and the execution of what it emits at the same time:

* `Straight m n env vars Q`: the code is straight-line code that, executed on
  `env` and `vars`, ends in values that satisfy `Q`;
* `Leaves prog m n env vars Q`: the code is a block ending, that takes a
  configuration with `env` and `vars` out of the block to a configuration that
  satisfies `Q`.
-/

namespace Prosperismo.Spirv

/-- The state of the module builder. -/
structure Builder (L V B : Type) where
  nextId : ℕ
  code : List (Inst L V B)

/-- An emitter. -/
abbrev Emit (L V B : Type) := StateM (Builder L V B)

variable {L V B α β : Type} {W : Type*}

/-- `AllocateId`. -/
def allocateId : Emit L V B ℕ := fun s => (s.nextId, { s with nextId := s.nextId + 1 })

/-- `AddFunction`. -/
def addFunction (i : Inst L V B) : Emit L V B Unit := fun s => ((), { s with code := s.code ++ [i] })

/-! ### What an emitter emits -/

/-- From next id `n`, `m` appends code and returns a value as `P` says. -/
def Emits (m : Emit L V B α) (n : ℕ) (P : α → List (Inst L V B) → ℕ → Prop) : Prop :=
  ∀ code, ∃ x is n', m ⟨n, code⟩ = (x, ⟨n', code ++ is⟩) ∧ n ≤ n' ∧ P x is n'

namespace Emits

variable {m : Emit L V B α} {f : α → Emit L V B β} {n : ℕ}

theorem mono {P Q : α → List (Inst L V B) → ℕ → Prop} (h : Emits m n P)
    (hPQ : ∀ x is n', n ≤ n' → P x is n' → Q x is n') : Emits m n Q := by
  intro code
  obtain ⟨x, is, n', hm, hn, hP⟩ := h code
  exact ⟨x, is, n', hm, hn, hPQ x is n' hn hP⟩

theorem pure {x : α} {P : α → List (Inst L V B) → ℕ → Prop} (h : P x [] n) :
    Emits (pure x : Emit L V B α) n P :=
  fun code => ⟨x, [], n, by rw [List.append_nil]; rfl, le_rfl, h⟩

theorem bind {P : α → List (Inst L V B) → ℕ → Prop} {Q : β → List (Inst L V B) → ℕ → Prop}
    (h : Emits m n P)
    (hf : ∀ x is n', n ≤ n' → P x is n' → Emits (f x) n' fun y js n'' => Q y (is ++ js) n'') :
    Emits (m >>= f) n Q := by
  intro code
  obtain ⟨x, is, n', hm, hn, hP⟩ := h code
  obtain ⟨y, js, n'', hfx, hn', hQ⟩ := hf x is n' hn hP (code ++ is)
  refine ⟨y, is ++ js, n'', ?_, hn.trans hn', hQ⟩
  rw [← List.append_assoc, ← hfx]
  change (let r := m ⟨n, code⟩; f r.1 r.2) = _
  rw [hm]

theorem allocateId {P : ℕ → List (Inst L V B) → ℕ → Prop} (h : P n [] (n + 1)) :
    Emits allocateId n P :=
  fun code => ⟨n, [], n + 1, by rw [List.append_nil]; rfl, Nat.le_succ n, h⟩

theorem addFunction {i : Inst L V B} {P : Unit → List (Inst L V B) → ℕ → Prop}
    (h : P () [i] n) : Emits (addFunction i) n P :=
  fun _ => ⟨(), [i], n, rfl, le_rfl, h⟩

/-- What an emitter emits does not depend on what is proved about it. -/
theorem forall_of {ι : Type*} [Nonempty ι] {P : ι → α → List (Inst L V B) → ℕ → Prop}
    (h : ∀ j, Emits m n (P j)) : Emits m n fun x is n' => ∀ j, P j x is n' := by
  intro code
  obtain ⟨x, is, n', hm, hn, -⟩ := h (Classical.arbitrary ι) code
  refine ⟨x, is, n', hm, hn, fun j => ?_⟩
  obtain ⟨x', is', n'', hm', -, hP⟩ := h j code
  rw [hm, Prod.mk.injEq, Builder.mk.injEq, List.append_cancel_left_eq] at hm'
  obtain ⟨rfl, rfl, rfl⟩ := hm'
  exact hP

/-- Emitting a list of pieces, each of which has its property wherever it is
emitted: the code is the pieces in order. -/
theorem forM {γ : Type} {g : γ → Emit L V B Unit} {P : γ → List (Inst L V B) → Prop}
    {as : List γ} (h : ∀ a ∈ as, ∀ n, Emits (g a) n fun _ is _ => P a is) (n : ℕ) :
    Emits (as.forM g) n fun _ is _ =>
      ∃ pieces : List (List (Inst L V B)), is = pieces.flatten ∧ List.Forall₂ P as pieces := by
  induction as generalizing n with
  | nil => exact Emits.pure ⟨[], rfl, .nil⟩
  | cons a as ih =>
    change Emits (g a >>= fun _ => as.forM g) n _
    refine (h a List.mem_cons_self n).bind fun _ is n' _ hP =>
      (ih (fun b hb => h b (List.mem_cons_of_mem _ hb)) n').mono ?_
    rintro - js n'' - ⟨pieces, rfl, hpieces⟩
    exact ⟨is :: pieces, rfl, .cons hP hpieces⟩

end Emits

/-! ### Straight-line code -/

section Straight

variable [DecidableEq V] {m : Emit L V B α} {f : α → Emit L V B β} {n : ℕ} {env : Env}
  {vars : V → ℕ}

/-- `m` emits straight-line code that takes `env` and `vars` to values that
satisfy `Q`. -/
def Straight (m : Emit L V B α) (n : ℕ) (env : Env) (vars : V → ℕ)
    (Q : α → ℕ → Env → (V → ℕ) → Prop) : Prop :=
  Emits m n fun x is n' => labels is = [] ∧
    ∃ env' vars', evalOps is (env, vars) = some (env', vars') ∧ Q x n' env' vars'

namespace Straight

theorem mono {P Q : α → ℕ → Env → (V → ℕ) → Prop} (h : Straight m n env vars P)
    (hPQ : ∀ x n' env' vars', n ≤ n' → P x n' env' vars' → Q x n' env' vars') :
    Straight m n env vars Q :=
  Emits.mono h fun x _ n' hn ⟨hlab, env', vars', hev, hP⟩ =>
    ⟨hlab, env', vars', hev, hPQ x n' env' vars' hn hP⟩

theorem pure {x : α} {Q : α → ℕ → Env → (V → ℕ) → Prop} (h : Q x n env vars) :
    Straight (pure x : Emit L V B α) n env vars Q :=
  Emits.pure ⟨rfl, env, vars, rfl, h⟩

theorem bind {P : α → ℕ → Env → (V → ℕ) → Prop} {Q : β → ℕ → Env → (V → ℕ) → Prop}
    (h : Straight m n env vars P)
    (hf : ∀ x n' env' vars', n ≤ n' → P x n' env' vars' → Straight (f x) n' env' vars' Q) :
    Straight (m >>= f) n env vars Q := by
  refine Emits.bind h ?_
  rintro x is n' hn ⟨hlab, env', vars', hev, hP⟩
  refine Emits.mono (hf x n' env' vars' hn hP) ?_
  rintro y js n'' - ⟨hlab', env'', vars'', hev', hQ⟩
  exact ⟨by rw [labels_append, hlab, hlab']; rfl, env'', vars'',
    by rw [evalOps_append hev, hev'], hQ⟩

theorem allocateId {Q : ℕ → ℕ → Env → (V → ℕ) → Prop} (h : Q n (n + 1) env vars) :
    Straight (allocateId : Emit L V B ℕ) n env vars Q :=
  Emits.allocateId ⟨rfl, env, vars, rfl, h⟩

/-- An instruction that is neither a jump nor a body. -/
theorem addFunction {i : Inst L V B} {s : Env × (V → ℕ)} {Q : Unit → ℕ → Env → (V → ℕ) → Prop}
    (hi : i.step (env, vars) = some s) (h : Q () n s.1 s.2) :
    Straight (addFunction i) n env vars Q := by
  refine Emits.addFunction ⟨?_, s.1, s.2, by simp [hi], h⟩
  cases i <;> first
    | cases hi; done
    | rfl

end Straight

end Straight

/-! ### Values -/

/-- An operand that only mentions ids below `n`. -/
def Operand.Below (n : ℕ) : Operand → Prop
  | .id k => k < n
  | .const _ => True

theorem Operand.Below.mono {n n' : ℕ} {x : Operand} (h : x.Below n) (hn : n ≤ n') :
    x.Below n' := by
  cases x with
  | id k => exact Nat.lt_of_lt_of_le h hn
  | const w => trivial

/-- Two environments agree below `n`. -/
def AgreeBelow (n : ℕ) (env env' : Env) : Prop := ∀ k < n, env' k = env k

theorem AgreeBelow.refl (n : ℕ) (env : Env) : AgreeBelow n env env := fun _ _ => rfl

theorem AgreeBelow.trans {n n' : ℕ} {env env' env'' : Env} (h : AgreeBelow n env env')
    (hn : n ≤ n') (h' : AgreeBelow n' env' env'') : AgreeBelow n env env'' :=
  fun k hk => (h' k (Nat.lt_of_lt_of_le hk hn)).trans (h k hk)

theorem AgreeBelow.update {n k : ℕ} {env : Env} (hk : n ≤ k) (w : ℕ) :
    AgreeBelow n env (Function.update env k w) := by
  intro j hj
  rw [Function.update_of_ne (by omega)]

theorem AgreeBelow.eval {n : ℕ} {env env' : Env} (h : AgreeBelow n env env') {x : Operand}
    (hx : x.Below n) : x.eval env' = x.eval env := by
  cases x with
  | id k => exact h k hx
  | const w => rfl

section Computes

variable [DecidableEq V] {n : ℕ} {env : Env} {vars : V → ℕ}

/-- `m` emits code that computes `w` into the operand it returns, and leaves
everything older as it was. -/
def Computes (m : Emit L V B Operand) (n : ℕ) (env : Env) (vars : V → ℕ) (w : ℕ) : Prop :=
  Straight m n env vars fun x n' env' vars' =>
    x.Below n' ∧ x.eval env' = w ∧ AgreeBelow n env env' ∧ vars' = vars

/-- A constant is computed by no code. -/
theorem Computes.const (w : ℕ) :
    Computes (Pure.pure (Operand.const w) : Emit L V B Operand) n env vars w :=
  Straight.pure ⟨trivial, rfl, .refl n env, rfl⟩

/-- Rewriting the value. -/
theorem Computes.of_eq {m : Emit L V B Operand} {w w' : ℕ} (h : Computes m n env vars w)
    (hw : w = w') : Computes m n env vars w' := hw ▸ h

/-- An operation on a fresh id. -/
theorem Computes.fresh {i : ℕ → Inst L V B} {w : ℕ}
    (h : (i n).step (env, vars) = some (Function.update env n w, vars)) :
    Computes (do let r ← allocateId; addFunction (i r); return .id r) n env vars w := by
  refine Straight.bind (Straight.allocateId (Q := fun x n' env' vars' =>
    x = n ∧ n' = n + 1 ∧ env' = env ∧ vars' = vars) ⟨rfl, rfl, rfl, rfl⟩) ?_
  rintro _ _ _ _ - ⟨rfl, rfl, rfl, rfl⟩
  refine Straight.bind (Straight.addFunction h (Q := fun _ n' env' vars' =>
    n' = _ ∧ env' = _ ∧ vars' = _) ⟨rfl, rfl, rfl⟩) ?_
  rintro _ _ _ _ - ⟨rfl, rfl, rfl⟩
  exact Straight.pure ⟨Nat.lt_succ_self _, Function.update_self _ _ _, .update le_rfl _, rfl⟩

/-- Computing one value and then another from it. -/
theorem Computes.bind {m : Emit L V B Operand} {f : Operand → Emit L V B Operand} {w w' : ℕ}
    (h : Computes m n env vars w)
    (hf : ∀ x n' env', n ≤ n' → x.Below n' → x.eval env' = w → AgreeBelow n env env' →
      Computes (f x) n' env' vars w') :
    Computes (m >>= f) n env vars w' := by
  refine Straight.bind h ?_
  rintro x n' env' _ hn ⟨hx, hw, hagree, rfl⟩
  refine (hf x n' env' hn hx hw hagree).mono ?_
  rintro y n'' env'' _ hn' ⟨hy, hw', hagree', rfl⟩
  exact ⟨hy, hw', hagree.trans hn hagree', rfl⟩

end Computes

/-! ### Block endings -/

section Leaves

variable [DecidableEq L] [DecidableEq V] {prog : List (Inst L V B)} {n : ℕ} {env : Env}
  {vars : V → ℕ}

/-- `m` emits the end of a block: no labels, and code that takes a configuration
with `env` and `vars` to one whose code and variables satisfy `Q`. -/
def Leaves (prog : List (Inst L V B)) (m : Emit L V B Unit) (n : ℕ) (env : Env)
    (vars : V → ℕ) (Q : List (Inst L V B) → (V → ℕ) → Prop) : Prop :=
  Emits m n fun _ is _ => labels is = [] ∧
    ∀ rest, ∃ target env' vars', Q target vars' ∧
      ∀ (W : Type) (w : W), Silent prog ⟨is ++ rest, env, vars, w⟩ ⟨target, env', vars', w⟩

namespace Leaves

variable {m : Emit L V B α} {f : α → Emit L V B Unit} {Q : List (Inst L V B) → (V → ℕ) → Prop}

/-- Straight-line code before the end of the block. -/
theorem bind {P : α → ℕ → Env → (V → ℕ) → Prop} (h : Straight m n env vars P)
    (hf : ∀ x n' env' vars', n ≤ n' → P x n' env' vars' → Leaves prog (f x) n' env' vars' Q) :
    Leaves prog (m >>= f) n env vars Q := by
  refine Emits.bind h ?_
  rintro x is n' hn ⟨hlab, env', vars', hev, hP⟩
  refine (hf x n' env' vars' hn hP).mono ?_
  rintro - js n'' - ⟨hlab', hjs⟩
  refine ⟨by rw [labels_append, hlab, hlab']; rfl, fun rest => ?_⟩
  obtain ⟨target, env'', vars'', hQ, hrun⟩ := hjs rest
  refine ⟨target, env'', vars'', hQ, fun W w => ?_⟩
  rw [List.append_assoc]
  exact (Silent.ops hev).trans (hrun W w)

/-- An unconditional jump. -/
theorem branch {l : L} {target : List (Inst L V B)} (hl : findLabel l prog = some target)
    (h : Q target vars) : Leaves prog (addFunction (.branch l)) n env vars Q :=
  Emits.addFunction ⟨rfl, fun _ => ⟨target, env, vars, h, fun _ _ => .branch hl⟩⟩

/-- A conditional jump. -/
theorem branchConditional {x : Operand} {t f : L} {target : List (Inst L V B)}
    (hl : findLabel (if x.eval env ≠ 0 then t else f) prog = some target) (h : Q target vars) :
    Leaves prog (addFunction (.branchConditional x t f)) n env vars Q :=
  Emits.addFunction ⟨rfl, fun _ => ⟨target, env, vars, h, fun _ _ => .branchConditional hl⟩⟩

/-- A return. -/
theorem ret (h : ∀ rest, Q (.ret :: rest) vars) :
    Leaves prog (addFunction .ret) n env vars Q :=
  Emits.addFunction ⟨rfl, fun rest => ⟨.ret :: rest, env, vars, h rest, fun _ _ => .refl _⟩⟩

/-- The code of a block ending, from every environment and memory. -/
def Code (prog : List (Inst L V B))
    (Q : (V → ℕ) → List (Inst L V B) → (V → ℕ) → Prop) (is : List (Inst L V B)) : Prop :=
  ∀ env vars rest, ∃ target env' vars', Q vars target vars' ∧
    ∀ (W : Type) (w : W), Silent prog ⟨is ++ rest, env, vars, w⟩ ⟨target, env', vars', w⟩

/-- An emitter whose code leaves every environment and memory as `Q` says. -/
theorem emits {m : Emit L V B Unit} {n : ℕ} {Q : (V → ℕ) → List (Inst L V B) → (V → ℕ) → Prop}
    (h : ∀ env vars, Leaves prog m n env vars (Q vars)) :
    Emits m n fun _ is _ => labels is = [] ∧ Code prog Q is := by
  refine (Emits.forall_of (ι := Env × (V → ℕ)) fun p => h p.1 p.2).mono ?_
  intro _ is _ _ hall
  exact ⟨(hall (fun _ => 0, fun _ => 0)).1, fun env vars rest => (hall (env, vars)).2 rest⟩

end Leaves

end Leaves

end Prosperismo.Spirv
