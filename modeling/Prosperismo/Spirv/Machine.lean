import Mathlib.Logic.Function.Basic
import Mathlib.Logic.Relation
import Mathlib.Data.Nat.Bitwise

/-!
# A small SPIR-V machine

The part of SPIR-V that control flow is emitted with: labels, structured merge
declarations, branches, a switch, loads and stores of variables, and the integer
and boolean operations that compute branch conditions. Everything else a block
does is one opaque `body` instruction; what a body does to the variables and to
the rest of the invocation's state is a relation `effect`.

A configuration holds the *remaining code*, a suffix of the function, the values
of the result ids and the memory. A jump resolves its label to the suffix after
it. Merge declarations do nothing when they are executed.

`Exec prog effect c tr fin` is the meaning of a configuration: it executes the
bodies `tr`, in order, and has then returned (`fin = true`) or is still running.
Between two bodies the machine is deterministic (`Silent`), which is what
`exec_body_iff` and its companions turn into equations for `Exec`.
-/

namespace Prosperismo.Spirv

/-! ### Code -/

/-- An operand: a result id, or an integer constant. -/
inductive Operand where
  | id (n : ℕ)
  | const (w : ℕ)
deriving DecidableEq, Repr

/-- The instructions: `L` names labels, `V` variables, `B` block bodies. A result
id comes first, as in the binary form. Booleans are the words 0 and 1. -/
inductive Inst (L V B : Type) where
  | label (l : L)
  | body (b : B)
  | load (result : ℕ) (v : V)
  | store (v : V) (x : Operand)
  | iEqual (result : ℕ) (a b : Operand)
  | iNotEqual (result : ℕ) (a b : Operand)
  | bitwiseOr (result : ℕ) (a b : Operand)
  | logicalNot (result : ℕ) (a : Operand)
  | select (result : ℕ) (c a b : Operand)
  | selectionMerge (merge : L)
  | loopMerge (merge cont : L)
  | branch (l : L)
  | branchConditional (c : Operand) (t f : L)
  | switch (selector : Operand) (default : L) (cases : List (ℕ × L))
  | ret
deriving DecidableEq, Repr

variable {L V B : Type} {W : Type*}

/-- The values of the result ids. -/
abbrev Env := ℕ → ℕ

/-- The value of an operand. -/
def Operand.eval (env : Env) : Operand → ℕ
  | .id n => env n
  | .const w => w

@[simp] theorem Operand.eval_id (env : Env) (n : ℕ) : (Operand.id n).eval env = env n := rfl
@[simp] theorem Operand.eval_const (env : Env) (w : ℕ) : (Operand.const w).eval env = w := rfl

/-- The word of a boolean. -/
def word (p : Prop) [Decidable p] : ℕ := if p then 1 else 0

@[simp] theorem word_ne_zero {p : Prop} [Decidable p] : word p ≠ 0 ↔ p := by
  unfold word; split <;> simp [*]

@[simp] theorem word_eq_zero {p : Prop} [Decidable p] : word p = 0 ↔ ¬p := by
  unfold word; split <;> simp [*]

/-- The suffix after a label. -/
def findLabel [DecidableEq L] (l : L) : List (Inst L V B) → Option (List (Inst L V B))
  | [] => none
  | .label l' :: rest => if l' = l then some rest else findLabel l rest
  | _ :: rest => findLabel l rest

/-- The labels a piece of code defines. -/
def labels (code : List (Inst L V B)) : List L :=
  code.filterMap fun
    | .label l => some l
    | _ => none

@[simp] theorem labels_nil : labels ([] : List (Inst L V B)) = [] := rfl

@[simp] theorem labels_append (is js : List (Inst L V B)) :
    labels (is ++ js) = labels is ++ labels js :=
  List.filterMap_append

/-- A label that is defined is found. -/
theorem findLabel_of_mem [DecidableEq L] {l : L} {prog : List (Inst L V B)}
    (h : .label l ∈ prog) : ∃ target, findLabel l prog = some target := by
  induction prog with
  | nil => cases h
  | cons i prog ih =>
    cases i with
    | label l' =>
      by_cases hl : l' = l
      · exact ⟨prog, by rw [findLabel, if_pos hl]⟩
      · rw [findLabel, if_neg hl]
        exact ih ((List.mem_cons.1 h).resolve_left fun heq => hl (Inst.label.inj heq).symm)
    | _ => exact ih ((List.mem_cons.1 h).resolve_left (by simp))

/-! ### Straight-line code -/

/-- One instruction that neither jumps nor executes a body. -/
def Inst.step [DecidableEq V] (s : Env × (V → ℕ)) : Inst L V B → Option (Env × (V → ℕ))
  | .load r v => some (Function.update s.1 r (s.2 v), s.2)
  | .store v x => some (s.1, Function.update s.2 v (x.eval s.1))
  | .iEqual r a b => some (Function.update s.1 r (word (a.eval s.1 = b.eval s.1)), s.2)
  | .iNotEqual r a b => some (Function.update s.1 r (word (a.eval s.1 ≠ b.eval s.1)), s.2)
  | .bitwiseOr r a b => some (Function.update s.1 r (a.eval s.1 ||| b.eval s.1), s.2)
  | .logicalNot r a => some (Function.update s.1 r (word (a.eval s.1 = 0)), s.2)
  | .select r c a b =>
    some (Function.update s.1 r (if c.eval s.1 ≠ 0 then a.eval s.1 else b.eval s.1), s.2)
  | .selectionMerge _ => some s
  | .loopMerge _ _ => some s
  | _ => none

/-- A piece of straight-line code. -/
def evalOps [DecidableEq V] (is : List (Inst L V B)) (s : Env × (V → ℕ)) :
    Option (Env × (V → ℕ)) :=
  is.foldlM Inst.step s

@[simp] theorem evalOps_nil [DecidableEq V] (s : Env × (V → ℕ)) :
    evalOps ([] : List (Inst L V B)) s = some s := rfl

@[simp] theorem evalOps_cons [DecidableEq V] (i : Inst L V B) (is : List (Inst L V B))
    (s : Env × (V → ℕ)) : evalOps (i :: is) s = (i.step s).bind (evalOps is) := by
  unfold evalOps
  rw [List.foldlM_cons]
  rfl

theorem evalOps_append [DecidableEq V] {is js : List (Inst L V B)} {s s' : Env × (V → ℕ)}
    (h : evalOps is s = some s') : evalOps (is ++ js) s = evalOps js s' := by
  unfold evalOps at h ⊢
  rw [List.foldlM_append, h]
  rfl

/-! ### Configurations -/

/-- A configuration: remaining code, result ids, variables, and the part of the
state only bodies see. -/
structure Config (L V B : Type) (W : Type*) where
  rest : List (Inst L V B)
  env : Env
  vars : V → ℕ
  hidden : W

/-- One step between bodies. Code that runs into a label, and a jump to a label
that is not there, do not step. -/
def silent [DecidableEq L] [DecidableEq V] (prog : List (Inst L V B)) (c : Config L V B W) :
    Option (Config L V B W) :=
  match c.rest with
  | [] => none
  | i :: rest =>
    match i with
    | .branch l => (findLabel l prog).map fun r => { c with rest := r }
    | .branchConditional x t f =>
      (findLabel (if x.eval c.env ≠ 0 then t else f) prog).map fun r => { c with rest := r }
    | .switch x default cases =>
      (findLabel ((cases.lookup (x.eval c.env)).getD default) prog).map fun r =>
        { c with rest := r }
    | i => (i.step (c.env, c.vars)).map fun s => { c with rest := rest, env := s.1, vars := s.2 }

section Exec

variable [DecidableEq L] [DecidableEq V]

/-- Finitely many steps between bodies. -/
def Silent (prog : List (Inst L V B)) : Config L V B W → Config L V B W → Prop :=
  Relation.ReflTransGen fun c c' => silent prog c = some c'

/-- What a configuration executes. -/
inductive Exec (prog : List (Inst L V B)) (effect : B → (V → ℕ) × W → (V → ℕ) × W → Prop) :
    Config L V B W → List B → Bool → Prop
  /-- Any configuration has executed nothing so far. -/
  | running (c) : Exec prog effect c [] false
  /-- A configuration that gets to a return has ended. -/
  | returned {c d rest} : Silent prog c d → d.rest = .ret :: rest → Exec prog effect c [] true
  /-- A configuration that gets to a body executes it. -/
  | body {c d b rest m tr fin} : Silent prog c d → d.rest = .body b :: rest →
      effect b (d.vars, d.hidden) m → Exec prog effect ⟨rest, d.env, m.1, m.2⟩ tr fin →
      Exec prog effect c (b :: tr) fin

variable {prog : List (Inst L V B)} {effect : B → (V → ℕ) × W → (V → ℕ) × W → Prop}

theorem Silent.refl (c : Config L V B W) : Silent prog c c := Relation.ReflTransGen.refl

theorem Silent.trans {c d e : Config L V B W} (h : Silent prog c d) (h' : Silent prog d e) :
    Silent prog c e := Relation.ReflTransGen.trans h h'

theorem Silent.head {c d e : Config L V B W} (h : silent prog c = some d)
    (h' : Silent prog d e) : Silent prog c e := Relation.ReflTransGen.head h h'

/-- A straight-line instruction is none of the jumps. -/
theorem silent_of_step {i : Inst L V B} {rest : List (Inst L V B)} {env : Env} {vars : V → ℕ}
    {w : W} {s : Env × (V → ℕ)} (h : i.step (env, vars) = some s) :
    silent prog (⟨i :: rest, env, vars, w⟩ : Config L V B W) = some ⟨rest, s.1, s.2, w⟩ := by
  cases i <;> first
    | cases h; done
    | simp only [silent, h, Option.map_some]

/-- Straight-line code runs to its end. -/
theorem Silent.ops {is rest : List (Inst L V B)} {env env' : Env} {vars vars' : V → ℕ} {w : W}
    (h : evalOps is (env, vars) = some (env', vars')) :
    Silent prog ⟨is ++ rest, env, vars, w⟩ ⟨rest, env', vars', w⟩ := by
  induction is generalizing env vars with
  | nil => cases h; exact .refl _
  | cons i is ih =>
    rw [evalOps_cons, Option.bind_eq_some_iff] at h
    obtain ⟨⟨env₁, vars₁⟩, hi, h⟩ := h
    exact Silent.head (silent_of_step hi) (ih h)

/-- A jump goes to its label. -/
theorem Silent.branch {l : L} {rest target : List (Inst L V B)} {env : Env} {vars : V → ℕ}
    {w : W} (h : findLabel l prog = some target) :
    Silent prog ⟨.branch l :: rest, env, vars, w⟩ ⟨target, env, vars, w⟩ :=
  .head (by simp [silent, h]) (.refl _)

/-- A conditional jump goes to the label its condition selects. -/
theorem Silent.branchConditional {x : Operand} {t f : L} {rest target : List (Inst L V B)}
    {env : Env} {vars : V → ℕ} {w : W}
    (h : findLabel (if x.eval env ≠ 0 then t else f) prog = some target) :
    Silent prog ⟨.branchConditional x t f :: rest, env, vars, w⟩ ⟨target, env, vars, w⟩ := by
  refine .head ?_ (.refl _)
  simp only [silent]
  rw [h]
  rfl

/-- A switch goes to the label of the case its selector picks. -/
theorem Silent.switch {x : Operand} {default : L} {cases : List (ℕ × L)}
    {rest target : List (Inst L V B)} {env : Env} {vars : V → ℕ} {w : W}
    (h : findLabel ((cases.lookup (x.eval env)).getD default) prog = some target) :
    Silent prog ⟨.switch x default cases :: rest, env, vars, w⟩ ⟨target, env, vars, w⟩ :=
  .head (by simp [silent, h]) (.refl _)

/-- The configuration stands at a body or at a return. -/
def Stops (c : Config L V B W) : Prop :=
  (∃ b rest, c.rest = .body b :: rest) ∨ ∃ rest, c.rest = .ret :: rest

theorem silent_of_stops {c : Config L V B W} (h : Stops c) : silent prog c = none := by
  rcases h with ⟨b, rest, h⟩ | ⟨rest, h⟩ <;> simp [silent, h, Inst.step]

/-- **Determinism.** There is at most one place where a configuration stops. -/
theorem Silent.unique {c d d' : Config L V B W} (h : Silent prog c d) (h' : Silent prog c d')
    (hd : Stops d) (hd' : Stops d') : d = d' := by
  induction h using Relation.ReflTransGen.head_induction_on with
  | refl =>
    rcases Relation.ReflTransGen.cases_head h' with rfl | ⟨e, he, -⟩
    · rfl
    · rw [silent_of_stops hd] at he; cases he
  | head hstep _ ih =>
    rcases Relation.ReflTransGen.cases_head h' with rfl | ⟨e, he, hrest⟩
    · rw [silent_of_stops hd'] at hstep; cases hstep
    · rw [hstep] at he; cases he; exact ih hrest

/-- A configuration that gets to a body executes exactly what follows it. -/
theorem exec_body_iff {c : Config L V B W} {b : B} {rest : List (Inst L V B)} {env : Env}
    {vars : V → ℕ} {w : W} (h : Silent prog c ⟨.body b :: rest, env, vars, w⟩)
    {tr : List B} {fin : Bool} :
    Exec prog effect c tr fin ↔ tr = [] ∧ fin = false ∨
      ∃ m tr', effect b (vars, w) m ∧ tr = b :: tr' ∧
        Exec prog effect ⟨rest, env, m.1, m.2⟩ tr' fin := by
  have hstops : Stops (⟨.body b :: rest, env, vars, w⟩ : Config L V B W) := .inl ⟨b, rest, rfl⟩
  constructor
  · rintro (_ | ⟨hd, hret⟩ | ⟨hd, hbody, heff, hrest⟩)
    · exact .inl ⟨rfl, rfl⟩
    · have := hd.unique h (.inr ⟨_, hret⟩) hstops
      subst this; cases hret
    · have := hd.unique h (.inl ⟨_, _, hbody⟩) hstops
      subst this; cases hbody
      exact .inr ⟨_, _, heff, rfl, hrest⟩
  · rintro (⟨rfl, rfl⟩ | ⟨m, tr', heff, rfl, hrest⟩)
    · exact .running c
    · exact .body h rfl heff hrest

/-- A configuration that gets to a return executes nothing more. -/
theorem exec_ret_iff {c : Config L V B W} {rest : List (Inst L V B)} {env : Env} {vars : V → ℕ}
    {w : W} (h : Silent prog c ⟨.ret :: rest, env, vars, w⟩) {tr : List B} {fin : Bool} :
    Exec prog effect c tr fin ↔ tr = [] := by
  have hstops : Stops (⟨.ret :: rest, env, vars, w⟩ : Config L V B W) := .inr ⟨rest, rfl⟩
  constructor
  · rintro (_ | ⟨-, -⟩ | ⟨hd, hbody, -, -⟩)
    · rfl
    · rfl
    · have := hd.unique h (.inl ⟨_, _, hbody⟩) hstops
      subst this; cases hbody
  · rintro rfl
    cases fin with
    | false => exact .running c
    | true => exact .returned h rfl

/-! ### Evaluating an execution -/

/-- At most `n` steps between bodies. -/
def advance (prog : List (Inst L V B)) : ℕ → Config L V B W → Config L V B W
  | 0, c => c
  | n + 1, c =>
    match silent prog c with
    | some d => advance prog n d
    | none => c

theorem Silent.advance (n : ℕ) (c : Config L V B W) : Silent prog c (advance prog n c) := by
  induction n generalizing c with
  | zero => exact .refl _
  | succ n ih =>
    unfold Spirv.advance
    split
    · next h => exact .head h (ih _)
    · exact .refl _

/-- The bodies executed when no body changes anything, if the function returns after
at most `k` of them with at most `n` steps between two. -/
def idleTrace (prog : List (Inst L V B)) (n : ℕ) : ℕ → Config L V B W → Option (List B)
  | 0, _ => none
  | k + 1, c =>
    let d := advance prog n c
    match d.rest with
    | .body b :: rest => (idleTrace prog n k { d with rest := rest }).map (b :: ·)
    | .ret :: _ => some []
    | _ => none

/-- The evaluated trace is the only one. -/
theorem exec_idle_iff (hidle : ∀ b m m', effect b m m' ↔ m' = m) {n k : ℕ}
    {c : Config L V B W} {tr tr' : List B} (h : idleTrace prog n k c = some tr) :
    Exec prog effect c tr' true ↔ tr' = tr := by
  induction k generalizing c tr tr' with
  | zero => cases h
  | succ k ih =>
    have hrun : Silent prog c (advance prog n c) := .advance n c
    unfold idleTrace at h
    generalize advance prog n c = d at h hrun
    obtain ⟨rest, env, vars, w⟩ := d
    cases rest with
    | nil => cases h
    | cons i rest =>
      cases i with
      | body b =>
        obtain ⟨tr₁, htr₁, rfl⟩ := Option.map_eq_some_iff.1 h
        rw [exec_body_iff hrun]
        constructor
        · rintro (⟨-, hfin⟩ | ⟨m, tr₂, heff, rfl, hexec⟩)
          · cases hfin
          · rw [hidle] at heff
            subst heff
            rw [(ih htr₁).1 hexec]
        · rintro rfl
          exact .inr ⟨(vars, w), tr₁, (hidle b _ _).2 rfl, rfl, (ih htr₁).2 rfl⟩
      | ret =>
        cases h
        exact exec_ret_iff hrun
      | _ => cases h

end Exec

end Prosperismo.Spirv
