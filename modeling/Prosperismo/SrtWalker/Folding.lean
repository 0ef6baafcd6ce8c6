import Mathlib.Data.Finset.Card
import Mathlib.Data.Finset.Range
import Prosperismo.SrtWalker.Model

/-!
# Folding and evaluation

A value is constant when it is computed from constants (`Const`); this does not mention the states
of either recursion. What the folder keeps is constant, in every state that calls of `Fold` can
leave (`fold_sound`). A new evaluator evaluates what is constant, whatever the runtime is: a value
that it has in progress is computed in more steps than the one it evaluates, so that it meets no
cycle (`evaluate_const`). -/

namespace Prosperismo.SrtWalker

open Prosperismo.ResourceTracking (ScalarValueOp scalarValueArgCount)

variable (values : List ScalarValue)

/-! ### Constants -/

/-- A value is computed from constants in some steps. -/
def ConstIn : ℕ → ℕ → BitVec 32 → Prop
  | 0, _, _ => False
  | n + 1, id, c => ∃ value, values[id]? = some value ∧
      (value.op = .constant ∧ value.imm = c ∨
        value.op = .phi ∧ value.phiArgs ≠ [] ∧ (∀ arg ∈ value.phiArgs, ConstIn n arg c) ∨
        (value.op ≠ .constant ∧ value.op ≠ .phi ∧ value.op ≠ .readConst ∧
          scalarValueArgCount value.op ≠ 0 ∧ scalarValueArgCount value.op ≤ 3) ∧
          ∃ cs, List.Forall₂ (ConstIn n) value.operands cs ∧ applyOperation value.op cs = some c)

/-- **A constant.** -/
def Const (id : ℕ) (c : BitVec 32) : Prop := ∃ n, ConstIn values n id c

variable {values} {n m id : ℕ} {c c' : BitVec 32} {memos memos' : Memos}

theorem ConstIn.succ : ∀ {n id c}, ConstIn values n id c → ConstIn values (n + 1) id c
  | 0, _, _, h => h.elim
  | n + 1, _, _, ⟨value, hvalue, h⟩ => by
    refine ⟨value, hvalue, ?_⟩
    rcases h with h | ⟨hop, hne, hargs⟩ | ⟨hop, cs, hcs, hc⟩
    · exact .inl h
    · exact .inr (.inl ⟨hop, hne, fun arg hmem => (hargs arg hmem).succ⟩)
    · exact .inr (.inr ⟨hop, cs, hcs.imp fun _ _ h => h.succ, hc⟩)

theorem ConstIn.mono (h : ConstIn values n id c) (hle : n ≤ m) : ConstIn values m id c := by
  induction hle with
  | refl => exact h
  | step _ ih => exact ih.succ

/-- A constant has one value. -/
theorem ConstIn.unique : ∀ {n id c c'}, ConstIn values n id c → ConstIn values n id c' → c = c'
  | 0, _, _, _, h, _ => h.elim
  | n + 1, id, c, c', ⟨value, hvalue, h⟩, ⟨value', hvalue', h'⟩ => by
    rw [hvalue, Option.some.injEq] at hvalue'
    subst hvalue'
    rcases h with ⟨hop, rfl⟩ | ⟨hop, hne, hargs⟩ | ⟨hop, cs, hcs, hc⟩
    · rcases h' with ⟨-, rfl⟩ | ⟨hop', -⟩ | ⟨hop', -⟩
      · rfl
      · rw [hop] at hop'
        cases hop'
      · exact absurd hop hop'.1
    · rcases h' with ⟨hop', -⟩ | ⟨-, -, hargs'⟩ | ⟨hop', -⟩
      · rw [hop] at hop'
        cases hop'
      · obtain ⟨arg, hmem⟩ := List.exists_mem_of_ne_nil _ hne
        exact (hargs arg hmem).unique (hargs' arg hmem)
      · exact absurd hop hop'.2.1
    · rcases h' with ⟨hop', -⟩ | ⟨hop', -⟩ | ⟨-, cs', hcs', hc'⟩
      · exact absurd hop' hop.1
      · exact absurd hop' hop.2.1
      · have heq : cs = cs' := List.right_unique_forall₂' (fun _ _ _ h h' => h.unique h') hcs hcs'
        rw [heq, hc', Option.some.injEq] at hc
        exact hc.symm

theorem Const.unique : Const values id c → Const values id c' → c = c'
  | ⟨n, h⟩, ⟨m, h'⟩ => (h.mono (le_max_left n m)).unique (h'.mono (le_max_right n m))

/-! ### The states -/

/-- Values that are not looked at yet. -/
def freshCount (values : List ScalarValue) (memos : Memos) : ℕ :=
  ((Finset.range values.length).filter fun id => memos id = .fresh).card

/-- A value that is in progress, or has failed. -/
def Stuck (memos : Memos) (id : ℕ) : Prop := memos id = .busy ∨ memos id = .dynamic

/-- States that came later: nothing is fresh again. -/
def Later (memos memos' : Memos) : Prop := ∀ id, memos' id = .fresh → memos id = .fresh

theorem Later.refl (memos : Memos) : Later memos memos := fun _ h => h

theorem Later.trans {memos'' : Memos} (h : Later memos memos') (h' : Later memos' memos'') :
    Later memos memos'' := fun id hid => h id (h' id hid)

theorem Later.update (h : Later memos memos') {memo : Memo} (hmemo : memo ≠ .fresh) :
    Later memos (Function.update memos' id memo) := by
  intro other hother
  by_cases heq : other = id
  · rw [heq, Function.update_self] at hother
    exact absurd hother hmemo
  · rw [Function.update_of_ne heq] at hother
    exact h other hother

theorem Later.fresh_subset (h : Later memos memos') :
    (Finset.range values.length).filter (fun id => memos' id = .fresh) ⊆
      (Finset.range values.length).filter (fun id => memos id = .fresh) := by
  intro id hid
  rw [Finset.mem_filter] at hid ⊢
  exact ⟨hid.1, h id hid.2⟩

theorem Later.freshCount_le (h : Later memos memos') :
    freshCount values memos' ≤ freshCount values memos :=
  Finset.card_le_card h.fresh_subset

theorem freshCount_lt (memos : Memos) : freshCount values memos < values.length + 1 := by
  refine Nat.lt_succ_of_le (le_trans (Finset.card_filter_le _ _) ?_)
  rw [Finset.card_range]

/-- A value that is looked at is not fresh any more. -/
theorem freshCount_update {memo : Memo} (hfresh : memos id = .fresh) (hlt : id < values.length)
    (hmemo : memo ≠ .fresh) :
    freshCount values (Function.update memos id memo) < freshCount values memos := by
  refine Finset.card_lt_card (Finset.ssubset_iff_subset_ne.mpr
    ⟨((Later.refl memos).update hmemo).fresh_subset, fun heq => ?_⟩)
  have hmem : id ∈ (Finset.range values.length).filter fun id => memos id = .fresh :=
    Finset.mem_filter.mpr ⟨Finset.mem_range.mpr hlt, hfresh⟩
  rw [← heq, Finset.mem_filter, Function.update_self] at hmem
  exact hmemo hmem.2

/-! ### Folding -/

/-- What is kept is constant. -/
def Sound (values : List ScalarValue) (memos : Memos) : Prop :=
  ∀ id c, memos id = .done c → Const values id c

theorem Sound.update (h : Sound values memos) {memo : Memo}
    (hmemo : ∀ c, memo = .done c → Const values id c) :
    Sound values (Function.update memos id memo) := by
  intro other c hother
  by_cases heq : other = id
  · rw [heq, Function.update_self] at hother
    rw [heq]
    exact hmemo c hother
  · rw [Function.update_of_ne heq] at hother
    exact h other c hother

/-- A step of the folder returns, with states that came later and are sound, and a value that is
right if there is one. -/
def Folds {α : Type} (values : List ScalarValue) (memos : Memos) (right : α → Prop)
    (outcome : Outcome α) : Prop :=
  ∃ r memos', outcome = some (r, memos') ∧ Later memos memos' ∧ Sound values memos' ∧
    ∀ a, r = some a → right a

theorem Folds.fail {α : Type} {right : α → Prop} (h : Sound values memos) :
    Folds values memos right (some (none, memos)) :=
  ⟨none, memos, rfl, .refl memos, h, fun a ha => by cases ha⟩

/-- A fold of arguments that are in fuel. -/
def FoldsArgs (values : List ScalarValue) (fuel : ℕ) (foldArg : Memos → ℕ → Outcome (BitVec 32)) :
    Prop :=
  ∀ memos id, Sound values memos → freshCount values memos < fuel →
    Folds values memos (Const values id) (foldArg memos id)

variable {fuel : ℕ} {foldArg : Memos → ℕ → Outcome (BitVec 32)}

theorem FoldsArgs.allValues (h : FoldsArgs values fuel foldArg) : ∀ (ids : List ℕ) (memos : Memos),
    Sound values memos → freshCount values memos < fuel →
    Folds values memos (List.Forall₂ (Const values) ids) (allValues foldArg ids memos)
  | [], memos, hsound, _ => ⟨some [], memos, rfl, .refl memos, hsound, fun a ha => by
      cases ha
      exact .nil⟩
  | id :: ids, memos, hsound, hfuel => by
    obtain ⟨r, memos₁, hfirst, hlater, hsound₁, hright⟩ := h memos id hsound hfuel
    unfold SrtWalker.allValues
    rw [hfirst]
    cases r with
    | none => exact ⟨none, memos₁, rfl, hlater, hsound₁, fun a ha => by cases ha⟩
    | some c =>
      obtain ⟨r, memos₂, hrest, hlater₂, hsound₂, hright₂⟩ :=
        h.allValues ids memos₁ hsound₁ (lt_of_le_of_lt hlater.freshCount_le hfuel)
      dsimp only
      rw [hrest]
      cases r with
      | none => exact ⟨none, memos₂, rfl, hlater.trans hlater₂, hsound₂, fun a ha => by cases ha⟩
      | some cs =>
        refine ⟨some (c :: cs), memos₂, rfl, hlater.trans hlater₂, hsound₂, fun a ha => ?_⟩
        cases ha
        exact .cons (hright c rfl) (hright₂ cs rfl)

theorem FoldsArgs.sameValues (h : FoldsArgs values fuel foldArg) (out : BitVec 32) :
    ∀ (ids : List ℕ) (memos : Memos), Sound values memos → freshCount values memos < fuel →
    Folds values memos (fun c => c = out ∧ ∀ id ∈ ids, Const values id out)
      (sameValues foldArg out ids memos)
  | [], memos, hsound, _ => ⟨some out, memos, rfl, .refl memos, hsound, fun a ha => by
      cases ha
      exact ⟨rfl, List.forall_mem_nil _⟩⟩
  | id :: ids, memos, hsound, hfuel => by
    obtain ⟨r, memos₁, hfirst, hlater, hsound₁, hright⟩ := h memos id hsound hfuel
    unfold SrtWalker.sameValues
    rw [hfirst]
    cases r with
    | none => exact ⟨none, memos₁, rfl, hlater, hsound₁, fun a ha => by cases ha⟩
    | some other =>
      dsimp only
      by_cases hne : other ≠ out
      · rw [if_pos hne]
        exact ⟨none, memos₁, rfl, hlater, hsound₁, fun a ha => by cases ha⟩
      · rw [if_neg hne]
        obtain ⟨r, memos₂, hrest, hlater₂, hsound₂, hright₂⟩ :=
          h.sameValues out ids memos₁ hsound₁ (lt_of_le_of_lt hlater.freshCount_le hfuel)
        refine ⟨r, memos₂, hrest, hlater.trans hlater₂, hsound₂, fun a ha => ?_⟩
        obtain ⟨rfl, hall⟩ := hright₂ a ha
        exact ⟨rfl, List.forall_mem_cons.mpr ⟨not_not.mp hne ▸ hright other rfl, hall⟩⟩

/-- Constants of a list are constants in one number of steps. -/
theorem exists_constIn {ids : List ℕ} {cs : List (BitVec 32)}
    (h : List.Forall₂ (Const values) ids cs) : ∃ n, List.Forall₂ (ConstIn values n) ids cs := by
  induction h with
  | nil => exact ⟨0, .nil⟩
  | cons hhead _ ih =>
    obtain ⟨n, hn⟩ := hhead
    obtain ⟨m, hm⟩ := ih
    exact ⟨max n m, .cons (hn.mono (le_max_left n m))
      (hm.imp fun _ _ h => h.mono (le_max_right n m))⟩

theorem exists_constIn_all {ids : List ℕ} (h : ∀ id ∈ ids, Const values id c) :
    ∃ n, ∀ id ∈ ids, ConstIn values n id c := by
  induction ids with
  | nil => exact ⟨0, List.forall_mem_nil _⟩
  | cons id ids ih =>
    rw [List.forall_mem_cons] at h
    obtain ⟨n, hn⟩ := h.1
    obtain ⟨m, hm⟩ := ih h.2
    exact ⟨max n m, List.forall_mem_cons.mpr ⟨hn.mono (le_max_left n m),
      fun id hid => (hm id hid).mono (le_max_right n m)⟩⟩

/-- **A value is folded** to what it is computed to from the constants it is computed from. -/
theorem FoldsArgs.foldValue (h : FoldsArgs values fuel foldArg) {value : ScalarValue}
    (hvalue : values[id]? = some value) (hsound : Sound values memos)
    (hfuel : freshCount values memos < fuel) :
    Folds values memos (Const values id) (foldValue foldArg value memos) := by
  unfold SrtWalker.foldValue
  split
  · next hop =>
    refine ⟨_, memos, rfl, .refl memos, hsound, fun a ha => ?_⟩
    cases ha
    exact ⟨1, value, hvalue, .inl ⟨hop, rfl⟩⟩
  · next hop =>
    cases hargs : value.phiArgs with
    | nil => exact .fail hsound
    | cons first others =>
      obtain ⟨r, memos₁, hfirst, hlater, hsound₁, hright⟩ := h memos first hsound hfuel
      dsimp only
      rw [hfirst]
      cases r with
      | none => exact ⟨none, memos₁, rfl, hlater, hsound₁, fun a ha => by cases ha⟩
      | some out =>
        obtain ⟨r, memos₂, hrest, hlater₂, hsound₂, hright₂⟩ := h.sameValues out others memos₁
          hsound₁ (lt_of_le_of_lt hlater.freshCount_le hfuel)
        refine ⟨r, memos₂, hrest, hlater.trans hlater₂, hsound₂, fun a ha => ?_⟩
        obtain ⟨rfl, hall⟩ := hright₂ a ha
        have hboth : ∀ arg ∈ value.phiArgs, Const values arg a := by
          rw [hargs]
          exact List.forall_mem_cons.mpr ⟨hright a rfl, hall⟩
        obtain ⟨n, hn⟩ := exists_constIn_all hboth
        exact ⟨n + 1, value, hvalue, .inr (.inl ⟨hop, by rw [hargs]; simp, hn⟩)⟩
  · next hconstant hphi =>
    dsimp only
    split
    · exact .fail hsound
    · next hcount =>
      rw [not_or, not_or, not_lt] at hcount
      obtain ⟨r, memos₁, hargs, hlater, hsound₁, hright⟩ :=
        h.allValues value.operands memos hsound hfuel
      rw [hargs]
      cases r with
      | none => exact ⟨none, memos₁, rfl, hlater, hsound₁, fun a ha => by cases ha⟩
      | some cs =>
        refine ⟨_, memos₁, rfl, hlater, hsound₁, fun a ha => ?_⟩
        obtain ⟨n, hn⟩ := exists_constIn (hright cs rfl)
        exact ⟨n + 1, value, hvalue,
          .inr (.inr ⟨⟨hconstant, hphi, hcount.2.2, hcount.1, hcount.2.1⟩, cs, hn, ha⟩)⟩

/-- **`Fold`** returns, and what it returns and keeps is constant. -/
theorem fold_folds : ∀ fuel, FoldsArgs values fuel (fold values fuel)
  | 0, _, _, _, hfuel => absurd hfuel (Nat.not_lt_zero _)
  | fuel + 1, memos, id, hsound, hfuel => by
    rw [fold]
    cases hvalue : values[id]? with
    | none => exact .fail hsound
    | some value =>
      dsimp only
      cases hmemo : memos id with
      | busy => exact .fail hsound
      | dynamic => exact .fail hsound
      | done c =>
        refine ⟨some c, memos, rfl, .refl memos, hsound, fun a ha => ?_⟩
        cases ha
        exact hsound id c hmemo
      | fresh =>
        have hlt : id < values.length := (List.getElem?_eq_some_iff.mp hvalue).1
        have hless : freshCount values (Function.update memos id .busy) < freshCount values memos :=
          freshCount_update hmemo hlt (by simp)
        have hbusy : Sound values (Function.update memos id .busy) :=
          hsound.update (fun c hc => by cases hc)
        obtain ⟨r, memos', hout, hlater, hsound', hright⟩ :=
          (fold_folds fuel).foldValue hvalue hbusy (by omega)
        have hlater' : Later memos memos' :=
          ((Later.refl memos).update (by simp)).trans hlater
        dsimp only
        rw [hout]
        cases r with
        | none =>
          refine ⟨none, _, rfl, hlater'.update (by simp), hsound'.update (fun c hc => by cases hc),
            fun a ha => by cases ha⟩
        | some out =>
          refine ⟨some out, _, rfl, hlater'.update (by simp), hsound'.update (fun c hc => ?_),
            fun a ha => ?_⟩
          · cases hc
            exact hright out rfl
          · cases ha
            exact hright out rfl

/-! ### Evaluation -/

/-- States of an evaluator that is about to evaluate constants of some steps: what is kept of
constants is right, and what is in progress takes more steps. -/
structure Ready (values : List ScalarValue) (n : ℕ) (memos : Memos) : Prop where
  right : ∀ id c d, memos id = .done c → Const values id d → c = d
  stuck : ∀ id c, Stuck memos id → ¬ ConstIn values n id c

/-- A step of the evaluator gives a value, with states that came later, keep right values, and have
nothing more in progress. -/
def Evaluates {α : Type} (values : List ScalarValue) (n : ℕ) (memos : Memos) (a : α)
    (outcome : Outcome α) : Prop :=
  ∃ memos', outcome = some (some a, memos') ∧ Later memos memos' ∧ Ready values n memos' ∧
    ∀ id, Stuck memos' id → Stuck memos id

/-- An evaluation of arguments that are constants of some steps. -/
def EvaluatesArgs (values : List ScalarValue) (n fuel : ℕ)
    (evaluateArg : Memos → ℕ → Outcome (BitVec 32)) : Prop :=
  ∀ memos id c, Ready values n memos → ConstIn values n id c → freshCount values memos < fuel →
    Evaluates values n memos c (evaluateArg memos id)

variable {evaluateArg : Memos → ℕ → Outcome (BitVec 32)}

theorem EvaluatesArgs.allValues (h : EvaluatesArgs values n fuel evaluateArg) {ids : List ℕ}
    {cs : List (BitVec 32)} (hconst : List.Forall₂ (ConstIn values n) ids cs) :
    ∀ memos, Ready values n memos → freshCount values memos < fuel →
      Evaluates values n memos cs (allValues evaluateArg ids memos) := by
  induction hconst with
  | nil => exact fun memos hready _ => ⟨memos, rfl, .refl memos, hready, fun _ hid => hid⟩
  | @cons id c ids cs hhead _ ih =>
    intro memos hready hfuel
    obtain ⟨memos₁, hfirst, hlater, hready₁, hstuck⟩ := h memos id c hready hhead hfuel
    obtain ⟨memos₂, hrest, hlater₂, hready₂, hstuck₂⟩ :=
      ih memos₁ hready₁ (lt_of_le_of_lt hlater.freshCount_le hfuel)
    refine ⟨memos₂, ?_, hlater.trans hlater₂, hready₂, fun id hid => hstuck id (hstuck₂ id hid)⟩
    unfold SrtWalker.allValues
    rw [hfirst]
    dsimp only
    rw [hrest]

theorem EvaluatesArgs.sameValues (h : EvaluatesArgs values n fuel evaluateArg) {out : BitVec 32} :
    ∀ (ids : List ℕ) (memos : Memos), (∀ id ∈ ids, ConstIn values n id out) →
      Ready values n memos → freshCount values memos < fuel →
      Evaluates values n memos out (sameValues evaluateArg out ids memos)
  | [], memos, _, hready, _ => ⟨memos, rfl, .refl memos, hready, fun _ hid => hid⟩
  | id :: ids, memos, hconst, hready, hfuel => by
    rw [List.forall_mem_cons] at hconst
    obtain ⟨memos₁, hfirst, hlater, hready₁, hstuck⟩ := h memos id out hready hconst.1 hfuel
    obtain ⟨memos₂, hrest, hlater₂, hready₂, hstuck₂⟩ :=
      h.sameValues ids memos₁ hconst.2 hready₁ (lt_of_le_of_lt hlater.freshCount_le hfuel)
    refine ⟨memos₂, ?_, hlater.trans hlater₂, hready₂, fun id hid => hstuck id (hstuck₂ id hid)⟩
    unfold SrtWalker.sameValues
    rw [hfirst]
    dsimp only
    rw [if_neg (not_not.mpr rfl), hrest]

/-- Operations that are folded are evaluated as operations. -/
theorem evaluateValue_operation {runtime : Runtime} {value : ScalarValue}
    (hconstant : value.op ≠ .constant) (hphi : value.op ≠ .phi) (hread : value.op ≠ .readConst)
    (hsome : scalarValueArgCount value.op ≠ 0) (hfew : scalarValueArgCount value.op ≤ 3) :
    evaluateValue runtime evaluateArg id value memos =
      applyTo value.op (allValues evaluateArg value.operands memos) := by
  have hcount : ¬ (scalarValueArgCount value.op = 0 ∨ 3 < scalarValueArgCount value.op) := by omega
  unfold evaluateValue
  split
  · next hop => exact absurd (by rw [hop]; rfl) hsome
  · next hop => exact absurd hop hconstant
  · next hop => exact absurd (by rw [hop]; rfl) hsome
  · next hop => exact absurd (by rw [hop]; rfl) hsome
  · next hop => exact absurd hop hphi
  · next hop => exact absurd hop hread
  · next hop => exact absurd (hop ▸ hfew) (by decide)
  · next hop => exact absurd (by rw [hop]; rfl) hsome
  · next hop => exact absurd (by rw [hop]; rfl) hsome
  · exact if_neg hcount

/-- **A constant is evaluated** to its value. -/
theorem evaluateValue_const {runtime : Runtime} (h : EvaluatesArgs values n fuel evaluateArg)
    {value : ScalarValue} (hvalue : values[id]? = some value) (hconst : ConstIn values (n + 1) id c)
    (hnew : ¬ ConstIn values n id c) (hready : Ready values n memos)
    (hfuel : freshCount values memos < fuel) :
    Evaluates values n memos c (evaluateValue runtime evaluateArg id value memos) := by
  obtain ⟨value', hvalue', hcases⟩ := hconst
  rw [hvalue, Option.some.injEq] at hvalue'
  subst hvalue'
  rcases hcases with ⟨hop, rfl⟩ | ⟨hop, hne, hargs⟩ |
    ⟨⟨hconstant, hphi, hread, hsome, hfew⟩, cs, hcs, hc⟩
  · refine ⟨memos, ?_, .refl memos, hready, fun _ hid => hid⟩
    unfold evaluateValue
    rw [hop]
  · -- no argument is the phi itself, which takes more steps
    have hself : ∀ arg ∈ value.phiArgs, arg ≠ id := by
      rintro arg hmem rfl
      exact hnew (hargs arg hmem)
    obtain ⟨first, others, hphi⟩ := List.exists_cons_of_ne_nil hne
    have hfind : value.phiArgs.find? (· ≠ id) = some first := by
      rw [hphi, List.find?_cons_of_pos]
      simpa using hself first (by rw [hphi]; exact List.mem_cons_self ..)
    obtain ⟨memos₁, hfirst, hlater, hready₁, hstuck⟩ :=
      h memos first c hready (hargs first (by rw [hphi]; exact List.mem_cons_self ..)) hfuel
    obtain ⟨memos₂, hrest, hlater₂, hready₂, hstuck₂⟩ :=
      h.sameValues (value.phiArgs.filter fun arg => arg ≠ id ∧ arg ≠ first) memos₁
        (fun arg hmem => hargs arg (List.mem_filter.mp hmem).1) hready₁
        (lt_of_le_of_lt hlater.freshCount_le hfuel)
    refine ⟨memos₂, ?_, hlater.trans hlater₂, hready₂, fun id hid => hstuck id (hstuck₂ id hid)⟩
    unfold evaluateValue
    rw [hop]
    dsimp only
    rw [hfind]
    dsimp only
    rw [hfirst]
    exact hrest
  · obtain ⟨memos₁, hall, hlater, hready₁, hstuck⟩ := h.allValues hcs memos hready hfuel
    refine ⟨memos₁, ?_, hlater, hready₁, hstuck⟩
    rw [evaluateValue_operation hconstant hphi hread hsome hfew, hall]
    exact congrArg (fun r => some (r, memos₁)) hc

/-- **`Evaluate`** gives the value of a constant. -/
theorem evaluate_const (runtime : Runtime) : ∀ n fuel,
    EvaluatesArgs values n fuel (evaluate values runtime fuel)
  | 0, _, _, _, _, _, hconst, _ => hconst.elim
  | _ + 1, 0, _, _, _, _, _, hfuel => absurd hfuel (Nat.not_lt_zero _)
  | n + 1, fuel + 1, memos, id, c, hready, hconst, hfuel => by
    have hlower : Ready values n memos :=
      ⟨hready.right, fun id c hid hc => hready.stuck id c hid hc.succ⟩
    by_cases hfewer : ConstIn values n id c
    · -- it takes fewer steps, and what is in progress has not become more
      obtain ⟨memos', hout, hlater, hready', hstuck⟩ :=
        evaluate_const runtime n (fuel + 1) memos id c hlower hfewer hfuel
      exact ⟨memos', hout, hlater,
        ⟨hready'.right, fun id c hid => hready.stuck id c (hstuck id hid)⟩, hstuck⟩
    have hcases := hconst
    obtain ⟨value, hvalue, -⟩ := hcases
    rw [evaluate, hvalue]
    dsimp only
    cases hmemo : memos id with
    | busy => exact absurd hconst (hready.stuck id c (.inl hmemo))
    | dynamic => exact absurd hconst (hready.stuck id c (.inr hmemo))
    | done d =>
      rw [hready.right id d c hmemo ⟨n + 1, hconst⟩]
      exact ⟨memos, rfl, .refl memos, hready, fun _ hid => hid⟩
    | fresh =>
      have hlt : id < values.length := (List.getElem?_eq_some_iff.mp hvalue).1
      have hless : freshCount values (Function.update memos id .busy) < freshCount values memos :=
        freshCount_update hmemo hlt (by simp)
      have hbusy : Ready values n (Function.update memos id .busy) := by
        refine ⟨fun other d d' hother hd' => ?_, fun other d hother hd => ?_⟩
        · by_cases heq : other = id
          · rw [heq, Function.update_self] at hother
            cases hother
          · rw [Function.update_of_ne heq] at hother
            exact hready.right other d d' hother hd'
        · by_cases heq : other = id
          · subst heq
            exact hfewer (hd.succ.unique hconst ▸ hd)
          · unfold Stuck at hother
            rw [Function.update_of_ne heq] at hother
            exact hlower.stuck other d hother hd
      obtain ⟨memos', hout, hlater, hready', hstuck⟩ :=
        evaluateValue_const (evaluate_const runtime n fuel) hvalue hconst
          hfewer hbusy (by omega)
      have hlater' : Later memos memos' := ((Later.refl memos).update (by simp)).trans hlater
      have hstuck' : ∀ other, Stuck (Function.update memos' id (.done c)) other →
          Stuck memos other := by
        intro other hother
        by_cases heq : other = id
        · rw [heq] at hother
          simp [Stuck] at hother
        · unfold Stuck at hother
          rw [Function.update_of_ne heq] at hother
          have := hstuck other hother
          unfold Stuck at this
          rwa [Function.update_of_ne heq] at this
      rw [hout]
      refine ⟨_, rfl, hlater'.update (by simp), ⟨fun other d d' hother hd' => ?_,
        fun other d hother => hready.stuck other d (hstuck' other hother)⟩, hstuck'⟩
      by_cases heq : other = id
      · rw [heq, Function.update_self] at hother
        cases hother
        exact Const.unique ⟨n + 1, hconst⟩ (heq ▸ hd')
      · rw [Function.update_of_ne heq] at hother
        exact hready'.right other d d' hother hd'

/-- Calls of `Fold` on one folder return, and leave sound states. -/
theorem foldCalls_sound : ∀ (calls : List ℕ) (memos : Memos), Sound values memos →
    ∃ memos', foldCalls values calls memos = some memos' ∧ Sound values memos'
  | [], memos, hsound => ⟨memos, rfl, hsound⟩
  | id :: calls, memos, hsound => by
    obtain ⟨r, memos₁, hfold, -, hsound₁, -⟩ :=
      fold_folds (values.length + 1) memos id hsound (freshCount_lt memos)
    obtain ⟨memos₂, hcalls, hsound₂⟩ := foldCalls_sound calls memos₁ hsound₁
    refine ⟨memos₂, ?_, hsound₂⟩
    rw [foldCalls, foldCall, hfold]
    exact hcalls

/-- **Constant folding agrees with evaluation.** Whatever was folded before on the same folder, a
call of `Fold` returns, and if it gives a value a new evaluator evaluates the id to it, with any
user data, shader base and memory. -/
theorem fold_evaluates (values : List ScalarValue) (calls : List ℕ) (id : ℕ) :
    ∃ folder, foldCalls values calls Memos.initial = some folder ∧
      ∃ result folder', foldCall values folder id = some (result, folder') ∧
        ∀ c, result = some c → ∀ runtime, ∃ memos,
          evaluateCall values runtime id = some (some c, memos) := by
  have hinitial : Sound values Memos.initial := fun id c h => by cases h
  obtain ⟨folder, hcalls, hsound⟩ := foldCalls_sound calls Memos.initial hinitial
  obtain ⟨result, folder', hfold, -, -, hright⟩ :=
    fold_folds (values.length + 1) folder id hsound (freshCount_lt folder)
  refine ⟨folder, hcalls, result, folder', hfold, fun c hc runtime => ?_⟩
  obtain ⟨n, hconst⟩ := hright c hc
  have hready : Ready values n Memos.initial :=
    { right := fun id c d h => by cases h
      stuck := fun id c h => by rcases h with h | h <;> cases h }
  obtain ⟨memos, hout, -⟩ := evaluate_const runtime n (values.length + 1) Memos.initial id c hready
    hconst (freshCount_lt Memos.initial)
  exact ⟨memos, hout⟩

end Prosperismo.SrtWalker
