import Mathlib.Algebra.BigOperators.Group.Finset.Basic
import Mathlib.Algebra.Order.BigOperators.Group.Finset
import Mathlib.Order.Basic
import Mathlib.Order.Monotone.Defs

/-!
# Solving flow equations by sweeps

Every node of a graph has a fact at its entry and one at its exit. The entry is the `meet` of the
exits of other nodes, and the exit is the entry, transferred through the node. The solver sweeps
over the nodes and replaces their facts, until a sweep changes nothing.

What it returns solves the equations (`solve_solved`). It returns when the facts that it starts with
are above what the equations ask for (`Above`), since every change then takes an entry down
(`solve_isSome`).
-/

namespace Prosperismo.Dataflow

variable {α : Type*}

/-- The facts at the entries and at the exits. -/
structure Facts (α : Type*) where
  entry : ℕ → α
  exit : ℕ → α

section Solver

variable [DecidableEq α] (meet : ℕ → (ℕ → α) → α) (transfer : ℕ → α → α)

/-- The facts of one node, computed again, and whether they have changed. -/
def visit (facts : Facts α) (node : ℕ) : Facts α × Bool :=
  let nextEntry := meet node facts.exit
  let nextExit := transfer node nextEntry
  if nextEntry ≠ facts.entry node ∨ nextExit ≠ facts.exit node then
    (⟨Function.update facts.entry node nextEntry, Function.update facts.exit node nextExit⟩, true)
  else (facts, false)

/-- One sweep. -/
def sweep : List ℕ → Facts α → Bool → Facts α × Bool
  | [], facts, changed => (facts, changed)
  | node :: nodes, facts, changed =>
    let visited := visit meet transfer facts node
    sweep nodes visited.1 (changed || visited.2)

/-- Sweeps, until one changes nothing. -/
def solve (nodes : List ℕ) : ℕ → Facts α → Option (Facts α)
  | 0, _ => none
  | fuel + 1, facts =>
    let swept := sweep meet transfer nodes facts false
    if swept.2 then solve nodes fuel swept.1 else some swept.1

/-- The equations of a node. -/
def Solved (facts : Facts α) (node : ℕ) : Prop :=
  facts.entry node = meet node facts.exit ∧ facts.exit node = transfer node (facts.entry node)

variable {meet transfer} {facts solution : Facts α} {nodes : List ℕ}

/-- A visit that changes nothing finds the equations of the node satisfied. -/
theorem solved_of_visit {node : ℕ} (h : (visit meet transfer facts node).2 = false) :
    (visit meet transfer facts node).1 = facts ∧ Solved meet transfer facts node := by
  unfold visit at h ⊢
  dsimp only at h ⊢
  by_cases hchanged : meet node facts.exit ≠ facts.entry node ∨
      transfer node (meet node facts.exit) ≠ facts.exit node
  · rw [if_pos hchanged] at h
    exact absurd h.symm Bool.false_ne_true
  · rw [if_neg hchanged]
    obtain ⟨hentry, hexit⟩ := not_or.1 hchanged
    rw [not_not] at hentry hexit
    exact ⟨rfl, hentry.symm, by rw [← hexit, hentry]⟩

/-- A sweep that is said to have changed something ends so. -/
theorem sweep_changed : (sweep meet transfer nodes facts true).2 = true := by
  induction nodes generalizing facts with
  | nil => rfl
  | cons node nodes ih => exact ih

/-- A sweep that changes nothing finds all equations satisfied. -/
theorem solved_of_sweep (h : (sweep meet transfer nodes facts false).2 = false) :
    (sweep meet transfer nodes facts false).1 = facts ∧
      ∀ node ∈ nodes, Solved meet transfer facts node := by
  induction nodes with
  | nil => exact ⟨rfl, List.forall_mem_nil _⟩
  | cons node nodes ih =>
    unfold sweep at h ⊢
    dsimp only at h ⊢
    rw [Bool.false_or] at h ⊢
    rcases hvisit : (visit meet transfer facts node).2 with _ | _
    · obtain ⟨hsame, hsolved⟩ := solved_of_visit hvisit
      rw [hsame, hvisit] at h
      rw [hsame]
      exact ⟨(ih h).1, List.forall_mem_cons.2 ⟨hsolved, (ih h).2⟩⟩
    · rw [hvisit, sweep_changed] at h
      exact absurd h.symm Bool.false_ne_true

/-- **A solution** satisfies the equations of all nodes. -/
theorem solve_solved {fuel : ℕ} (h : solve meet transfer nodes fuel facts = some solution) :
    ∀ node ∈ nodes, Solved meet transfer solution node := by
  induction fuel generalizing facts with
  | zero => cases h
  | succ fuel ih =>
    unfold solve at h
    dsimp only at h
    split at h
    · exact ih h
    · next hsettled =>
      obtain ⟨hsame, hall⟩ := solved_of_sweep (Bool.eq_false_iff.2 hsettled)
      rw [hsame] at h
      obtain rfl := Option.some.inj h
      exact hall

end Solver

/-! ### Termination -/

section Termination

variable [PartialOrder α] [DecidableEq α] {meet : ℕ → (ℕ → α) → α} {transfer : ℕ → α → α}
  {facts : Facts α} {nodes : List ℕ}

/-- The facts are above what the equations ask for. -/
def Above (meet : ℕ → (ℕ → α) → α) (transfer : ℕ → α → α) (nodes : List ℕ) (facts : Facts α) :
    Prop :=
  ∀ node ∈ nodes, meet node facts.exit ≤ facts.entry node ∧
    facts.exit node = transfer node (facts.entry node)

/-- What is left to go down. -/
def height (rank : α → ℕ) (nodes : List ℕ) (facts : Facts α) : ℕ :=
  ∑ node ∈ nodes.toFinset, rank (facts.entry node)

variable (hmeet : ∀ node, Monotone (meet node)) (htransfer : ∀ node, Monotone (transfer node))
  {rank : α → ℕ} (hrank : StrictMono rank)

include hmeet htransfer hrank

/-- A visit takes the facts of its node down, or changes nothing. -/
theorem visit_above {node : ℕ} (hnode : node ∈ nodes) (h : Above meet transfer nodes facts) :
    Above meet transfer nodes (visit meet transfer facts node).1 ∧
      height rank nodes (visit meet transfer facts node).1 ≤ height rank nodes facts ∧
      ((visit meet transfer facts node).2 = true →
        height rank nodes (visit meet transfer facts node).1 < height rank nodes facts) := by
  obtain ⟨hle, hexit⟩ := h node hnode
  unfold visit
  dsimp only
  by_cases hchanged : meet node facts.exit ≠ facts.entry node ∨
      transfer node (meet node facts.exit) ≠ facts.exit node
  · rw [if_pos hchanged]
    -- the exit follows the entry, so that it is the entry that has changed
    have hne : meet node facts.exit ≠ facts.entry node := by
      refine hchanged.elim id fun hne heq => hne ?_
      rw [heq, hexit]
    have hexits : Function.update facts.exit node (transfer node (meet node facts.exit)) ≤
        facts.exit := by
      rw [update_le_self_iff, hexit]
      exact htransfer node hle
    have hlt : height rank nodes ⟨Function.update facts.entry node (meet node facts.exit),
        Function.update facts.exit node (transfer node (meet node facts.exit))⟩ <
        height rank nodes facts := by
      refine Finset.sum_lt_sum (fun other _ => ?_) ⟨node, List.mem_toFinset.2 hnode, ?_⟩
      · dsimp only
        by_cases heq : other = node
        · subst heq
          rw [Function.update_self]
          exact hrank.monotone hle
        · rw [Function.update_of_ne heq]
      · dsimp only
        rw [Function.update_self]
        exact hrank (lt_of_le_of_ne hle hne)
    refine ⟨fun other hother => ?_, hlt.le, fun _ => hlt⟩
    have hdown := hmeet other hexits
    dsimp only
    by_cases heq : other = node
    · subst heq
      rw [Function.update_self, Function.update_self]
      exact ⟨hdown, rfl⟩
    · rw [Function.update_of_ne heq, Function.update_of_ne heq]
      exact ⟨hdown.trans (h other hother).1, (h other hother).2⟩
  · rw [if_neg hchanged]
    exact ⟨h, le_rfl, fun hchange => absurd hchange Bool.false_ne_true⟩

/-- A sweep takes the facts down, or changes nothing. -/
theorem sweep_above {rest : List ℕ} (hrest : ∀ node ∈ rest, node ∈ nodes)
    (changed : Bool) (h : Above meet transfer nodes facts) :
    Above meet transfer nodes (sweep meet transfer rest facts changed).1 ∧
      height rank nodes (sweep meet transfer rest facts changed).1 ≤ height rank nodes facts ∧
      (changed = false → (sweep meet transfer rest facts changed).2 = true →
        height rank nodes (sweep meet transfer rest facts changed).1 <
          height rank nodes facts) := by
  induction rest generalizing facts changed with
  | nil =>
    refine ⟨h, le_rfl, fun hfalse htrue => ?_⟩
    exact absurd (htrue.symm.trans hfalse).symm Bool.false_ne_true
  | cons node rest ih =>
    obtain ⟨hnode, hrest⟩ := List.forall_mem_cons.1 hrest
    obtain ⟨habove, hle, hlt⟩ := visit_above hmeet htransfer hrank hnode h
    obtain ⟨habove', hle', hlt'⟩ := ih hrest (changed || _) habove
    refine ⟨habove', hle'.trans hle, fun hfalse htrue => ?_⟩
    rcases hvisit : (visit meet transfer facts node).2 with _ | _
    · have hsame : (changed || (visit meet transfer facts node).2) = false := by
        rw [hfalse, hvisit]
        rfl
      exact (hlt' hsame htrue).trans_le hle
    · exact hle'.trans_lt (hlt hvisit)

/-- **The solver returns**, when the facts start above what the equations ask for. -/
theorem solve_isSome {fuel : ℕ} (hfuel : height rank nodes facts < fuel)
    (h : Above meet transfer nodes facts) : (solve meet transfer nodes fuel facts).isSome := by
  induction fuel generalizing facts with
  | zero => exact absurd hfuel (Nat.not_lt_zero _)
  | succ fuel ih =>
    obtain ⟨habove, -, hlt⟩ := sweep_above hmeet htransfer hrank
      (fun node hnode => hnode) false h
    unfold solve
    dsimp only
    split
    · next hchanged =>
      exact ih (lt_of_lt_of_le (hlt rfl hchanged) (Nat.le_of_lt_succ hfuel)) habove
    · rfl

end Termination

end Prosperismo.Dataflow
