import Mathlib.Data.Nat.Notation
import Mathlib.Data.List.Basic

/-!
# Walks through a flow graph

A flow graph gives each of its nodes, numbers here, what a walk does there: go on
silently (`forward`), go on with an event (`branch`), go on to the successor that the
next outcome picks (`choose`), or end (`halt`). A `Walk` from a node consumes a list
of outcomes and produces the list of events; it may stop anywhere, so the walks from
a node are all the finite prefixes of its runs.

A rewrite of the graph keeps the walks when its nodes *cover* the old ones (`Covers`):
a map `π` sends every new node to the old one it stands for, and the new node either
does what the old one does, up to `π`, or is a forwarder to another node over the
same old one. `Covers.walk_iff` is the rule.
-/

namespace Prosperismo

variable {L : Type*}

/-- What a walk does at a node. -/
inductive FlowNode (L : Type*) where
  | forward (target : ℕ)
  | branch (label : L) (target : ℕ)
  | choose (label : L) (targets : List ℕ)
  | halt (label : L)
deriving DecidableEq, Repr

namespace FlowNode

/-- The nodes a walk can go to from here. -/
def targets : FlowNode L → List ℕ
  | forward t => [t]
  | branch _ t => [t]
  | choose _ ts => ts
  | halt _ => []

/-- The same node with its targets renamed. -/
def map (π : ℕ → ℕ) : FlowNode L → FlowNode L
  | forward t => forward (π t)
  | branch l t => branch l (π t)
  | choose l ts => choose l (ts.map π)
  | halt l => halt l

/-- Renaming renames the targets. -/
theorem targets_map (π : ℕ → ℕ) (node : FlowNode L) :
    (node.map π).targets = node.targets.map π := by
  cases node <;> rfl

/-- A renaming that fixes the targets changes nothing. -/
theorem map_eq_self {π : ℕ → ℕ} {node : FlowNode L} (h : ∀ t ∈ node.targets, π t = t) :
    node.map π = node := by
  cases node with
  | forward t => exact congrArg forward (h t (List.mem_singleton_self t))
  | branch l t => exact congrArg (branch l) (h t (List.mem_singleton_self t))
  | choose l ts =>
    refine congrArg (choose l) ?_
    conv_rhs => rw [← List.map_id ts]
    exact List.map_congr_left h
  | halt l => rfl

/-- Renaming twice is renaming by the composition. -/
theorem map_map (π ρ : ℕ → ℕ) (node : FlowNode L) :
    (node.map ρ).map π = node.map (π ∘ ρ) := by
  cases node <;> simp [map]

/-- Renamings that agree on the targets give the same node. -/
theorem map_congr {π ρ : ℕ → ℕ} {node : FlowNode L} (h : ∀ t ∈ node.targets, π t = ρ t) :
    node.map π = node.map ρ := by
  cases node with
  | forward t => exact congrArg forward (h t (List.mem_singleton_self t))
  | branch l t => exact congrArg (branch l) (h t (List.mem_singleton_self t))
  | choose l ts => exact congrArg (choose l) (List.map_congr_left h)
  | halt l => rfl

end FlowNode

/-- `Walk flow x outcomes events`: from node `x`, picking the successors that `outcomes`
say, a walk produces `events`, each the label of a node with the side taken there. -/
inductive Walk (flow : ℕ → Option (FlowNode L)) : ℕ → List ℕ → List (L × Option ℕ) → Prop
  | stop (x : ℕ) : Walk flow x [] []
  | forward {x t : ℕ} {os : List ℕ} {es : List (L × Option ℕ)} :
      flow x = some (.forward t) → Walk flow t os es → Walk flow x os es
  | branch {x t : ℕ} {l : L} {os : List ℕ} {es : List (L × Option ℕ)} :
      flow x = some (.branch l t) → Walk flow t os es → Walk flow x os ((l, some 0) :: es)
  | choose {x t i : ℕ} {l : L} {ts os : List ℕ} {es : List (L × Option ℕ)} :
      flow x = some (.choose l ts) → ts[i]? = some t → Walk flow t os es →
        Walk flow x (i :: os) ((l, some i) :: es)
  | halt {x : ℕ} {l : L} : flow x = some (.halt l) → Walk flow x [] [(l, none)]

/-- The nodes of `flow'` that satisfy `D` cover `flow` along `π`. Where a node is a new
forwarder, `rank` decreases, so that a walk leaves the new forwarders again. -/
structure Covers (flow' flow : ℕ → Option (FlowNode L)) (π rank : ℕ → ℕ) (D : ℕ → Prop) :
    Prop where
  closed : ∀ {x node}, D x → flow' x = some node → ∀ t ∈ node.targets, D t
  covered : ∀ {x}, D x → flow (π x) = (flow' x).map (FlowNode.map π) ∨
    ∃ t, flow' x = some (.forward t) ∧ π t = π x ∧ rank t < rank x

namespace Covers

variable {flow' flow : ℕ → Option (FlowNode L)} {π rank : ℕ → ℕ} {D : ℕ → Prop}
  {x : ℕ} {os : List ℕ} {es : List (L × Option ℕ)}

/-- A walk of the new graph is one of the old graph. -/
theorem walk_old (h : Covers flow' flow π rank D) (hw : Walk flow' x os es) (hx : D x) :
    Walk flow (π x) os es := by
  induction hw with
  | stop x => exact .stop _
  | @forward x t os es hnode _ ih =>
    have ih := ih (h.closed hx hnode t (List.mem_singleton_self t))
    rcases h.covered hx with hsame | ⟨t', hnode', hπ, -⟩
    · rw [hnode] at hsame
      exact .forward hsame ih
    · obtain rfl : t = t' := by simpa using hnode.symm.trans hnode'
      rwa [← hπ]
  | @branch x t l os es hnode _ ih =>
    have ih := ih (h.closed hx hnode t (List.mem_singleton_self t))
    rcases h.covered hx with hsame | ⟨t', hnode', -, -⟩
    · rw [hnode] at hsame
      exact .branch hsame ih
    · rw [hnode] at hnode'
      cases hnode'
  | @choose x t i l ts os es hnode ht _ ih =>
    have ih := ih (h.closed hx hnode t (List.mem_of_getElem? ht))
    rcases h.covered hx with hsame | ⟨t', hnode', -, -⟩
    · rw [hnode] at hsame
      exact .choose hsame (by rw [List.getElem?_map, ht]; rfl) ih
    · rw [hnode] at hnode'
      cases hnode'
  | @halt x l hnode =>
    rcases h.covered hx with hsame | ⟨t', hnode', -, -⟩
    · rw [hnode] at hsame
      exact .halt hsame
    · rw [hnode] at hnode'
      cases hnode'

/-- From every node of the new graph its forwarders lead to one that does what the old
node does. -/
theorem settle (h : Covers flow' flow π rank D) {node : FlowNode L} (hx : D x)
    (hold : flow (π x) = some node) :
    ∃ y node', flow' y = some node' ∧ node'.map π = node ∧ (∀ t ∈ node'.targets, D t) ∧
      ∀ os es, Walk flow' y os es → Walk flow' x os es := by
  induction hr : rank x using Nat.strongRecOn generalizing x with
  | _ r ih =>
    rcases h.covered hx with hsame | ⟨t, hnode, hπ, hlt⟩
    · rw [hold] at hsame
      obtain ⟨node', hnode', hmap⟩ := Option.map_eq_some_iff.1 hsame.symm
      exact ⟨x, node', hnode', hmap, h.closed hx hnode', fun _ _ hw => hw⟩
    · have ht : D t := h.closed hx hnode t (List.mem_singleton_self t)
      obtain ⟨y, node', hnode', hmap, hclosed, hback⟩ :=
        ih (rank t) (hr ▸ hlt) ht (by rw [hπ, hold]) rfl
      exact ⟨y, node', hnode', hmap, hclosed,
        fun os es hw => .forward hnode (hback os es hw)⟩

/-- A walk of the old graph is one of the new graph. -/
theorem walk_new (h : Covers flow' flow π rank D) {z : ℕ} (hw : Walk flow z os es) :
    ∀ {x}, D x → π x = z → Walk flow' x os es := by
  induction hw with
  | stop z => exact fun _ _ => .stop _
  | @forward z t os es hnode _ ih =>
    intro x hx hz
    obtain ⟨y, node', hnode', hmap, hclosed, hback⟩ := h.settle hx (hz ▸ hnode)
    cases node' <;> simp only [FlowNode.map, reduceCtorEq, FlowNode.forward.injEq] at hmap
    exact hback _ _ (.forward hnode' (ih (hclosed _ (List.mem_singleton_self _)) hmap))
  | @branch z t l os es hnode _ ih =>
    intro x hx hz
    obtain ⟨y, node', hnode', hmap, hclosed, hback⟩ := h.settle hx (hz ▸ hnode)
    cases node' <;> simp only [FlowNode.map, reduceCtorEq, FlowNode.branch.injEq] at hmap
    obtain ⟨rfl, hmap⟩ := hmap
    exact hback _ _ (.branch hnode' (ih (hclosed _ (List.mem_singleton_self _)) hmap))
  | @choose z t i l ts os es hnode ht _ ih =>
    intro x hx hz
    obtain ⟨y, node', hnode', hmap, hclosed, hback⟩ := h.settle hx (hz ▸ hnode)
    cases node' <;> simp only [FlowNode.map, reduceCtorEq, FlowNode.choose.injEq] at hmap
    obtain ⟨rfl, rfl⟩ := hmap
    rw [List.getElem?_map] at ht
    obtain ⟨t', ht', hmap⟩ := Option.map_eq_some_iff.1 ht
    exact hback _ _ (.choose hnode' ht' (ih (hclosed _ (List.mem_of_getElem? ht')) hmap))
  | @halt z l hnode =>
    intro x hx hz
    obtain ⟨y, node', hnode', hmap, hclosed, hback⟩ := h.settle hx (hz ▸ hnode)
    cases node' <;> simp only [FlowNode.map, reduceCtorEq, FlowNode.halt.injEq] at hmap
    obtain rfl := hmap
    exact hback _ _ (.halt hnode')

/-- **The cover rule.** A node of the new graph has the walks of the old node it stands
for. -/
theorem walk_iff (h : Covers flow' flow π rank D) (hx : D x) :
    Walk flow' x os es ↔ Walk flow (π x) os es :=
  ⟨fun hw => h.walk_old hw hx, fun hw => h.walk_new hw hx rfl⟩

end Covers

end Prosperismo
