import Prosperismo.Cfg.Dominators

/-!
# Tarjan's algorithm

`TarjanVisit` finds the strongly connected components. The invariant (`TarjanInv`) is
relative to the blocks whose visit has begun and not ended, the *active* blocks:

* the stack holds the visited blocks that are in no component yet, the latest on top;
* an active block reaches everything above it on the stack, and every block of the stack
  reaches an active block below it;
* edges lead from a finished block to visited blocks, and from a block in a component
  to blocks in components.

`TarjanVisit` keeps it (`tarjanVisit_visited`), and at the end every block is in a
component that is exactly its class (`tarjanComponents_spec`).
-/

namespace Prosperismo.Cfg

open Relation

variable {g : Graph} {active : List ℕ} {s s' : TarjanState} {b : ℕ}

/-! ### The invariant -/

/-- The successors that `TarjanVisit` goes through. -/
def Graph.successorsOf (graph : Graph) (id : ℕ) : List ℕ :=
  ((graph.findBlock id).map BasicBlock.successors).getD []

theorem Graph.Linked.mem_successorsOf (hg : g.Linked) {a c : ℕ} :
    c ∈ g.successorsOf a ↔ g.Edge a c := by
  unfold Graph.successorsOf Graph.Edge EdgeIn
  rw [hg.positioned.findBlock]
  cases g.blocks[a]? <;> simp

/-- `TarjanVisit` has entered the block. -/
def TarjanState.Visited (s : TarjanState) (v : ℕ) : Prop := s.indexOf v ≠ uint32Max

/-- The members are exactly the blocks strongly connected with `v`. -/
def Graph.IsClass (graph : Graph) (v : ℕ) (members : List ℕ) : Prop :=
  ∀ w, w ∈ members ↔ StronglyConnected graph.Edge v w

/-- The invariant of Tarjan's algorithm. -/
structure TarjanInv (g : Graph) (active : List ℕ) (s : TarjanState) : Prop where
  indexLength : s.index.length = g.blocks.length
  lowlinkLength : s.lowlink.length = g.blocks.length
  onStackLength : s.onStack.length = g.blocks.length
  count : s.nextIndex + s.index.count uint32Max = g.blocks.length
  onStack : ∀ v, s.isOnStack v = true ↔ v ∈ s.stack
  stackVisited : ∀ v ∈ s.stack, s.Visited v
  sorted : s.stack.Pairwise fun u v => s.indexOf v < s.indexOf u
  indexLt : ∀ v, s.Visited v → s.indexOf v < s.nextIndex
  activeOnStack : ∀ x ∈ active, x ∈ s.stack
  reachesActive : ∀ v ∈ s.stack, ∃ y ∈ active,
    s.indexOf y ≤ s.indexOf v ∧ ReflTransGen g.Edge v y
  activeReaches : ∀ y ∈ active, ∀ v ∈ s.stack, s.indexOf y ≤ s.indexOf v →
    ReflTransGen g.Edge y v
  finished : ∀ v, s.Visited v → v ∉ active → ∀ w, g.Edge v w → s.Visited w
  closed : ∀ v, s.Visited v → v ∉ s.stack → ∀ w, g.Edge v w → s.Visited w ∧ w ∉ s.stack
  components : ∀ c ∈ s.components, ∃ v members,
    v < g.blocks.length ∧ c = componentOf g members ∧ g.IsClass v members
  covered : ∀ v, s.Visited v → v ∉ s.stack → ∃ members,
    componentOf g members ∈ s.components ∧ g.IsClass v members

namespace TarjanState

theorem Visited.lt {v : ℕ} (h : s.Visited v) : v < s.index.length := by
  by_contra hlt
  refine h ?_
  rw [indexOf, List.getElem?_eq_none (Nat.le_of_not_lt hlt), Option.getD_none]

theorem indexOf_enter {v : ℕ} (hb : b < s.index.length) :
    (s.enter b).indexOf v = if v = b then s.nextIndex else s.indexOf v :=
  getD_getElem?_set hb s.nextIndex uint32Max v

theorem lowlinkOf_enter {v : ℕ} (hb : b < s.lowlink.length) :
    (s.enter b).lowlinkOf v = if v = b then s.nextIndex else s.lowlinkOf v :=
  getD_getElem?_set hb s.nextIndex uint32Max v

theorem isOnStack_enter {v : ℕ} (hb : b < s.onStack.length) :
    (s.enter b).isOnStack v = if v = b then true else s.isOnStack v :=
  getD_getElem?_set hb true false v

theorem lowlinkOf_lower {v x : ℕ} (hb : b < s.lowlink.length) :
    (s.lower b x).lowlinkOf v =
      if v = b then min (s.lowlinkOf b) x else s.lowlinkOf v :=
  getD_getElem?_set hb (min (s.lowlinkOf b) x) uint32Max v

end TarjanState

namespace TarjanInv

/-- An entered block is a block. -/
theorem lt_of_visited (h : TarjanInv g active s) {v : ℕ} (hv : s.Visited v) :
    v < g.blocks.length := h.indexLength ▸ hv.lt

/-- While a block is not entered, indices are left. -/
theorem nextIndex_lt (h : TarjanInv g active s) (hb : b < g.blocks.length)
    (hnew : ¬ s.Visited b) : s.nextIndex < g.blocks.length := by
  have hlt : b < s.index.length := h.indexLength.symm ▸ hb
  have hmem : uint32Max ∈ s.index := by
    have heq := not_not.1 hnew
    rw [TarjanState.indexOf, List.getElem?_eq_getElem hlt, Option.getD_some] at heq
    exact heq ▸ List.getElem_mem hlt
  have hpos := List.count_pos_iff.2 hmem
  have hcount := h.count
  omega

/-- Lowering a low link changes nothing else. -/
theorem lower (h : TarjanInv g active s) (x : ℕ) : TarjanInv g active (s.lower b x) where
  indexLength := h.indexLength
  lowlinkLength := by
    rw [TarjanState.lower, List.length_set]
    exact h.lowlinkLength
  onStackLength := h.onStackLength
  count := h.count
  onStack := h.onStack
  stackVisited := h.stackVisited
  sorted := h.sorted
  indexLt := h.indexLt
  activeOnStack := h.activeOnStack
  reachesActive := h.reachesActive
  activeReaches := h.activeReaches
  finished := h.finished
  closed := h.closed
  components := h.components
  covered := h.covered

/-- **Entering a block** that the active blocks reach. -/
theorem enter (h : TarjanInv g active s) (hsize : g.blocks.length ≤ uint32Max)
    (hb : b < g.blocks.length) (hnew : ¬ s.Visited b)
    (hreach : ∀ y ∈ active, ReflTransGen g.Edge y b) :
    TarjanInv g (b :: active) (s.enter b) := by
  have hnext := h.nextIndex_lt hb hnew
  have hlt : b < s.index.length := h.indexLength.symm ▸ hb
  have hidx : ∀ v, (s.enter b).indexOf v = if v = b then s.nextIndex else s.indexOf v :=
    fun v => TarjanState.indexOf_enter hlt
  have hvisited : ∀ v, (s.enter b).Visited v ↔ v = b ∨ s.Visited v := by
    intro v
    unfold TarjanState.Visited
    rw [hidx]
    split_ifs with hv
    · exact ⟨fun _ => .inl hv, fun _ => by omega⟩
    · simp [hv]
  have hbstack : b ∉ s.stack := fun hmem => hnew (h.stackVisited b hmem)
  have hold : ∀ v, s.Visited v → v ≠ b := fun v hv heq => hnew (heq ▸ hv)
  refine ⟨?_, ?_, ?_, ?_, ?_, ?_, ?_, ?_, ?_, ?_, ?_, ?_, ?_, h.components, ?_⟩
  · rw [TarjanState.enter, List.length_set, h.indexLength]
  · rw [TarjanState.enter, List.length_set, h.lowlinkLength]
  · rw [TarjanState.enter, List.length_set, h.onStackLength]
  · -- one block fewer is without an index
    have hget : s.index[b] = uint32Max := by
      have heq := not_not.1 hnew
      rwa [TarjanState.indexOf, List.getElem?_eq_getElem hlt, Option.getD_some] at heq
    have hcount := h.count
    have hmem := List.count_pos_iff.2 (hget ▸ List.getElem_mem hlt : uint32Max ∈ s.index)
    have hne : (s.nextIndex == uint32Max) = false := by
      rw [beq_eq_false_iff_ne]
      omega
    simp only [TarjanState.enter, List.count_set hlt, hget, beq_self_eq_true, if_true, hne]
    simp only [Bool.false_eq_true, if_false]
    omega
  · intro v
    rw [TarjanState.isOnStack_enter (h.onStackLength.symm ▸ hb)]
    change _ ↔ v ∈ b :: s.stack
    rw [List.mem_cons]
    split_ifs with hv
    · simp [hv]
    · simp [hv, h.onStack]
  · intro v hv
    rw [hvisited]
    exact (List.mem_cons.1 hv).imp_right (h.stackVisited v)
  · refine List.pairwise_cons.2 ⟨fun v hv => ?_, h.sorted.imp_of_mem fun {u v} hu hv hlt => ?_⟩
    · have hvis := h.stackVisited v hv
      rw [hidx, hidx, if_neg (hold v hvis), if_pos rfl]
      exact h.indexLt v hvis
    · rw [hidx, hidx, if_neg (hold u (h.stackVisited u hu)),
        if_neg (hold v (h.stackVisited v hv))]
      exact hlt
  · intro v hv
    rw [hidx]
    change _ < s.nextIndex + 1
    rcases (hvisited v).1 hv with rfl | hv
    · rw [if_pos rfl]
      exact Nat.lt_succ_self _
    · rw [if_neg (hold v hv)]
      exact Nat.lt_succ_of_lt (h.indexLt v hv)
  · intro x hx
    exact List.mem_cons.2 ((List.mem_cons.1 hx).imp_right (h.activeOnStack x))
  · intro v hv
    rcases List.mem_cons.1 hv with rfl | hv
    · exact ⟨v, List.mem_cons_self, le_rfl, .refl⟩
    · obtain ⟨y, hy, hle, hvy⟩ := h.reachesActive v hv
      refine ⟨y, List.mem_cons_of_mem _ hy, ?_, hvy⟩
      rw [hidx, hidx, if_neg (hold y (h.stackVisited y (h.activeOnStack y hy))),
        if_neg (hold v (h.stackVisited v hv))]
      exact hle
  · intro y hy v hv hle
    rcases List.mem_cons.1 hv with rfl | hv
    · rcases List.mem_cons.1 hy with rfl | hy
      · exact .refl
      · exact hreach y hy
    · have hvis := h.stackVisited v hv
      rw [hidx, hidx, if_neg (hold v hvis)] at hle
      rcases List.mem_cons.1 hy with rfl | hy
      · rw [if_pos rfl] at hle
        have := h.indexLt v hvis
        omega
      · rw [if_neg (hold y (h.stackVisited y (h.activeOnStack y hy)))] at hle
        exact h.activeReaches y hy v hv hle
  · intro v hv hactive w hvw
    rw [List.mem_cons, not_or] at hactive
    rw [hvisited] at hv ⊢
    exact .inr (h.finished v (hv.resolve_left hactive.1) hactive.2 w hvw)
  · intro v hv hstack w hvw
    change v ∉ b :: s.stack at hstack
    rw [List.mem_cons, not_or] at hstack
    rw [hvisited] at hv ⊢
    obtain ⟨hw, hwstack⟩ := h.closed v (hv.resolve_left hstack.1) hstack.2 w hvw
    refine ⟨.inr hw, ?_⟩
    change w ∉ b :: s.stack
    rw [List.mem_cons, not_or]
    exact ⟨hold w hw, hwstack⟩
  · intro v hv hstack
    change v ∉ b :: s.stack at hstack
    rw [List.mem_cons, not_or] at hstack
    exact h.covered v (((hvisited v).1 hv).resolve_left hstack.1) hstack.2

end TarjanInv

/-! ### The visit of a block -/

/-- What `TarjanVisit` of `b` does to a state: the blocks that stay on the stack are above
the old stack, and the low link of `b` bounds the edges from them into the old stack. -/
structure VisitPost (g : Graph) (active : List ℕ) (b : ℕ) (s s' : TarjanState) : Prop where
  inv : TarjanInv g active s'
  visited : s'.Visited b
  keepIndex : ∀ v, s.Visited v → s'.indexOf v = s.indexOf v
  keepLow : ∀ v, s.Visited v → s'.lowlinkOf v = s.lowlinkOf v
  next : s.nextIndex ≤ s'.nextIndex
  stack : ∃ above, s'.stack = above ++ s.stack ∧
    (∀ v ∈ above, s.nextIndex ≤ s'.indexOf v) ∧
    ∀ v ∈ above, ∀ w ∈ s.stack, g.Edge v w → s'.lowlinkOf b ≤ s.indexOf w
  low : (∃ y ∈ s.stack, s.indexOf y = s'.lowlinkOf b ∧ ReflTransGen g.Edge b y) ∨
    s.nextIndex ≤ s'.lowlinkOf b

/-- The successor loop of `TarjanVisit b`, which began in `s₀`, after the successors
`done`. -/
structure VisitLoop (g : Graph) (active : List ℕ) (b : ℕ) (s₀ : TarjanState) (done : List ℕ)
    (s : TarjanState) : Prop where
  inv : TarjanInv g (b :: active) s
  index : s.indexOf b = s₀.nextIndex
  keepIndex : ∀ v, s₀.Visited v → s.indexOf v = s₀.indexOf v
  keepLow : ∀ v, s₀.Visited v → s.lowlinkOf v = s₀.lowlinkOf v
  next : s₀.nextIndex < s.nextIndex
  stack : ∃ above, s.stack = above ++ b :: s₀.stack ∧
    (∀ v ∈ above, s₀.nextIndex < s.indexOf v) ∧
    ∀ v ∈ above, ∀ w ∈ s₀.stack, g.Edge v w → s.lowlinkOf b ≤ s₀.indexOf w
  low : (∃ y ∈ s₀.stack, s₀.indexOf y = s.lowlinkOf b ∧ ReflTransGen g.Edge b y) ∨
    s.lowlinkOf b = s₀.nextIndex
  done : ∀ w ∈ done, s.Visited w ∧ (w ∈ s₀.stack → s.lowlinkOf b ≤ s₀.indexOf w)

section Visit

variable {s₀ : TarjanState} {done : List ℕ}

/-- The loop begins when the block is entered. -/
theorem VisitLoop.enter (h : TarjanInv g active s₀) (hsize : g.blocks.length ≤ uint32Max)
    (hb : b < g.blocks.length) (hnew : ¬ s₀.Visited b)
    (hreach : ∀ y ∈ active, ReflTransGen g.Edge y b) :
    VisitLoop g active b s₀ [] (s₀.enter b) := by
  have hlt : b < s₀.index.length := h.indexLength.symm ▸ hb
  have hlow : b < s₀.lowlink.length := h.lowlinkLength.symm ▸ hb
  have hold : ∀ v, s₀.Visited v → v ≠ b := fun v hv heq => hnew (heq ▸ hv)
  refine ⟨h.enter hsize hb hnew hreach, ?_, fun v hv => ?_, fun v hv => ?_, Nat.lt_succ_self _,
    ⟨[], rfl, by simp, by simp⟩, .inr ?_, by simp⟩
  · rw [TarjanState.indexOf_enter hlt, if_pos rfl]
  · rw [TarjanState.indexOf_enter hlt, if_neg (hold v hv)]
  · rw [TarjanState.lowlinkOf_enter hlow, if_neg (hold v hv)]
  · rw [TarjanState.lowlinkOf_enter hlow, if_pos rfl]

namespace VisitLoop

/-- The low link of the visited block is at most its index. -/
theorem low_le (h : VisitLoop g active b s₀ done s) (h₀ : TarjanInv g active s₀) :
    s.lowlinkOf b ≤ s₀.nextIndex := by
  rcases h.low with ⟨y, hy, heq, -⟩ | heq
  · rw [← heq]
    exact (h₀.indexLt y (h₀.stackVisited y hy)).le
  · exact heq.le

/-- The low link only ever becomes the index of a reached block of the old stack, or stays
the index of `b`. -/
theorem low_of_le (h : VisitLoop g active b s₀ done s) (h₀ : TarjanInv g active s₀) {x : ℕ}
    (hle : x ≤ s.lowlinkOf b)
    (hx : (∃ y ∈ s.stack, s.indexOf y = x ∧ ReflTransGen g.Edge b y) ∨ s₀.nextIndex ≤ x) :
    (∃ y ∈ s₀.stack, s₀.indexOf y = x ∧ ReflTransGen g.Edge b y) ∨ x = s₀.nextIndex := by
  have hbound := h.low_le h₀
  rcases hx with ⟨y, hy, heq, hby⟩ | hge
  · obtain ⟨above, hstack, habove, -⟩ := h.stack
    rw [hstack, List.mem_append, List.mem_cons] at hy
    rcases hy with hy | rfl | hy
    · have := habove y hy
      omega
    · exact .inr (by rw [← heq, h.index])
    · refine .inl ⟨y, hy, ?_, hby⟩
      rw [← heq, h.keepIndex y (h₀.stackVisited y hy)]
  · exact .inr (by omega)

/-- The visited block is on the stack. -/
theorem mem_stack (h : VisitLoop g active b s₀ done s) : b ∈ s.stack := by
  obtain ⟨above, hstack, -⟩ := h.stack
  simp [hstack]

/-- The old stack is on the stack. -/
theorem stack_subset (h : VisitLoop g active b s₀ done s) : ∀ w ∈ s₀.stack, w ∈ s.stack := by
  obtain ⟨above, hstack, -⟩ := h.stack
  intro w hw
  simp [hstack, hw]

/-- What was visited is visited. -/
theorem visited_of_old (h : VisitLoop g active b s₀ done s) {v : ℕ} (hv : s₀.Visited v) :
    s.Visited v := by
  unfold TarjanState.Visited
  rw [h.keepIndex v hv]
  exact hv

/-- **A visited successor on the stack** lowers the low link to its index. -/
theorem lower (h : VisitLoop g active b s₀ done s) (h₀ : TarjanInv g active s₀)
    (hnew : ¬ s₀.Visited b) {c : ℕ} (hbc : g.Edge b c) (hc : c ∈ s.stack) :
    VisitLoop g active b s₀ (done ++ [c]) (s.lower b (s.indexOf c)) := by
  have hb : b < s.lowlink.length :=
    h.inv.lowlinkLength.symm ▸ h.inv.lt_of_visited (h.inv.stackVisited b h.mem_stack)
  have hlow : (s.lower b (s.indexOf c)).lowlinkOf b = min (s.lowlinkOf b) (s.indexOf c) := by
    rw [TarjanState.lowlinkOf_lower hb, if_pos rfl]
  refine ⟨h.inv.lower _, h.index, h.keepIndex, fun v hv => ?_, h.next, ?_, ?_, fun w hw => ?_⟩
  · have hne : v ≠ b := fun heq => hnew (heq ▸ hv)
    rw [TarjanState.lowlinkOf_lower hb, if_neg hne]
    exact h.keepLow v hv
  · obtain ⟨above, hstack, habove, hedges⟩ := h.stack
    refine ⟨above, hstack, habove, fun v hv w hw hvw => ?_⟩
    rw [hlow]
    exact (min_le_left _ _).trans (hedges v hv w hw hvw)
  · rw [hlow]
    rcases le_total (s.lowlinkOf b) (s.indexOf c) with hmin | hmin
    · rw [min_eq_left hmin]
      exact h.low
    · rw [min_eq_right hmin]
      exact h.low_of_le h₀ hmin (.inl ⟨c, hc, rfl, .single hbc⟩)
  · rw [hlow]
    rcases List.mem_append.1 hw with hw | hw
    · exact (h.done w hw).imp_right fun hdone hws => (min_le_left _ _).trans (hdone hws)
    · rw [List.mem_singleton.1 hw]
      refine ⟨h.inv.stackVisited c hc, fun hcs => ?_⟩
      rw [h.keepIndex c (h₀.stackVisited c hcs)]
      exact min_le_right _ _

/-- **A successor that is visited now** lowers the low link to its low link. -/
theorem visit (h : VisitLoop g active b s₀ done s) (h₀ : TarjanInv g active s₀)
    (hnew : ¬ s₀.Visited b) {c : ℕ} (hbc : g.Edge b c) (hcnew : ¬ s.Visited c)
    (hpost : VisitPost g (b :: active) c s s') :
    VisitLoop g active b s₀ (done ++ [c]) (s'.lower b (s'.lowlinkOf c)) := by
  have hbvisited : s.Visited b := h.inv.stackVisited b h.mem_stack
  have hb : b < s'.lowlink.length :=
    hpost.inv.lowlinkLength.symm ▸ h.inv.lt_of_visited hbvisited
  have hlow : (s'.lower b (s'.lowlinkOf c)).lowlinkOf b =
      min (s.lowlinkOf b) (s'.lowlinkOf c) := by
    rw [TarjanState.lowlinkOf_lower hb, if_pos rfl, hpost.keepLow b hbvisited]
  have hnext := h.next
  have hnext' := hpost.next
  refine ⟨hpost.inv.lower _, ?_, fun v hv => ?_, fun v hv => ?_, hnext.trans_le hnext',
    ?_, ?_, fun w hw => ?_⟩
  · exact (hpost.keepIndex b hbvisited).trans h.index
  · exact (hpost.keepIndex v (h.visited_of_old hv)).trans (h.keepIndex v hv)
  · have hne : v ≠ b := fun heq => hnew (heq ▸ hv)
    rw [TarjanState.lowlinkOf_lower hb, if_neg hne]
    exact (hpost.keepLow v (h.visited_of_old hv)).trans (h.keepLow v hv)
  · obtain ⟨above, hstack, habove, hedges⟩ := h.stack
    obtain ⟨above', hstack', habove', hedges'⟩ := hpost.stack
    refine ⟨above' ++ above, ?_, fun v hv => ?_, fun v hv w hw hvw => ?_⟩
    · change s'.stack = _
      rw [hstack', hstack, List.append_assoc]
    · change s₀.nextIndex < s'.indexOf v
      rcases List.mem_append.1 hv with hv | hv
      · exact hnext.trans_le (habove' v hv)
      · have hvis := h.inv.stackVisited v (by simp [hstack, hv])
        rw [hpost.keepIndex v hvis]
        exact habove v hv
    · rw [hlow]
      rcases List.mem_append.1 hv with hv | hv
      · rw [← h.keepIndex w (h₀.stackVisited w hw)]
        exact (min_le_right _ _).trans (hedges' v hv w (h.stack_subset w hw) hvw)
      · exact (min_le_left _ _).trans (hedges v hv w hw hvw)
  · rw [hlow]
    rcases le_total (s.lowlinkOf b) (s'.lowlinkOf c) with hmin | hmin
    · rw [min_eq_left hmin]
      exact h.low
    · rw [min_eq_right hmin]
      refine h.low_of_le h₀ hmin (hpost.low.imp ?_ fun hge => (hnext.trans_le hge).le)
      rintro ⟨y, hy, heq, hcy⟩
      exact ⟨y, hy, heq, .head hbc hcy⟩
  · rw [hlow]
    rcases List.mem_append.1 hw with hw | hw
    · obtain ⟨hvis, hdone⟩ := h.done w hw
      refine ⟨?_, fun hws => (min_le_left _ _).trans (hdone hws)⟩
      change s'.indexOf w ≠ uint32Max
      rw [hpost.keepIndex w hvis]
      exact hvis
    · rw [List.mem_singleton.1 hw]
      exact ⟨hpost.visited, fun hcs => absurd (h.visited_of_old (h₀.stackVisited c hcs)) hcnew⟩

/-- A successor that is in a component already. -/
theorem skip (h : VisitLoop g active b s₀ done s) {c : ℕ} (hvisited : s.Visited c)
    (hc : c ∉ s.stack) : VisitLoop g active b s₀ (done ++ [c]) s := by
  refine ⟨h.inv, h.index, h.keepIndex, h.keepLow, h.next, h.stack, h.low, fun w hw => ?_⟩
  rcases List.mem_append.1 hw with hw | hw
  · exact h.done w hw
  · rw [List.mem_singleton.1 hw]
    exact ⟨hvisited, fun hcs => absurd (h.stack_subset c hcs) hc⟩

/-- **The end of a visit that is not the root** of its component: the block stays on the
stack. -/
theorem finish (h : VisitLoop g active b s₀ (g.successorsOf b) s) (hg : g.Linked)
    (h₀ : TarjanInv g active s₀) (hlow : s.lowlinkOf b ≠ s.indexOf b) :
    VisitPost g active b s₀ s := by
  have hreach := h.low.resolve_right fun heq => hlow (heq.trans h.index.symm)
  obtain ⟨y, hy, hylow, hby⟩ := hreach
  have hyvis := h₀.stackVisited y hy
  have hylt := h₀.indexLt y hyvis
  obtain ⟨above, hstack, habove, hedges⟩ := h.stack
  have hinv : TarjanInv g active s := by
    refine { h.inv with
      activeOnStack := fun x hx => h.inv.activeOnStack x (List.mem_cons_of_mem _ hx)
      reachesActive := fun v hv => ?_
      activeReaches := fun z hz => h.inv.activeReaches z (List.mem_cons_of_mem _ hz)
      finished := fun v hv hactive w hvw => ?_ }
    · obtain ⟨z, hz, hle, hvz⟩ := h.inv.reachesActive v hv
      rcases List.mem_cons.1 hz with rfl | hz
      · -- what reaches `b` reaches `y`, and from there an active block
        obtain ⟨z', hz', hle', hyz'⟩ := h₀.reachesActive y hy
        refine ⟨z', hz', ?_, hvz.trans (hby.trans hyz')⟩
        rw [h.keepIndex z' (h₀.stackVisited z' (h₀.activeOnStack z' hz'))]
        rw [h.index] at hle
        omega
      · exact ⟨z, hz, hle, hvz⟩
    · by_cases hvb : v = b
      · exact (h.done w (hg.mem_successorsOf.2 (hvb ▸ hvw))).1
      · refine h.inv.finished v hv ?_ w hvw
        rw [List.mem_cons, not_or]
        exact ⟨hvb, hactive⟩
  refine ⟨hinv, h.inv.stackVisited b h.mem_stack, h.keepIndex, h.keepLow, h.next.le,
    ⟨above ++ [b], by rw [hstack, List.append_assoc, List.singleton_append], fun v hv => ?_,
      fun v hv w hw hvw => ?_⟩, .inl ⟨y, hy, hylow, hby⟩⟩
  · rcases List.mem_append.1 hv with hv | hv
    · exact (habove v hv).le
    · rw [List.mem_singleton.1 hv, h.index]
  · rcases List.mem_append.1 hv with hv | hv
    · exact hedges v hv w hw hvw
    · rw [List.mem_singleton.1 hv] at hvw
      exact (h.done w (hg.mem_successorsOf.2 hvw)).2 hw

/-! ### The root of a component -/

section Root

variable {above : List ℕ}

/-- Nothing above the visited block is on the old stack. -/
theorem notMem_old (h : VisitLoop g active b s₀ done s) (h₀ : TarjanInv g active s₀)
    (habove : ∀ v ∈ above, s₀.nextIndex < s.indexOf v) {u : ℕ} (hu : u ∈ above ++ [b]) :
    u ∉ s₀.stack := by
  intro hold
  have hvis := h₀.stackVisited u hold
  have hlt := h₀.indexLt u hvis
  have hkeep := h.keepIndex u hvis
  rcases List.mem_append.1 hu with hu | hu
  · have := habove u hu
    omega
  · rw [List.mem_singleton.1 hu] at hkeep hlt
    have hindex := h.index
    omega

/-- **No escape.** When the low link is the index, the edges from the top of the stack stay
there or lead to blocks that are in a component. -/
theorem no_escape (h : VisitLoop g active b s₀ (g.successorsOf b) s) (hg : g.Linked)
    (h₀ : TarjanInv g active s₀) (hlow : s.lowlinkOf b = s.indexOf b)
    (hstack : s.stack = above ++ b :: s₀.stack)
    (habove : ∀ v ∈ above, s₀.nextIndex < s.indexOf v)
    (hedges : ∀ v ∈ above, ∀ w ∈ s₀.stack, g.Edge v w → s.lowlinkOf b ≤ s₀.indexOf w)
    {u w : ℕ} (hu : u ∈ above ++ [b]) (huw : g.Edge u w) :
    s.Visited w ∧ (w ∈ above ++ [b] ∨ w ∉ s.stack) := by
  have hvisited : s.Visited w := by
    by_cases hub : u = b
    · exact (h.done w (hg.mem_successorsOf.2 (hub ▸ huw))).1
    · refine h.inv.finished u (h.inv.stackVisited u ?_) ?_ w huw
      · rw [hstack]
        rcases List.mem_append.1 hu with hu | hu
        · exact List.mem_append_left _ hu
        · exact absurd (List.mem_singleton.1 hu) hub
      · rw [List.mem_cons, not_or]
        exact ⟨hub, fun hact => h.notMem_old h₀ habove hu (h₀.activeOnStack u hact)⟩
  refine ⟨hvisited, ?_⟩
  by_cases hw : w ∈ s₀.stack
  · -- an edge into the old stack would have lowered the low link
    have hle : s.lowlinkOf b ≤ s₀.indexOf w := by
      rcases List.mem_append.1 hu with hu | hu
      · exact hedges u hu w hw huw
      · rw [List.mem_singleton.1 hu] at huw
        exact (h.done w (hg.mem_successorsOf.2 huw)).2 hw
    have hlt := h₀.indexLt w (h₀.stackVisited w hw)
    have hindex := h.index
    omega
  · by_cases hmem : w ∈ above ++ [b]
    · exact .inl hmem
    · refine .inr fun hws => ?_
      rw [hstack, List.mem_append, List.mem_cons] at hws
      rw [List.mem_append, List.mem_singleton, not_or] at hmem
      rcases hws with hws | hws | hws
      · exact hmem.1 hws
      · exact hmem.2 hws
      · exact hw hws

/-- **The component.** The blocks from the top of the stack down to the root are the class
of the root. -/
theorem isClass (h : VisitLoop g active b s₀ (g.successorsOf b) s) (hg : g.Linked)
    (h₀ : TarjanInv g active s₀) (hlow : s.lowlinkOf b = s.indexOf b)
    (hstack : s.stack = above ++ b :: s₀.stack)
    (habove : ∀ v ∈ above, s₀.nextIndex < s.indexOf v)
    (hedges : ∀ v ∈ above, ∀ w ∈ s₀.stack, g.Edge v w → s.lowlinkOf b ≤ s₀.indexOf w) :
    g.IsClass b (above ++ [b]) := by
  -- the component with the blocks of older components is closed under edges
  have hclosed : ∀ {u v}, ReflTransGen g.Edge u v → s.Visited u →
      u ∈ above ++ [b] ∨ u ∉ s.stack → s.Visited v ∧ (v ∈ above ++ [b] ∨ v ∉ s.stack) := by
    intro u v huv hvis hu
    induction huv with
    | refl => exact ⟨hvis, hu⟩
    | tail _ hedge ih =>
      rcases ih.2 with hmem | hnot
      · exact h.no_escape hg h₀ hlow hstack habove hedges hmem hedge
      · obtain ⟨hw, hws⟩ := h.inv.closed _ ih.1 hnot _ hedge
        exact ⟨hw, .inr hws⟩
  have hbstack := h.mem_stack
  have hbvis := h.inv.stackVisited b hbstack
  have hbmem : b ∈ above ++ [b] := by simp
  intro w
  constructor
  · intro hw
    have hws : w ∈ s.stack := by
      rw [hstack]
      rcases List.mem_append.1 hw with hw | hw
      · exact List.mem_append_left _ hw
      · rw [List.mem_singleton.1 hw]
        simp
    have hle : s.indexOf b ≤ s.indexOf w := by
      rw [h.index]
      rcases List.mem_append.1 hw with hw | hw
      · exact (habove w hw).le
      · rw [List.mem_singleton.1 hw, h.index]
    refine ⟨h.inv.activeReaches b List.mem_cons_self w hws hle, ?_⟩
    obtain ⟨y, hy, -, hwy⟩ := h.inv.reachesActive w hws
    rcases List.mem_cons.1 hy with rfl | hy
    · exact hwy
    · -- an active block below the root is out of reach
      have hyold := h₀.activeOnStack y hy
      rcases (hclosed hwy (h.inv.stackVisited w hws) (.inl hw)).2 with hmem | hnot
      · exact absurd hyold (h.notMem_old h₀ habove hmem)
      · exact absurd (h.stack_subset y hyold) hnot
  · rintro ⟨hbw, hwb⟩
    obtain ⟨hwvis, hw⟩ := hclosed hbw hbvis (.inl hbmem)
    refine hw.resolve_right fun hnot => ?_
    have hdone : ∀ {u}, ReflTransGen g.Edge w u → s.Visited u ∧ u ∉ s.stack := by
      intro u hwu
      induction hwu with
      | refl => exact ⟨hwvis, hnot⟩
      | tail _ hedge ih => exact h.inv.closed _ ih.1 ih.2 _ hedge
    exact (hdone hwb).2 hbstack

/-- The members that leave the stack are not on it any more. -/
theorem isOnStack_foldl_set {members : List ℕ} {onStack : List Bool} {v : ℕ}
    (hmembers : ∀ m ∈ members, m < onStack.length) :
    ((members.foldl (fun onStack member => onStack.set member false) onStack)[v]?).getD false =
      if v ∈ members then false else (onStack[v]?).getD false := by
  induction members generalizing onStack with
  | nil => simp
  | cons m members ih =>
    rw [List.foldl_cons, ih (by simpa using fun x hx => hmembers x (List.mem_cons_of_mem _ hx)),
      getD_getElem?_set (hmembers m List.mem_cons_self)]
    by_cases hv : v = m <;> simp [hv]

theorem length_foldl_set (members : List ℕ) (onStack : List Bool) :
    (members.foldl (fun onStack member => onStack.set member false) onStack).length =
      onStack.length := by
  induction members generalizing onStack with
  | nil => rfl
  | cons m members ih => rw [List.foldl_cons, ih, List.length_set]

/-- The stack is cut below the root. -/
theorem popComponent_stack (hstack : s.stack = above ++ b :: s₀.stack) (hb : b ∉ above) :
    (s.stack.takeWhile (· ≠ b)) = above := by
  rw [hstack, List.takeWhile_append_of_pos (fun v hv => by
    rw [decide_eq_true_eq]
    exact fun heq => hb (heq ▸ hv)), List.takeWhile_cons_of_neg (by simp), List.append_nil]

/-- **The end of the visit of a root**: its component leaves the stack. -/
theorem pop (h : VisitLoop g active b s₀ (g.successorsOf b) s) (hg : g.Linked)
    (h₀ : TarjanInv g active s₀) (hlow : s.lowlinkOf b = s.indexOf b) :
    VisitPost g active b s₀ (popComponent g s b) := by
  obtain ⟨above, hstack, habove, hedges⟩ := h.stack
  have hclass := h.isClass hg h₀ hlow hstack habove hedges
  have hbabove : b ∉ above := fun hb => by
    have := habove b hb
    have := h.index
    omega
  have hpop : popComponent g s b =
      { s with
        stack := s₀.stack
        onStack := (above ++ [b]).foldl (fun onStack member => onStack.set member false) s.onStack
        components := s.components ++ [componentOf g (above ++ [b])] } := by
    unfold popComponent
    dsimp only
    rw [popComponent_stack hstack hbabove]
    have hdrop : s.stack.drop (above ++ [b]).length = s₀.stack := by
      have hsplit : s.stack = (above ++ [b]) ++ s₀.stack := by simp [hstack]
      rw [hsplit, List.drop_left]
    rw [hdrop]
  have hmembers : ∀ m ∈ above ++ [b], m ∈ s.stack := by
    intro m hm
    rw [hstack]
    rcases List.mem_append.1 hm with hm | hm
    · exact List.mem_append_left _ hm
    · rw [List.mem_singleton.1 hm]
      simp
  have hsplit : ∀ v, v ∈ s.stack ↔ v ∈ above ++ [b] ∨ v ∈ s₀.stack := by
    intro v
    rw [hstack]
    simp [or_assoc]
  have hbvis := h.inv.stackVisited b h.mem_stack
  rw [hpop]
  refine ⟨⟨h.inv.indexLength, h.inv.lowlinkLength, ?_, h.inv.count, fun v => ?_,
    fun v hv => h.inv.stackVisited v (h.stack_subset v hv), ?_, h.inv.indexLt,
    h₀.activeOnStack, fun v hv => ?_, fun y hy v hv hle => ?_, fun v hv hact w hvw => ?_,
    fun v hv hnot w hvw => ?_, fun c hc => ?_, fun v hv hnot => ?_⟩, hbvis, h.keepIndex,
    h.keepLow, h.next.le, ⟨[], rfl, by simp, by simp⟩, .inr (by
      change s₀.nextIndex ≤ s.lowlinkOf b
      rw [hlow, h.index])⟩
  · rw [length_foldl_set]
    exact h.inv.onStackLength
  · change ((List.foldl _ s.onStack (above ++ [b]))[v]?).getD false = true ↔ _
    rw [isOnStack_foldl_set fun m hm => by
      rw [h.inv.onStackLength]
      exact h.inv.lt_of_visited (h.inv.stackVisited m (hmembers m hm))]
    have hon := (h.inv.onStack v).trans (hsplit v)
    rw [TarjanState.isOnStack] at hon
    split_ifs with hv
    · exact ⟨False.elim,
        fun hold => absurd hold (h.notMem_old h₀ habove hv)⟩
    · rw [hon]
      exact or_iff_right hv
  · refine h.inv.sorted.sublist ?_
    rw [hstack]
    exact (List.sublist_cons_self b s₀.stack).trans (List.sublist_append_right above _)
  · obtain ⟨y, hy, hle, hvy⟩ := h₀.reachesActive v hv
    refine ⟨y, hy, ?_, hvy⟩
    change s.indexOf y ≤ s.indexOf v
    rw [h.keepIndex y (h₀.stackVisited y (h₀.activeOnStack y hy)),
      h.keepIndex v (h₀.stackVisited v hv)]
    exact hle
  · exact h.inv.activeReaches y (List.mem_cons_of_mem _ hy) v (h.stack_subset v hv) hle
  · by_cases hvb : v = b
    · exact (h.done w (hg.mem_successorsOf.2 (hvb ▸ hvw))).1
    · exact h.inv.finished v hv (by rw [List.mem_cons, not_or]; exact ⟨hvb, hact⟩) w hvw
  · by_cases hvs : v ∈ s.stack
    · have hvm := ((hsplit v).1 hvs).resolve_right hnot
      obtain ⟨hw, hmem⟩ := h.no_escape hg h₀ hlow hstack habove hedges hvm hvw
      refine ⟨hw, ?_⟩
      rcases hmem with hmem | hws
      · exact h.notMem_old h₀ habove hmem
      · exact fun hold => hws (h.stack_subset w hold)
    · obtain ⟨hw, hws⟩ := h.inv.closed v hv hvs w hvw
      exact ⟨hw, fun hold => hws (h.stack_subset w hold)⟩
  · rcases List.mem_append.1 hc with hc | hc
    · exact h.inv.components c hc
    · exact ⟨b, above ++ [b], h.inv.lt_of_visited hbvis, List.mem_singleton.1 hc, hclass⟩
  · by_cases hvs : v ∈ s.stack
    · have hvm := ((hsplit v).1 hvs).resolve_right hnot
      refine ⟨above ++ [b], List.mem_append_right _ (List.mem_singleton_self _), fun w => ?_⟩
      have hbv := (hclass v).1 hvm
      rw [hclass w]
      exact ⟨fun hbw => hbv.symm.trans hbw, fun hvw => hbv.trans hvw⟩
    · obtain ⟨members, hmem, hvclass⟩ := h.inv.covered v hv hvs
      exact ⟨members, List.mem_append_left _ hmem, hvclass⟩

end Root

end VisitLoop

end Visit

/-! ### All blocks -/

/-- **TarjanVisit** with enough depth visits the block. -/
theorem tarjanVisit_visited (hg : g.Linked) (hsize : g.blocks.length ≤ uint32Max)
    (depth : ℕ) (h : TarjanInv g active s) (hb : b < g.blocks.length) (hnew : ¬ s.Visited b)
    (hreach : ∀ y ∈ active, ReflTransGen g.Edge y b)
    (hdepth : g.blocks.length ≤ s.nextIndex + depth) :
    VisitPost g active b s (tarjanVisit g depth s b) := by
  induction depth generalizing active s b with
  | zero =>
    have := h.nextIndex_lt hb hnew
    omega
  | succ depth ih =>
    -- one successor of the loop
    have hstep : ∀ (done : List ℕ) (s' : TarjanState) (c : ℕ), g.Edge b c →
        VisitLoop g active b s done s' → VisitLoop g active b s (done ++ [c])
          (if s'.indexOf c = uint32Max then
            (tarjanVisit g depth s' c).lower b ((tarjanVisit g depth s' c).lowlinkOf c)
          else if s'.isOnStack c then s'.lower b (s'.indexOf c) else s') := by
      intro done s' c hbc hloop
      split_ifs with hc hon
      · have hcnew : ¬ s'.Visited c := not_not.2 hc
        refine hloop.visit h hnew hbc hcnew
          (ih hloop.inv (hg.edge_lt hbc) hcnew (fun y hy => ?_) ?_)
        · -- every active block reaches `b`
          refine (hloop.inv.activeReaches y hy b hloop.mem_stack ?_).tail hbc
          rcases List.mem_cons.1 hy with rfl | hy
          · exact le_rfl
          · have hyvis := h.stackVisited y (h.activeOnStack y hy)
            rw [hloop.keepIndex y hyvis, hloop.index]
            exact (h.indexLt y hyvis).le
        · have := hloop.next
          omega
      · exact hloop.lower h hnew hbc ((hloop.inv.onStack c).1 hon)
      · exact hloop.skip hc fun hmem => hon ((hloop.inv.onStack c).2 hmem)
    have hfold : ∀ (rest done : List ℕ) (s' : TarjanState), (∀ c ∈ rest, g.Edge b c) →
        VisitLoop g active b s done s' → VisitLoop g active b s (done ++ rest)
          (rest.foldl (fun s' c =>
            if s'.indexOf c = uint32Max then
              (tarjanVisit g depth s' c).lower b ((tarjanVisit g depth s' c).lowlinkOf c)
            else if s'.isOnStack c then s'.lower b (s'.indexOf c) else s') s') := by
      intro rest
      induction rest with
      | nil =>
        intro done s' _ hloop
        rwa [List.append_nil]
      | cons c rest ihr =>
        intro done s' hedges hloop
        have := ihr (done ++ [c]) _ (fun d hd => hedges d (List.mem_cons_of_mem _ hd))
          (hstep done s' c (hedges c List.mem_cons_self) hloop)
        rwa [List.append_assoc] at this
    have hloop := hfold (g.successorsOf b) [] (s.enter b)
      (fun c hc => hg.mem_successorsOf.1 hc) (.enter h hsize hb hnew hreach)
    rw [List.nil_append] at hloop
    rw [tarjanVisit]
    dsimp only
    split_ifs with hroot
    · exact hloop.finish hg h hroot
    · exact hloop.pop hg h (not_not.1 hroot)

/-- The state before the first visit. -/
theorem initial_inv (g : Graph) : TarjanInv g []
    { index := List.replicate g.blocks.length uint32Max
      lowlink := List.replicate g.blocks.length uint32Max
      onStack := List.replicate g.blocks.length false } := by
  have hnone : ∀ v, ¬ ({
      index := List.replicate g.blocks.length uint32Max
      lowlink := List.replicate g.blocks.length uint32Max
      onStack := List.replicate g.blocks.length false } : TarjanState).Visited v := by
    intro v
    unfold TarjanState.Visited TarjanState.indexOf
    rw [not_not, List.getElem?_replicate]
    split_ifs <;> rfl
  refine ⟨List.length_replicate, List.length_replicate, List.length_replicate, ?_, fun v => ?_,
    by simp, .nil, fun v hv => absurd hv (hnone v), by simp, by simp, by simp,
    fun v hv => absurd hv (hnone v), fun v hv => absurd hv (hnone v), by simp,
    fun v hv => absurd hv (hnone v)⟩
  · rw [List.count_replicate_self, Nat.zero_add]
  · simp only [TarjanState.isOnStack, List.not_mem_nil, iff_false]
    rw [List.getElem?_replicate]
    split_ifs <;> simp

/-- **ComputeComponents finds the strongly connected components**: every component is the
class of a block, and every block's class is one. -/
theorem tarjanComponents_spec (hg : g.Linked) (hsize : g.blocks.length ≤ uint32Max) :
    (∀ c ∈ tarjanComponents g, ∃ v members,
      v < g.blocks.length ∧ c = componentOf g members ∧ g.IsClass v members) ∧
    ∀ v < g.blocks.length, ∃ members,
      componentOf g members ∈ tarjanComponents g ∧ g.IsClass v members := by
  -- the loop over the blocks
  have hfold : ∀ (blocks : List BasicBlock) (s : TarjanState),
      (∀ block ∈ blocks, block.id < g.blocks.length) → TarjanInv g [] s →
      TarjanInv g [] (blocks.foldl (fun state block =>
        if state.indexOf block.id = uint32Max then
          tarjanVisit g g.blocks.length state block.id else state) s) ∧
      (∀ v, s.Visited v → (blocks.foldl (fun state block =>
        if state.indexOf block.id = uint32Max then
          tarjanVisit g g.blocks.length state block.id else state) s).Visited v) ∧
      ∀ block ∈ blocks, (blocks.foldl (fun state block =>
        if state.indexOf block.id = uint32Max then
          tarjanVisit g g.blocks.length state block.id else state) s).Visited block.id := by
    intro blocks
    induction blocks with
    | nil => exact fun s _ h => ⟨h, fun _ hv => hv, by simp⟩
    | cons block blocks ih =>
      intro s hids h
      have hlt := hids block List.mem_cons_self
      have hrest := fun b hb => hids b (List.mem_cons_of_mem _ hb)
      rw [List.foldl_cons]
      by_cases hnew : s.indexOf block.id = uint32Max
      · have hpost := tarjanVisit_visited hg hsize g.blocks.length h hlt
          (not_not.2 hnew) (by simp) (Nat.le_add_left _ _)
        obtain ⟨hinv, hkeep, hall⟩ := ih (tarjanVisit g g.blocks.length s block.id) hrest hpost.inv
        rw [if_pos hnew]
        refine ⟨hinv, fun v hv => hkeep v ?_, fun b hb => ?_⟩
        · unfold TarjanState.Visited
          rw [hpost.keepIndex v hv]
          exact hv
        · rcases List.mem_cons.1 hb with rfl | hb
          · exact hkeep _ hpost.visited
          · exact hall b hb
      · obtain ⟨hinv, hkeep, hall⟩ := ih s hrest h
        rw [if_neg hnew]
        refine ⟨hinv, hkeep, fun b hb => ?_⟩
        rcases List.mem_cons.1 hb with rfl | hb
        · exact hkeep _ hnew
        · exact hall b hb
  obtain ⟨hinv, -, hall⟩ := hfold g.blocks _ (fun block hblock => hg.positioned.id_lt hblock)
    (initial_inv g)
  refine ⟨hinv.components, fun v hv => hinv.covered v ?_ ?_⟩
  · have hblock := List.getElem?_eq_getElem hv
    have := hall _ (List.mem_of_getElem? hblock)
    rwa [hg.positioned v _ hblock] at this
  · -- with no active block the stack is empty
    intro hstack
    obtain ⟨y, hy, -⟩ := hinv.reachesActive v hstack
    cases hy

end Prosperismo.Cfg
