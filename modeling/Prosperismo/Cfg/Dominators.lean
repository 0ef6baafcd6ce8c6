import Prosperismo.Base.Digraph
import Prosperismo.Cfg.Sweeps

/-!
# Dominators

The flow relation of a graph (`Graph.Edge`) and what `ComputeDominators` computes over
it: the dominators of a block are the blocks on every path to it from the entry or from
a block without predecessors (`dominates_iff`). A block that no path reaches keeps all
blocks as its dominators.
-/

namespace Prosperismo.Cfg

variable {g : Graph}

/-! ### The flow relation -/

/-- `b` is a successor of `a`, in a list of blocks. -/
def EdgeIn (blocks : List BasicBlock) (a b : ℕ) : Prop :=
  ∃ block, blocks[a]? = some block ∧ b ∈ block.successors

/-- `b` is a successor of `a`. -/
def Graph.Edge (graph : Graph) (a b : ℕ) : Prop := EdgeIn graph.blocks a b

/-- Where paths begin: the entry, and the blocks without predecessors. -/
def RootIn (blocks : List BasicBlock) (entryBlock r : ℕ) : Prop :=
  r < blocks.length ∧ (r = entryBlock ∨ ∀ p, ¬ EdgeIn blocks p r)

/-- Where the paths of a graph begin. -/
def Graph.Root (graph : Graph) (r : ℕ) : Prop := RootIn graph.blocks graph.entryBlock r

/-- A graph whose ids are positions, whose successors are blocks, and whose predecessor
lists mirror its successor lists. -/
structure Graph.Linked (graph : Graph) : Prop where
  positioned : Positioned graph.blocks
  successors : ∀ block ∈ graph.blocks, ∀ s ∈ block.successors, s < graph.blocks.length
  predecessors : ∀ (i : ℕ) (block : BasicBlock), graph.blocks[i]? = some block →
    ∀ p, p ∈ block.predecessors ↔ graph.Edge p i

theorem Graph.Edge.lt {a b : ℕ} (h : g.Edge a b) : a < g.blocks.length := by
  obtain ⟨block, hblock, -⟩ := h
  exact (List.getElem?_eq_some_iff.1 hblock).1

theorem Graph.Linked.edge_lt (h : g.Linked) {a b : ℕ} (hab : g.Edge a b) :
    b < g.blocks.length := by
  obtain ⟨block, hblock, hb⟩ := hab
  exact h.successors block (List.mem_of_getElem? hblock) b hb

/-! ### Rebuilt predecessors -/

/-- The predecessors at a position. -/
def predecessorsAt (blocks : List BasicBlock) (i : ℕ) : List ℕ :=
  ((blocks[i]?).map BasicBlock.predecessors).getD []

theorem mem_predecessorsAt_modify {blocks : List BasicBlock} {succ id i p : ℕ} :
    p ∈ predecessorsAt (blocks.modify succ fun b =>
        { b with predecessors := addUnique b.predecessors id }) i ↔
      p ∈ predecessorsAt blocks i ∨ i < blocks.length ∧ i = succ ∧ p = id := by
  unfold predecessorsAt
  rw [List.getElem?_modify]
  by_cases hi : i < blocks.length
  · rw [List.getElem?_eq_getElem hi]
    by_cases hs : succ = i
    · simp [hs, mem_addUnique, hi]
    · simp [hs, hi, Ne.symm hs]
  · simp [hi]

/-- The predecessor loop of one block. -/
theorem mem_predecessorsAt_foldl_modify {succs : List ℕ} {blocks : List BasicBlock}
    {id i p : ℕ} :
    p ∈ predecessorsAt (succs.foldl (fun acc succ => acc.modify succ fun b =>
        { b with predecessors := addUnique b.predecessors id }) blocks) i ↔
      p ∈ predecessorsAt blocks i ∨ i < blocks.length ∧ i ∈ succs ∧ p = id := by
  induction succs generalizing blocks with
  | nil => simp
  | cons succ succs ih =>
    rw [List.foldl_cons, ih, mem_predecessorsAt_modify, List.length_modify, List.mem_cons]
    tauto

/-- The predecessor loops. -/
theorem mem_predecessorsAt_addPredecessors {blocks : List BasicBlock} {i p : ℕ} :
    p ∈ predecessorsAt (addPredecessors blocks) i ↔
      p ∈ predecessorsAt blocks i ∨
        i < blocks.length ∧ ∃ block ∈ blocks, i ∈ block.successors ∧ p = block.id := by
  have hlen : ∀ (succs : List ℕ) (acc : List BasicBlock) (id : ℕ),
      (succs.foldl (fun acc succ => acc.modify succ fun b =>
        { b with predecessors := addUnique b.predecessors id }) acc).length = acc.length := by
    intro succs
    induction succs with
    | nil => exact fun _ _ => rfl
    | cons succ succs ih =>
      intro acc id
      rw [List.foldl_cons, ih, List.length_modify]
  have hfold : ∀ (bs acc : List BasicBlock),
      p ∈ predecessorsAt (bs.foldl (fun acc block => block.successors.foldl (fun acc succ =>
        acc.modify succ fun b => { b with predecessors := addUnique b.predecessors block.id })
        acc) acc) i ↔
      p ∈ predecessorsAt acc i ∨
        i < acc.length ∧ ∃ block ∈ bs, i ∈ block.successors ∧ p = block.id := by
    intro bs
    induction bs with
    | nil => simp
    | cons block bs ih =>
      intro acc
      rw [List.foldl_cons, ih, mem_predecessorsAt_foldl_modify, hlen, List.exists_mem_cons_iff]
      tauto
  exact hfold blocks blocks

/-- Blocks that agree on their successors have the same edges. -/
theorem edgeIn_congr {blocks blocks' : List BasicBlock}
    (h : blocks'.map BasicBlock.successors = blocks.map BasicBlock.successors) :
    EdgeIn blocks' = EdgeIn blocks := by
  funext a b
  have hget := congrArg (·[a]?) h
  simp only [List.getElem?_map] at hget
  refine propext ⟨?_, ?_⟩
  · rintro ⟨block, hblock, hb⟩
    rw [hblock] at hget
    obtain ⟨old, hold, heq⟩ := Option.map_eq_some_iff.1 hget.symm
    exact ⟨old, hold, heq ▸ hb⟩
  · rintro ⟨block, hblock, hb⟩
    rw [hblock] at hget
    obtain ⟨new, hnew, heq⟩ := Option.map_eq_some_iff.1 hget
    exact ⟨new, hnew, heq ▸ hb⟩

/-- Ids are positions, and successors are blocks. -/
structure Graph.Placed (graph : Graph) : Prop where
  positioned : Positioned graph.blocks
  successors : ∀ block ∈ graph.blocks, ∀ s ∈ block.successors, s < graph.blocks.length

theorem Graph.Sound.placed (hg : g.Sound) : g.Placed :=
  ⟨hg.positioned, fun block hblock => (hg.within block hblock).successors⟩

/-- **Rebuilt predecessors** mirror the successors. -/
theorem rebuildPredecessors_linked_of_placed (hg : g.Placed) : (rebuildPredecessors g).Linked := by
  have hrebuilt : ∀ (i : ℕ) (block' : BasicBlock), (rebuildPredecessors g).blocks[i]? = some block' →
      ∃ block, g.blocks[i]? = some block ∧ block'.id = block.id ∧
        block'.successors = sortUnique block.successors := by
    intro i block' hi
    obtain ⟨block, hblock, -, heq⟩ := rebuildPredecessors_getElem? hg.positioned hi
    exact ⟨block, hblock, (congrArg BasicBlock.id heq :), (congrArg BasicBlock.successors heq :)⟩
  refine ⟨fun i block' hi => ?_, fun block' hblock' s hs => ?_, fun i block' hi p => ?_⟩
  · obtain ⟨block, hblock, hid, -⟩ := hrebuilt i block' hi
    exact hid.trans (hg.positioned i block hblock)
  · obtain ⟨i, hi⟩ := List.getElem?_of_mem hblock'
    obtain ⟨block, hblock, -, hsuccs⟩ := hrebuilt i block' hi
    rw [rebuildPredecessors_length hg.positioned]
    rw [hsuccs, mem_sortUnique] at hs
    exact hg.successors block (List.mem_of_getElem? hblock) s hs
  have hblocks : (rebuildPredecessors g).blocks =
      (addPredecessors (g.blocks.map BasicBlock.cleared)).map fun block =>
        { block with predecessors := sortUnique block.predecessors } := rfl
  -- the predecessors that the loops add
  have hadded : p ∈ block'.predecessors ↔
      p ∈ predecessorsAt (addPredecessors (g.blocks.map BasicBlock.cleared)) i := by
    rw [hblocks, List.getElem?_map] at hi
    obtain ⟨added, hadd, rfl⟩ := Option.map_eq_some_iff.1 hi
    simp [predecessorsAt, hadd, mem_sortUnique]
  have hlt : i < g.blocks.length :=
    rebuildPredecessors_length hg.positioned ▸ (List.getElem?_eq_some_iff.1 hi).1
  have hnone : p ∉ predecessorsAt (g.blocks.map BasicBlock.cleared) i := by
    simp [predecessorsAt, List.getElem?_eq_getElem hlt, BasicBlock.cleared]
  rw [hadded, mem_predecessorsAt_addPredecessors, List.length_map]
  constructor
  · rintro (hp | ⟨-, block, hblock, hsucc, rfl⟩)
    · exact absurd hp hnone
    · obtain ⟨old, hold, heq⟩ := List.mem_map.1 hblock
      obtain ⟨j, hj⟩ := List.getElem?_of_mem hold
      have hid : block.id = j := (congrArg BasicBlock.id heq).symm.trans (hg.positioned j old hj)
      have hj' : j < (rebuildPredecessors g).blocks.length := by
        rw [rebuildPredecessors_length hg.positioned]
        exact (List.getElem?_eq_some_iff.1 hj).1
      obtain ⟨block₂, hblock₂, -, heq₂⟩ :=
        rebuildPredecessors_getElem? hg.positioned (List.getElem?_eq_getElem hj')
      obtain rfl : block₂ = old := Option.some_inj.1 (hblock₂.symm.trans hj)
      refine ⟨(rebuildPredecessors g).blocks[j], ?_, ?_⟩
      · rw [hid]
        exact List.getElem?_eq_getElem hj'
      have hsuccs : (rebuildPredecessors g).blocks[j].successors = block₂.cleared.successors :=
        (congrArg BasicBlock.successors heq₂ :)
      rw [hsuccs, heq]
      exact hsucc
  · rintro ⟨block, hblock, hsucc⟩
    obtain ⟨old, hold, -, heq⟩ := rebuildPredecessors_getElem? hg.positioned hblock
    have hsuccs : block.successors = old.cleared.successors :=
      (congrArg BasicBlock.successors heq :)
    refine .inr ⟨hlt, old.cleared, List.mem_map.2 ⟨old, List.mem_of_getElem? hold, rfl⟩,
      hsuccs ▸ hsucc, ?_⟩
    exact (hg.positioned p old hold).symm

theorem rebuildPredecessors_linked (hg : g.Sound) : (rebuildPredecessors g).Linked :=
  rebuildPredecessors_linked_of_placed hg.placed

/-! ### The sweeps of ComputeDominators -/

/-- The initial sets of `ComputeDominators`. -/
def initialDominators (graph : Graph) : BlockSets :=
  graph.blocks.map fun block =>
    if block.id = graph.entryBlock then [block.id] else List.range graph.blocks.length

/-- The sets `ComputeDominators` ends with. -/
def dominatorSets (graph : Graph) : BlockSets :=
  sweepUntilStable (nextDominators graph) (sweepRounds graph.blocks.length)
    (initialDominators graph)

theorem nextDominators_monotonic (graph : Graph) : Monotonic (nextDominators graph) := by
  refine ⟨fun {sets} hsorted i => ?_, fun {sets sets'} hsub i x hx => ?_⟩
  · unfold nextDominators
    dsimp only
    split_ifs
    · exact hsorted i
    · exact meetNeighbours_pairwise _ _ _
  · unfold nextDominators at hx ⊢
    dsimp only at hx ⊢
    split_ifs at hx ⊢
    · exact hsub i x hx
    · rw [mem_meetNeighbours] at hx ⊢
      exact hx.imp_right fun h => ⟨h.1, fun n hn => hsub n x (h.2 n hn)⟩

section

variable (hg : g.Linked)
include hg

/-- The next set of a block that is not the entry. -/
theorem nextDominators_of_ne {sets : BlockSets} {i : ℕ} (hi : i < g.blocks.length)
    (hne : i ≠ g.entryBlock) :
    nextDominators g sets i = meetNeighbours sets g.blocks[i].predecessors i := by
  have hid : g.blocks[i].id = i := hg.positioned i _ (List.getElem?_eq_getElem hi)
  unfold nextDominators Graph.blockAt
  rw [List.getElem?_eq_getElem hi, Option.getD_some]
  dsimp only
  rw [hid, if_neg hne]

/-- The entry keeps its set. -/
theorem nextDominators_entry {sets : BlockSets} (hi : g.entryBlock < g.blocks.length) :
    nextDominators g sets g.entryBlock = setAt sets g.entryBlock := by
  have hid := hg.positioned _ _ (List.getElem?_eq_getElem hi)
  unfold nextDominators Graph.blockAt
  rw [List.getElem?_eq_getElem hi, Option.getD_some]
  dsimp only
  rw [hid, if_pos rfl]
  rfl

theorem setAt_initialDominators {i : ℕ} (hi : i < g.blocks.length) :
    setAt (initialDominators g) i =
      if i = g.entryBlock then [i] else List.range g.blocks.length := by
  have hid := hg.positioned i _ (List.getElem?_eq_getElem hi)
  rw [setAt, initialDominators, List.getElem?_map, List.getElem?_eq_getElem hi,
    Option.map_some, Option.getD_some, hid]

/-- No set holds an id that is not the id of a block. -/
theorem lt_of_mem_initialDominators {i x : ℕ} (hx : x ∈ setAt (initialDominators g) i) :
    x < g.blocks.length := by
  by_cases hi : i < g.blocks.length
  · rw [setAt_initialDominators hg hi] at hx
    split_ifs at hx
    · rw [List.mem_singleton.1 hx]
      exact hi
    · exact List.mem_range.1 hx
  · rw [setAt, initialDominators, List.getElem?_eq_none (by simpa using hi)] at hx
    cases hx

/-- The initial sets can only shrink. -/
theorem initialDominators_descending : Descending (nextDominators g) (initialDominators g) := by
  refine ⟨fun i => ?_, fun i hi x hx => ?_⟩
  · by_cases hi : i < g.blocks.length
    · rw [setAt_initialDominators hg hi]
      split_ifs
      · exact List.pairwise_singleton _ _
      · exact List.pairwise_lt_range
    · rw [setAt, initialDominators, List.getElem?_eq_none (by simpa using hi)]
      exact .nil
  · rw [initialDominators, List.length_map] at hi
    by_cases hne : i = g.entryBlock
    · subst hne
      rwa [nextDominators_entry hg hi] at hx
    · rw [setAt_initialDominators hg hi, if_neg hne, List.mem_range]
      rw [nextDominators_of_ne hg hi hne, mem_meetNeighbours] at hx
      rcases hx with rfl | ⟨hpreds, hall⟩
      · exact hi
      · obtain ⟨p, hp⟩ := List.exists_mem_of_ne_nil _ hpreds
        exact lt_of_mem_initialDominators hg (hall p hp)

/-- The bound on the sweeps is large enough. -/
theorem dominatorSets_stable : Stable (nextDominators g) (dominatorSets g) := by
  refine sweepUntilStable_stable (nextDominators_monotonic g)
    (initialDominators_descending hg) ?_
  have hle : ∀ set ∈ initialDominators g, set.length ≤ g.blocks.length := by
    intro set hset
    obtain ⟨block, hblock, rfl⟩ := List.mem_map.1 hset
    split_ifs
    · exact List.length_pos_of_mem hblock
    · exact (List.length_range).le
  have hsize := totalSize_le hle
  rw [initialDominators, List.length_map] at hsize
  exact Nat.lt_succ_of_le hsize

/-- The entry's dominators are the entry. -/
theorem setAt_dominatorSets_entry (hi : g.entryBlock < g.blocks.length) :
    setAt (dominatorSets g) g.entryBlock = [g.entryBlock] := by
  refine sweepUntilStable_induction _
    (I := fun sets => setAt sets g.entryBlock = [g.entryBlock]) (fun sets hsets i hlt => ?_) _ ?_
  · rw [setAt_set hlt]
    split_ifs with heq
    · rw [← heq, nextDominators_entry hg hi, hsets]
    · exact hsets
  · rw [setAt_initialDominators hg hi, if_pos rfl]

/-- The sets hold ids of blocks. -/
theorem lt_of_mem_dominatorSets {i x : ℕ} (hx : x ∈ setAt (dominatorSets g) i) :
    x < g.blocks.length := by
  have hall := sweepUntilStable_induction (nextDominators g)
    (I := fun sets => sets.length = g.blocks.length ∧
      ∀ i, ∀ x ∈ setAt sets i, x < g.blocks.length)
    (fun sets ⟨hlen, hsets⟩ i hi => ⟨by rw [List.length_set, hlen], fun j x hx => ?_⟩)
    (sweepRounds g.blocks.length)
    (⟨by rw [initialDominators, List.length_map],
      fun i x hx => lt_of_mem_initialDominators hg hx⟩ :
      (initialDominators g).length = g.blocks.length ∧ _)
  · exact hall.2 i x hx
  · rw [setAt_set hi] at hx
    split_ifs at hx
    · by_cases hne : i = g.entryBlock
      · subst hne
        rw [nextDominators_entry hg (hlen ▸ hi)] at hx
        exact hsets _ x hx
      · rw [nextDominators_of_ne hg (hlen ▸ hi) hne, mem_meetNeighbours] at hx
        rcases hx with rfl | ⟨hpreds, hmem⟩
        · exact hlen ▸ hi
        · obtain ⟨q, hq⟩ := List.exists_mem_of_ne_nil _ hpreds
          exact hsets q x (hmem q hq)
    · exact hsets j x hx

/-- **Soundness.** A computed dominator lies on every path. -/
theorem mem_path_of_mem_dominatorSets {d b : ℕ} {p : List ℕ}
    (hp : PathTo g.Edge g.Root p b) (hd : d ∈ setAt (dominatorSets g) b) : d ∈ p := by
  have hlen : (dominatorSets g).length = g.blocks.length := by
    rw [dominatorSets, length_sweepUntilStable, initialDominators, List.length_map]
  have hstable := dominatorSets_stable hg
  have hstep : ∀ {i}, i < g.blocks.length → d ∈ setAt (dominatorSets g) i → d = i ∨
      i ≠ g.entryBlock ∧ (∃ p, g.Edge p i) ∧
        ∀ p, g.Edge p i → d ∈ setAt (dominatorSets g) p := by
    intro i hi hdi
    by_cases hne : i = g.entryBlock
    · subst hne
      rw [setAt_dominatorSets_entry hg hi] at hdi
      exact .inl (List.mem_singleton.1 hdi)
    · rw [← hstable i (hlen ▸ hi), nextDominators_of_ne hg hi hne, mem_meetNeighbours] at hdi
      have hpreds := hg.predecessors i _ (List.getElem?_eq_getElem hi)
      refine hdi.imp_right fun h => ⟨hne, ?_, fun q hq => h.2 q ((hpreds q).2 hq)⟩
      obtain ⟨q, hq⟩ := List.exists_mem_of_ne_nil _ h.1
      exact ⟨q, (hpreds q).1 hq⟩
  induction hp with
  | @root r hr =>
    rcases hstep hr.1 hd with rfl | ⟨hne, ⟨q, hq⟩, -⟩
    · exact List.mem_cons_self
    · exact absurd hq (hr.2.resolve_left hne q)
  | step _ hab ih =>
    rcases hstep (hg.edge_lt hab) hd with rfl | ⟨-, -, hall⟩
    · exact List.mem_cons_self
    · exact List.mem_cons_of_mem _ (ih (hall _ hab))

/-- **Completeness.** A block on every path is a computed dominator. -/
theorem mem_dominatorSets_of_dominates {d b : ℕ} (hd : d < g.blocks.length)
    (hb : b < g.blocks.length) (h : Dominates g.Edge g.Root d b) :
    d ∈ setAt (dominatorSets g) b := by
  refine sweepUntilStable_contains (nextDominators g)
    (T := fun i x => i < g.blocks.length ∧ x < g.blocks.length ∧ Dominates g.Edge g.Root x i)
    ?_ _ ?_ b d ⟨hb, hd, h⟩
  · rintro sets hsets i x ⟨hi, hx, hdom⟩
    by_cases hne : i = g.entryBlock
    · subst hne
      rw [nextDominators_entry hg hi]
      exact hsets _ x ⟨hi, hx, hdom⟩
    · rw [nextDominators_of_ne hg hi hne, mem_meetNeighbours]
      have hpreds := hg.predecessors i _ (List.getElem?_eq_getElem hi)
      by_cases hxi : x = i
      · exact .inl hxi
      · refine .inr ⟨fun hnil => hxi ?_, fun q hq => hsets q x ⟨?_, hx, fun p hp => ?_⟩⟩
        · -- without predecessors the block is a root, and its own path has only itself
          have hroot : g.Root i := ⟨hi, .inr fun q hq => by
            have := (hpreds q).2 hq
            rw [hnil] at this
            cases this⟩
          exact List.mem_singleton.1 (hdom _ (.root hroot))
        · exact ((hpreds q).1 hq).lt
        · exact (List.mem_cons.1 (hdom _ (hp.step ((hpreds q).1 hq)))).resolve_left hxi
  · rintro i x ⟨hi, hx, hdom⟩
    rw [setAt_initialDominators hg hi]
    split_ifs with heq
    · have hroot : g.Root i := ⟨hi, .inl heq⟩
      exact hdom _ (.root hroot)
    · exact List.mem_range.2 hx

end

/-- The dominators that `ComputeDominators` writes. -/
theorem computeDominators_getElem? (graph : Graph) (i : ℕ) :
    (computeDominators graph).blocks[i]? = (graph.blocks[i]?).bind fun block =>
      ((dominatorSets graph)[i]?).map fun set => { block with dominators := set } := by
  have hdef : (computeDominators graph).blocks = List.zipWith
      (fun block set => { block with dominators := set }) graph.blocks (dominatorSets graph) := rfl
  rw [hdef, List.getElem?_zipWith]
  cases graph.blocks[i]? with
  | none => rfl
  | some block => cases (dominatorSets graph)[i]? <;> rfl

/-- **ComputeDominators.** The dominators of a block are the blocks on every path to it from
the entry or from a block without predecessors. -/
theorem mem_dominators_iff (hg : g.Linked) {i d : ℕ} {block : BasicBlock}
    (hi : (computeDominators g).blocks[i]? = some block) :
    d ∈ block.dominators ↔ d < g.blocks.length ∧ Dominates g.Edge g.Root d i := by
  rw [computeDominators_getElem?] at hi
  obtain ⟨old, hold, hi⟩ := Option.bind_eq_some_iff.1 hi
  obtain ⟨set, hset, rfl⟩ := Option.map_eq_some_iff.1 hi
  have hlt := (List.getElem?_eq_some_iff.1 hold).1
  have heq : setAt (dominatorSets g) i = set := by rw [setAt, hset, Option.getD_some]
  constructor
  · intro hd
    exact ⟨lt_of_mem_dominatorSets hg (heq ▸ hd),
      fun p hp => mem_path_of_mem_dominatorSets hg hp (heq ▸ hd)⟩
  · rintro ⟨hd, hdom⟩
    exact heq ▸ mem_dominatorSets_of_dominates hg hd hlt hdom

end Prosperismo.Cfg
