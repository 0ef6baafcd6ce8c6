import Prosperismo.Base.Flow
import Prosperismo.Cfg.Structurize

/-!
# Running a graph

The meaning of a control-flow graph: from the entry block, a run executes the
instruction range of a block and goes where its terminator says. `Graph.flow` is the
flow graph of these steps; a block with an empty range and an `Always` branch, as the
rewrites insert them, is a silent forwarder.

`Graph.Sound` is what every rewrite needs and keeps: ids are positions, every id a
block names is the id of a block, and no block ends in an indirect branch.
-/

namespace Prosperismo.Cfg

/-! ### Steps -/

/-- What a run records of a block: its instruction range and its branch condition. -/
abbrev BlockLabel := ℕ × ℕ × BranchCondition

namespace BasicBlock

/-- The label of a block. -/
def label (block : BasicBlock) : BlockLabel :=
  (block.instBegin, block.instEnd, block.terminator.condition)

/-- A block with an empty instruction range and an `Always` branch. -/
def isForwarder (block : BasicBlock) : Bool :=
  block.instBegin == block.instEnd && block.terminator.kind == .branch &&
    block.terminator.condition == .always

/-- What a run does at a block. The sides of a conditional branch are 0, taken, and 1,
not taken; those of an indirect branch are the entries of its table. -/
def node (block : BasicBlock) : FlowNode BlockLabel :=
  match block.terminator.kind with
  | .branch =>
    if block.isForwarder then .forward block.terminator.trueBlock
    else .branch block.label block.terminator.trueBlock
  | .conditionalBranch =>
    .choose block.label [block.terminator.trueBlock, block.terminator.falseBlock]
  | .indirectBranch => .choose block.label block.terminator.indirectTargets
  | .return_ | .unsupported => .halt block.label

end BasicBlock

namespace Graph

/-- The flow graph of a control-flow graph. -/
def flow (graph : Graph) (id : ℕ) : Option (FlowNode BlockLabel) :=
  (graph.findBlock id).map BasicBlock.node

/-- Walking the terminators from the entry block, with the given branch outcomes, executes
the given sequence. -/
def Runs (graph : Graph) (outcomes : List ℕ) (events : List (BlockLabel × Option ℕ)) : Prop :=
  Walk graph.flow graph.entryBlock outcomes events

end Graph

/-- The two graphs execute the same sequences. -/
def SameRuns (g g' : Graph) : Prop := ∀ outcomes events, g.Runs outcomes events ↔
  g'.Runs outcomes events

theorem SameRuns.refl (g : Graph) : SameRuns g g := fun _ _ => Iff.rfl

theorem SameRuns.trans {g g' g'' : Graph} (h : SameRuns g g') (h' : SameRuns g' g'') :
    SameRuns g g'' := fun os es => (h os es).trans (h' os es)

/-! ### Sound graphs -/

/-- Every id that a block names is below `n`, and the block does not end in an indirect
branch. -/
structure BasicBlock.Within (n : ℕ) (block : BasicBlock) : Prop where
  targets : ∀ t ∈ block.node.targets, t < n
  direct : block.terminator.kind ≠ .indirectBranch
  successors : ∀ s ∈ block.successors, s < n
  predecessors : ∀ p ∈ block.predecessors, p < n

theorem BasicBlock.Within.mono {n m : ℕ} {block : BasicBlock} (h : block.Within n)
    (hnm : n ≤ m) : block.Within m where
  targets t ht := (h.targets t ht).trans_le hnm
  direct := h.direct
  successors s hs := (h.successors s hs).trans_le hnm
  predecessors p hp := (h.predecessors p hp).trans_le hnm

/-- Ids are positions. -/
def Positioned (blocks : List BasicBlock) : Prop :=
  ∀ (i : ℕ) (block : BasicBlock), blocks[i]? = some block → block.id = i

/-- The invariant of the rewrites. -/
structure Graph.Sound (graph : Graph) : Prop where
  positioned : Positioned graph.blocks
  within : ∀ block ∈ graph.blocks, block.Within graph.blocks.length
  entry : graph.entryBlock < graph.blocks.length
  edges : ∀ edge ∈ graph.backEdges,
    edge.source < graph.blocks.length ∧ edge.target < graph.blocks.length
  loops : ∀ loop ∈ graph.naturalLoops, loop.header < graph.blocks.length

namespace Positioned

variable {blocks : List BasicBlock} {graph : Graph}

/-- Block ids are positions exactly when the list of ids is `0, 1, 2, …`. -/
theorem iff_map_id : Positioned blocks ↔ blocks.map BasicBlock.id = List.range blocks.length := by
  constructor
  · intro h
    refine List.ext_getElem? fun i => ?_
    rw [List.getElem?_map]
    rcases hi : blocks[i]? with _ | block
    · rw [Option.map_none, List.getElem?_eq_none]
      simpa using hi
    · have := (List.getElem?_eq_some_iff.1 hi).1
      rw [Option.map_some, h i block hi, List.getElem?_range this]
  · intro h i block hi
    have hlt := (List.getElem?_eq_some_iff.1 hi).1
    have := congrArg (·[i]?) h
    simpa [List.getElem?_map, hi, List.getElem?_range hlt] using this

/-- `FindBlock` looks at a position. -/
theorem blockIndex (h : Positioned graph.blocks) (id : ℕ) :
    graph.blockIndex id = if id < graph.blocks.length then some id else none := by
  unfold Graph.blockIndex
  by_cases hid : id < graph.blocks.length
  · have hb := List.getElem?_eq_getElem hid
    rw [if_pos (by rw [hb, Option.map_some, h _ _ hb]), if_pos hid]
  · rw [List.getElem?_eq_none (Nat.le_of_not_lt hid), if_neg (by simp), if_neg hid,
      List.findIdx?_eq_none_iff]
    intro block hblock
    obtain ⟨i, hi⟩ := List.getElem?_of_mem hblock
    have := (List.getElem?_eq_some_iff.1 hi).1
    rw [h i block hi]
    simpa using (by omega : i ≠ id)

theorem findBlock (h : Positioned graph.blocks) (id : ℕ) :
    graph.findBlock id = graph.blocks[id]? := by
  unfold Graph.findBlock
  rw [h.blockIndex]
  split_ifs with hid
  · rfl
  · exact (List.getElem?_eq_none (Nat.le_of_not_lt hid)).symm

theorem modifyBlock (h : Positioned graph.blocks) (id : ℕ) (f : BasicBlock → BasicBlock) :
    graph.modifyBlock id f = { graph with blocks := graph.blocks.modify id f } := by
  unfold Graph.modifyBlock
  rw [h.blockIndex]
  by_cases hid : id < graph.blocks.length
  · rw [if_pos hid]
  · rw [if_neg hid, List.modify_eq_self (Nat.le_of_not_lt hid)]

theorem flow (h : Positioned graph.blocks) (id : ℕ) :
    graph.flow id = (graph.blocks[id]?).map BasicBlock.node := by
  rw [Graph.flow, h.findBlock]

end Positioned

/-! ### Graphs with the same runs -/

/-- **The rule for the rewrites.** Every block of `g'` does what the block of `g` that it
stands for does, up to `π`, or is a new forwarder to it. -/
theorem sameRuns_of_cover {g g' : Graph} (hg : g.Sound) (hg' : g'.Sound) {π : ℕ → ℕ}
    (hfix : ∀ x < g.blocks.length, π x = x)
    (hcover : ∀ i block', g'.blocks[i]? = some block' →
      (∃ block, g.blocks[π i]? = some block ∧ block'.node.map π = block.node) ∨
      g.blocks.length ≤ i ∧ π i < g.blocks.length ∧ block'.node = .forward (π i))
    (hentry : π g'.entryBlock = g.entryBlock) : SameRuns g g' := by
  have hcovers : Covers g'.flow g.flow π (fun x => if x < g.blocks.length then 0 else 1)
      (· < g'.blocks.length) := by
    refine ⟨fun {x node} hx hnode t ht => ?_, fun {x} hx => ?_⟩
    · rw [hg'.positioned.flow] at hnode
      obtain ⟨block, hblock, rfl⟩ := Option.map_eq_some_iff.1 hnode
      exact (hg'.within block (List.mem_of_getElem? hblock)).targets t ht
    · have hblock := List.getElem?_eq_getElem hx
      rw [hg'.positioned.flow, hg.positioned.flow, hblock]
      rcases hcover x _ hblock with ⟨block, hold, hmap⟩ | ⟨hnew, hlt, hforward⟩
      · rw [hold, Option.map_some, Option.map_some, Option.map_some, hmap]
        exact .inl rfl
      · refine .inr ⟨π x, by rw [Option.map_some, hforward], hfix _ hlt, ?_⟩
        rw [if_pos hlt, if_neg (by omega)]
        exact Nat.zero_lt_one
  intro outcomes events
  rw [Graph.Runs, Graph.Runs, ← hentry]
  exact (hcovers.walk_iff hg'.entry).symm

/-- What a run sees of a graph. -/
def Graph.nodes (graph : Graph) : List (FlowNode BlockLabel) := graph.blocks.map BasicBlock.node

/-- Graphs with the same nodes and the same entry run alike. -/
theorem sameRuns_of_nodes {g g' : Graph} (hg : Positioned g.blocks) (hg' : Positioned g'.blocks)
    (hnodes : g'.nodes = g.nodes) (hentry : g'.entryBlock = g.entryBlock) : SameRuns g g' := by
  have hflow : g.flow = g'.flow := by
    funext id
    have := congrArg (·[id]?) hnodes
    simp only [Graph.nodes, List.getElem?_map] at this
    rw [hg.flow, hg'.flow, this]
  intro outcomes events
  rw [Graph.Runs, Graph.Runs, hflow, hentry]

/-! ### Changes inside the blocks -/

/-- The ids and the nodes up to a renaming. -/
def Graph.shape (π : ℕ → ℕ) (graph : Graph) : List (ℕ × FlowNode BlockLabel) :=
  graph.blocks.map fun block => (block.id, block.node.map π)

/-- `g'` is `g` with changes inside its blocks that a renaming does not see. -/
structure Reshaped (π : ℕ → ℕ) (g g' : Graph) : Prop where
  sound : g'.Sound
  shape : g'.shape π = g.shape π
  entry : g'.entryBlock = g.entryBlock

namespace Reshaped

variable {π : ℕ → ℕ} {g g' g'' : Graph}

theorem refl (h : g.Sound) : Reshaped π g g := ⟨h, rfl, rfl⟩

theorem trans (h : Reshaped π g g') (h' : Reshaped π g' g'') : Reshaped π g g'' :=
  ⟨h'.sound, h'.shape.trans h.shape, h'.entry.trans h.entry⟩

/-- Changes inside the blocks keep their number. -/
theorem length (h : Reshaped π g g') : g'.blocks.length = g.blocks.length := by
  simpa [Graph.shape] using congrArg List.length h.shape

/-- The node at a position, up to the renaming. -/
theorem node (h : Reshaped π g g') {i : ℕ} {block' : BasicBlock}
    (hi : g'.blocks[i]? = some block') :
    ∃ block, g.blocks[i]? = some block ∧ block'.node.map π = block.node.map π := by
  have := congrArg (·[i]?) h.shape
  simp only [Graph.shape, List.getElem?_map, hi, Option.map_some] at this
  obtain ⟨block, hblock, heq⟩ := Option.map_eq_some_iff.1 this.symm
  exact ⟨block, hblock, (Prod.ext_iff.1 heq).2.symm⟩

end Reshaped

/-- A change of one block that keeps its id, its node up to `π`, and the bound on the ids it
names. -/
structure Harmless (π : ℕ → ℕ) (n : ℕ) (f : BasicBlock → BasicBlock) : Prop where
  id : ∀ block, (f block).id = block.id
  node : ∀ block, (f block).node.map π = block.node.map π
  within : ∀ block, block.Within n → (f block).Within n

/-- Harmless changes reshape the graph. -/
theorem Harmless.reshaped {π : ℕ → ℕ} {g : Graph} {n : ℕ} {f : BasicBlock → BasicBlock}
    (hf : Harmless π n f) (hg : g.Sound) (hn : g.blocks.length = n) (id : ℕ) :
    Reshaped π g (g.modifyBlock id f) := by
  subst hn
  rw [hg.positioned.modifyBlock]
  have hget : ∀ i, (g.blocks.modify id f)[i]? =
      (g.blocks[i]?).map fun block => if id = i then f block else block := by
    intro i
    rw [List.getElem?_modify]
    split_ifs <;> simp [*]
  refine ⟨⟨?_, ?_, ?_, ?_, ?_⟩, ?_, rfl⟩
  · intro i block hi
    rw [hget] at hi
    obtain ⟨old, hold, rfl⟩ := Option.map_eq_some_iff.1 hi
    split_ifs
    · rw [hf.id, hg.positioned i old hold]
    · exact hg.positioned i old hold
  · intro block hblock
    obtain ⟨i, hi⟩ := List.getElem?_of_mem hblock
    rw [hget] at hi
    obtain ⟨old, hold, rfl⟩ := Option.map_eq_some_iff.1 hi
    have hwithin := hg.within old (List.mem_of_getElem? hold)
    rw [List.length_modify]
    split_ifs
    · exact hf.within old hwithin
    · exact hwithin
  · simpa using hg.entry
  · simpa using hg.edges
  · simpa using hg.loops
  · refine List.ext_getElem? fun i => ?_
    simp only [Graph.shape, List.getElem?_map, hget, Option.map_map]
    refine congrArg (Option.map · _) (funext fun block => ?_)
    simp only [Function.comp_apply]
    split_ifs
    · rw [hf.id, hf.node]
    · rfl

/-- Several harmless changes. -/
theorem Harmless.reshaped_foldl {π : ℕ → ℕ} {f : BasicBlock → BasicBlock} {g : Graph} {n : ℕ}
    (hf : Harmless π n f) (hg : g.Sound) (hn : g.blocks.length = n) (ids : List ℕ) :
    Reshaped π g (ids.foldl (fun graph id => graph.modifyBlock id f) g) := by
  induction ids generalizing g with
  | nil => exact .refl hg
  | cons id ids ih =>
    have hstep := hf.reshaped hg hn id
    exact hstep.trans (ih hstep.sound (hstep.length.trans hn))

/-- Blocks that are not changed stay. -/
theorem getElem?_modifyBlock {f : BasicBlock → BasicBlock} {g : Graph} (hg : g.Sound)
    {id i : ℕ} (hi : i ≠ id) : (g.modifyBlock id f).blocks[i]? = g.blocks[i]? := by
  rw [hg.positioned.modifyBlock]
  exact List.getElem?_modify_ne _ _ hi.symm

/-- A changed block. -/
theorem getElem?_modifyBlock_self {f : BasicBlock → BasicBlock} {g : Graph} (hg : g.Sound)
    (id : ℕ) : (g.modifyBlock id f).blocks[id]? = (g.blocks[id]?).map f := by
  rw [hg.positioned.modifyBlock]
  exact List.getElem?_modify_eq _ _ _

theorem getElem?_foldl_modifyBlock {π : ℕ → ℕ} {f : BasicBlock → BasicBlock} {g : Graph} {n : ℕ}
    (hf : Harmless π n f) (hg : g.Sound) (hn : g.blocks.length = n) {ids : List ℕ} {i : ℕ}
    (hi : i ∉ ids) :
    (ids.foldl (fun graph id => graph.modifyBlock id f) g).blocks[i]? = g.blocks[i]? := by
  induction ids generalizing g with
  | nil => rfl
  | cons id ids ih =>
    rw [List.mem_cons, not_or] at hi
    have hstep := hf.reshaped hg hn id
    rw [List.foldl_cons, ih hstep.sound (hstep.length.trans hn) hi.2, getElem?_modifyBlock hg hi.1]

end Prosperismo.Cfg
