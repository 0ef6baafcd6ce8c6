import Prosperismo.Cfg.Keeps
import Mathlib.Data.List.Induction

/-!
# Appending, redirecting and moving blocks

Every rewrite appends forwarders or clones, redirects edges to them, and moves them to
their place. Redirecting an edge to a block that stands for the old target is harmless
(`harmless_redirect`, `harmless_remap`); moving a block renumbers the graph by a
permutation, so a run does not notice it (`moveBlockBefore_spec`).
-/

namespace Prosperismo.Cfg

variable {g : Graph}

/-! ### Appending -/

/-- A block can be appended when its id is its position. -/
theorem Graph.Sound.append (hg : g.Sound) {block : BasicBlock} (hid : block.id = g.blocks.length)
    (hblock : block.Within (g.blocks.length + 1)) :
    ({ g with blocks := g.blocks ++ [block] } : Graph).Sound := by
  refine ⟨?_, ?_, ?_, ?_, ?_⟩
  · intro i b hi
    by_cases hlt : i < g.blocks.length
    · exact hg.positioned i b (by rwa [List.getElem?_append_left hlt] at hi)
    · have hle := (List.getElem?_eq_some_iff.1 hi).1
      rw [List.length_append, List.length_singleton] at hle
      obtain rfl : i = g.blocks.length := by omega
      obtain rfl : block = b := by simpa using hi
      exact hid
  · intro b hb
    rw [List.length_append, List.length_singleton]
    rcases List.mem_append.1 hb with hb | hb
    · exact (hg.within b hb).mono (Nat.le_succ _)
    · rwa [List.mem_singleton.1 hb]
  · exact hg.entry.trans_le (by simp)
  · exact fun e he => ⟨(hg.edges e he).1.trans_le (by simp), (hg.edges e he).2.trans_le (by simp)⟩
  · exact fun l hl => (hg.loops l hl).trans_le (by simp)

/-- The appended forwarder only forwards. -/
theorem node_syntheticBranchBlock (target : ℕ) :
    (syntheticBranchBlock g target).node = .forward target := by
  simp [syntheticBranchBlock, BasicBlock.node, BasicBlock.isForwarder]

theorem appendSyntheticBranchBlock_sound (hg : g.Sound) {target : ℕ}
    (ht : target < g.blocks.length) : (appendSyntheticBranchBlock g target).Sound := by
  refine hg.append rfl ⟨?_, by simp [syntheticBranchBlock], ?_, ?_⟩
  · rw [node_syntheticBranchBlock]
    simpa [FlowNode.targets] using Nat.lt_succ_of_lt ht
  · simpa [syntheticBranchBlock] using Nat.lt_succ_of_lt ht
  · simp [syntheticBranchBlock]

@[simp] theorem appendSyntheticBranchBlock_length (target : ℕ) :
    (appendSyntheticBranchBlock g target).blocks.length = g.blocks.length + 1 := by
  simp [appendSyntheticBranchBlock]

/-! ### Redirecting -/

theorem mem_replaceValue {values : List ℕ} {oldValue newValue x : ℕ}
    (h : x ∈ replaceValue values oldValue newValue) : x ∈ values ∨ x = newValue := by
  unfold replaceValue at h
  split_ifs at h
  · rw [mem_sortUnique, List.mem_map] at h
    obtain ⟨value, hvalue, rfl⟩ := h
    split_ifs
    · exact .inr rfl
    · exact .inl hvalue
  · exact .inl h

/-- Redirecting renames the targets of a direct terminator. -/
theorem node_redirectBlock (oldTarget newTarget : ℕ) {block : BasicBlock}
    (h : block.terminator.kind ≠ .indirectBranch) :
    (redirectBlock oldTarget newTarget block).node =
      block.node.map fun t => if t = oldTarget then newTarget else t := by
  unfold BasicBlock.node
  cases hkind : block.terminator.kind with
  | indirectBranch => exact absurd hkind h
  | branch =>
    simp only [redirectBlock, replaceTerminatorTarget, hkind, BasicBlock.isForwarder,
      BasicBlock.label]
    split_ifs <;> simp_all [FlowNode.map]
  | conditionalBranch =>
    simp [redirectBlock, replaceTerminatorTarget, hkind, FlowNode.map, BasicBlock.label]
  | return_ => simp [redirectBlock, replaceTerminatorTarget, hkind, FlowNode.map, BasicBlock.label]
  | unsupported =>
    simp [redirectBlock, replaceTerminatorTarget, hkind, FlowNode.map, BasicBlock.label]

/-- An indirect branch is not redirected. -/
theorem node_redirectBlock_indirect (oldTarget newTarget : ℕ) {block : BasicBlock}
    (h : block.terminator.kind = .indirectBranch) :
    (redirectBlock oldTarget newTarget block).node = block.node := by
  simp [BasicBlock.node, redirectBlock, replaceTerminatorTarget, h, BasicBlock.label]

/-- **Redirecting** an edge within the blocks that stand for one old block is harmless. -/
theorem harmless_redirect {π : ℕ → ℕ} {n oldTarget newTarget : ℕ}
    (hπ : π newTarget = π oldTarget) (hnew : newTarget < n) :
    Harmless π n (redirectBlock oldTarget newTarget) := by
  refine ⟨fun _ => rfl, fun block => ?_, fun block hblock => ⟨?_, hblock.direct, ?_,
    hblock.predecessors⟩⟩
  · by_cases hkind : block.terminator.kind = .indirectBranch
    · rw [node_redirectBlock_indirect _ _ hkind]
    · rw [node_redirectBlock _ _ hkind, FlowNode.map_map]
      refine FlowNode.map_congr fun t _ => ?_
      rw [Function.comp_apply]
      split_ifs with h
      · rw [h, hπ]
      · rfl
  · rw [node_redirectBlock _ _ hblock.direct, FlowNode.targets_map]
    intro t ht
    obtain ⟨old, hold, rfl⟩ := List.mem_map.1 ht
    split_ifs
    · exact hnew
    · exact hblock.targets old hold
  · intro s hs
    rcases mem_replaceValue hs with hs | rfl
    · exact hblock.successors s hs
    · exact hnew

/-- Writing the predecessors of a block is harmless. -/
theorem harmless_predecessors {π : ℕ → ℕ} {n : ℕ} {write : BasicBlock → List ℕ}
    (hwrite : ∀ block, (∀ p ∈ block.predecessors, p < n) → ∀ p ∈ write block, p < n) :
    Harmless π n fun block => { block with predecessors := write block } :=
  ⟨fun _ => rfl, fun _ => rfl,
    fun block h => ⟨h.targets, h.direct, h.successors, hwrite block h.predecessors⟩⟩

/-- Remapping renames the targets. -/
theorem node_remapToClones (clonedBlocks : List ℕ) (firstClone : ℕ) (block : BasicBlock) :
    (remapToClones clonedBlocks firstClone block).node =
      block.node.map (cloneOf clonedBlocks firstClone) := by
  unfold BasicBlock.node
  cases hkind : block.terminator.kind with
  | branch =>
    simp only [remapToClones, hkind, BasicBlock.isForwarder, BasicBlock.label]
    split_ifs <;> rfl
  | conditionalBranch => simp [remapToClones, hkind, FlowNode.map, BasicBlock.label]
  | indirectBranch => simp [remapToClones, hkind, FlowNode.map, BasicBlock.label]
  | return_ => simp [remapToClones, hkind, FlowNode.map, BasicBlock.label]
  | unsupported => simp [remapToClones, hkind, FlowNode.map, BasicBlock.label]

/-- **Remapping** to clones is harmless when the clones stand for what they are clones of. -/
theorem harmless_remap {π : ℕ → ℕ} {n : ℕ} {clonedBlocks : List ℕ} {firstClone : ℕ}
    (hπ : ∀ t, π (cloneOf clonedBlocks firstClone t) = π t)
    (hlt : ∀ t < n, cloneOf clonedBlocks firstClone t < n) :
    Harmless π n (remapToClones clonedBlocks firstClone) := by
  refine ⟨fun _ => rfl, fun block => ?_, fun block hblock => ⟨?_, hblock.direct, ?_,
    hblock.predecessors⟩⟩
  · rw [node_remapToClones, FlowNode.map_map]
    exact FlowNode.map_congr fun t _ => hπ t
  · rw [node_remapToClones, FlowNode.targets_map]
    intro t ht
    obtain ⟨old, hold, rfl⟩ := List.mem_map.1 ht
    exact hlt old (hblock.targets old hold)
  · intro s hs
    obtain ⟨old, hold, rfl⟩ := List.mem_map.1 hs
    exact hlt old (hblock.successors old hold)

/-! ### Moving -/

theorem flatMap_range_single {α : Type} (l : List α) (p n : ℕ) :
    ((List.range n).flatMap fun i => if i = p then l else []) = if p < n then l else [] := by
  induction n with
  | zero => rfl
  | succ n ih =>
    rw [List.range_succ, List.flatMap_append, ih, List.flatMap_singleton]
    by_cases hp : n = p
    · rw [if_pos hp, if_neg (by omega), if_pos (by omega), List.nil_append]
    · rw [if_neg hp, List.append_nil]
      exact if_congr (by omega) rfl rfl

/-- The blocks, position by position. -/
theorem flatMap_range_getElem? {α : Type} (l : List α) :
    ((List.range l.length).flatMap fun i => (l[i]?).toList) = l := by
  induction l using List.reverseRecOn with
  | nil => rfl
  | append_singleton l a ih =>
    rw [List.length_append, List.length_singleton, List.range_succ, List.flatMap_append,
      List.flatMap_singleton, List.getElem?_concat_length, Option.toList_some]
    refine congrArg (· ++ [a]) (Eq.trans ?_ ih)
    refine List.flatMap_congr fun i hi => ?_
    rw [List.getElem?_append_left (List.mem_range.1 hi)]

/-- The moved blocks are the old blocks in another order. -/
theorem movedBlocks_perm {blocks : List BasicBlock} {blockPos beforePos : ℕ}
    (hblock : blockPos < blocks.length) (hbefore : beforePos < blocks.length) :
    (movedBlocks blocks blockPos beforePos).Perm blocks := by
  have hmoved : (movedBlocks blocks blockPos beforePos).Perm
      ((blocks[blockPos]?).toList ++ (List.range blocks.length).flatMap fun i =>
        if i ≠ blockPos then (blocks[i]?).toList else []) := by
    have h := flatMap_range_single (blocks[blockPos]?).toList beforePos blocks.length
    rw [if_pos hbefore] at h
    conv_rhs => rw [← h]
    exact (List.flatMap_append_perm _ _ _).symm
  have hall : ((blocks[blockPos]?).toList ++ (List.range blocks.length).flatMap fun i =>
      if i ≠ blockPos then (blocks[i]?).toList else []).Perm blocks := by
    have h := flatMap_range_single (blocks[blockPos]?).toList blockPos blocks.length
    rw [if_pos hblock] at h
    conv_rhs => rw [← flatMap_range_getElem? blocks]
    rw [← h]
    refine (List.flatMap_append_perm _ _ _).trans (.of_eq (List.flatMap_congr fun i _ => ?_))
    by_cases hi : i = blockPos <;> simp [hi]
  exact hmoved.trans hall

/-- A loop of writes: a position that no pair writes keeps its value. -/
theorem getElem?_foldl_set_of_notMem {pairs : List (ℕ × ℕ)} {init : List ℕ} {k : ℕ}
    (hk : k ∉ pairs.map Prod.fst) :
    (pairs.foldl (fun l p => l.set p.1 p.2) init)[k]? = init[k]? := by
  induction pairs generalizing init with
  | nil => rfl
  | cons p pairs ih =>
    rw [List.map_cons, List.mem_cons, not_or] at hk
    rw [List.foldl_cons, ih hk.2, List.getElem?_set_ne (Ne.symm hk.1)]

/-- A loop of writes to different positions. -/
theorem getElem?_foldl_set {pairs : List (ℕ × ℕ)} {init : List ℕ} {p : ℕ × ℕ}
    (hnodup : (pairs.map Prod.fst).Nodup) (hp : p ∈ pairs) (hlt : p.1 < init.length) :
    (pairs.foldl (fun l p => l.set p.1 p.2) init)[p.1]? = some p.2 := by
  induction pairs generalizing init with
  | nil => cases hp
  | cons q pairs ih =>
    rw [List.map_cons, List.nodup_cons] at hnodup
    rw [List.foldl_cons]
    rcases List.mem_cons.1 hp with rfl | hp
    · rw [getElem?_foldl_set_of_notMem hnodup.1, List.getElem?_set_self hlt]
    · exact ih hnodup.2 hp (by rwa [List.length_set])

/-- The map of `MoveBlockBefore` sends an id to its new position. -/
theorem idMapOf_getElem? {blocks : List BasicBlock}
    (hnodup : (blocks.map BasicBlock.id).Nodup) {i : ℕ} {block : BasicBlock}
    (hi : blocks[i]? = some block) (hlt : block.id < blocks.length) :
    (idMapOf blocks)[block.id]? = some i := by
  have hfold : idMapOf blocks =
      ((blocks.zipIdx).map fun p => (p.1.id, p.2)).foldl (fun l p => l.set p.1 p.2)
        (List.replicate blocks.length uint32Max) := by
    rw [List.foldl_map]
    rfl
  rw [hfold]
  have hfst : ((blocks.zipIdx).map fun p => (p.1.id, p.2)).map Prod.fst =
      blocks.map BasicBlock.id := by
    rw [List.map_map]
    conv_rhs => rw [← List.zipIdx_map_fst 0 blocks, List.map_map]
    rfl
  refine getElem?_foldl_set (p := (block.id, i)) (hfst ▸ hnodup) ?_ (by simpa using hlt)
  exact List.mem_map.2 ⟨(block, i), List.mem_zipIdx_iff_getElem?.2 hi, rfl⟩

/-- Renumbering renames the targets of a direct terminator. -/
theorem node_remapBlock (idMap : List ℕ) {block : BasicBlock}
    (h : block.terminator.kind ≠ .indirectBranch) :
    (remapBlock idMap block).node = block.node.map fun id => remapId id idMap := by
  unfold BasicBlock.node
  cases hkind : block.terminator.kind with
  | indirectBranch => exact absurd hkind h
  | branch =>
    simp only [remapBlock, hkind, BasicBlock.isForwarder, BasicBlock.label]
    split_ifs <;> rfl
  | conditionalBranch => simp [remapBlock, hkind, FlowNode.map, BasicBlock.label]
  | return_ => simp [remapBlock, hkind, FlowNode.map, BasicBlock.label]
  | unsupported => simp [remapBlock, hkind, FlowNode.map, BasicBlock.label]

/-- In a permutation of the blocks of a sound graph, the map of `MoveBlockBefore` sends
every id to the new position of its block. -/
theorem Graph.Sound.renumber (hg : g.Sound) (hsize : g.blocks.length ≤ uint32Max)
    {blocks : List BasicBlock} (hperm : blocks.Perm g.blocks) {i : ℕ} {block : BasicBlock}
    (hi : blocks[i]? = some block) : remapId block.id (idMapOf blocks) = i := by
  have hids : (blocks.map BasicBlock.id).Perm (List.range g.blocks.length) :=
    (hperm.map _).trans (.of_eq (Positioned.iff_map_id.1 hg.positioned))
  have hlt : block.id < g.blocks.length :=
    hg.positioned.id_lt (hperm.mem_iff.1 (List.mem_of_getElem? hi))
  have hmap := idMapOf_getElem? (hids.nodup_iff.2 List.nodup_range) hi
    (by rw [hperm.length_eq]; exact hlt)
  rw [remapId, if_neg (by omega), hmap, Option.getD_some]

/-- The new position of the block at an old position. -/
theorem Graph.Sound.renumber_position (hg : g.Sound) (hsize : g.blocks.length ≤ uint32Max)
    {blocks : List BasicBlock} (hperm : blocks.Perm g.blocks) {id : ℕ}
    (hid : id < g.blocks.length) :
    blocks[remapId id (idMapOf blocks)]? = g.blocks[id]? ∧
      remapId id (idMapOf blocks) < g.blocks.length := by
  have hold := List.getElem?_eq_getElem hid
  obtain ⟨i, hi⟩ := List.getElem?_of_mem (hperm.mem_iff.2 (List.getElem_mem hid))
  have hmap := hg.renumber hsize hperm hi
  rw [hg.positioned id _ hold] at hmap
  rw [hmap]
  exact ⟨hi.trans hold.symm, hperm.length_eq ▸ (List.getElem?_eq_some_iff.1 hi).1⟩

/-- `g'` is sound and runs as `g`, with as many blocks. -/
structure Moved (g g' : Graph) : Prop where
  sound : g'.Sound
  runs : SameRuns g g'
  length : g'.blocks.length = g.blocks.length

theorem Moved.refl (hg : g.Sound) : Moved g g := ⟨hg, .refl g, rfl⟩

theorem Moved.trans {g' g'' : Graph} (h : Moved g g') (h' : Moved g' g'') : Moved g g'' :=
  ⟨h'.sound, h.runs.trans h'.runs, h'.length.trans h.length⟩

/-- Renumbering a permutation of the blocks. -/
theorem Graph.Sound.renumbered (hg : g.Sound) (hsize : g.blocks.length ≤ uint32Max)
    {blocks : List BasicBlock} (hperm : blocks.Perm g.blocks) :
    Moved g { g with
      blocks := blocks.map (remapBlock (idMapOf blocks))
      entryBlock := remapId g.entryBlock (idMapOf blocks) } := by
  have hlen := hperm.length_eq
  have hlt : ∀ id < g.blocks.length, remapId id (idMapOf blocks) < g.blocks.length :=
    fun id hid => (hg.renumber_position hsize hperm hid).2
  have hsound : ({ g with
      blocks := blocks.map (remapBlock (idMapOf blocks))
      entryBlock := remapId g.entryBlock (idMapOf blocks) } : Graph).Sound := by
    refine ⟨?_, ?_, ?_, ?_, ?_⟩
    · intro i block' hi
      rw [List.getElem?_map] at hi
      obtain ⟨block, hblock, rfl⟩ := Option.map_eq_some_iff.1 hi
      exact hg.renumber hsize hperm hblock
    · intro block' hblock
      rw [List.length_map, hlen]
      obtain ⟨block, hmem, rfl⟩ := List.mem_map.1 hblock
      have hwithin := hg.within block (hperm.mem_iff.1 hmem)
      refine ⟨?_, hwithin.direct, ?_, ?_⟩
      · rw [node_remapBlock _ hwithin.direct, FlowNode.targets_map]
        intro t ht
        obtain ⟨old, hold, rfl⟩ := List.mem_map.1 ht
        exact hlt old (hwithin.targets old hold)
      · intro s hs
        obtain ⟨old, hold, rfl⟩ := List.mem_map.1 (mem_sortUnique.1 hs)
        exact hlt old (hwithin.successors old hold)
      · intro p hp
        obtain ⟨old, hold, rfl⟩ := List.mem_map.1 (mem_sortUnique.1 hp)
        exact hlt old (hwithin.predecessors old hold)
    · simpa [hlen] using hlt _ hg.entry
    · simpa [hlen] using hg.edges
    · simpa [hlen] using hg.loops
  refine ⟨hsound, fun outcomes events => ?_, by rw [List.length_map, hlen]⟩
  rw [Graph.Runs, Graph.Runs]
  have hcovers : Covers g.flow (Graph.flow { g with
      blocks := blocks.map (remapBlock (idMapOf blocks))
      entryBlock := remapId g.entryBlock (idMapOf blocks) }) (fun id => remapId id (idMapOf blocks)) (fun _ => 0)
      (· < g.blocks.length) := by
    refine ⟨fun {x node} _ hnode t ht => ?_, fun {x} hx => .inl ?_⟩
    · rw [hg.positioned.flow] at hnode
      obtain ⟨block, hblock, rfl⟩ := Option.map_eq_some_iff.1 hnode
      exact (hg.within block (List.mem_of_getElem? hblock)).targets t ht
    · rw [hsound.positioned.flow, hg.positioned.flow, List.getElem?_map,
        (hg.renumber_position hsize hperm hx).1, List.getElem?_eq_getElem hx]
      exact congrArg some (node_remapBlock _ (hg.within _ (List.getElem_mem hx)).direct)
  exact hcovers.walk_iff hg.entry

/-- **Moving a block** renumbers the graph. -/
theorem moveBlockBefore_moved (hg : g.Sound) (hsize : g.blocks.length ≤ uint32Max)
    (blockId beforeId : ℕ) : Moved g (moveBlockBefore g blockId beforeId) := by
  unfold moveBlockBefore
  split_ifs with h
  · exact .refl hg
  · rw [not_or, not_or, Nat.not_le, Nat.not_le] at h
    exact hg.renumbered hsize (movedBlocks_perm h.2.1 h.2.2)

end Prosperismo.Cfg
