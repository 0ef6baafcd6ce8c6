import Prosperismo.Cfg.Walk
import Mathlib.Data.List.Perm.Basic

/-!
# The building blocks of the rewrites

What each operation that the rewrites are made of keeps of a sound graph: the
analyses and the rebuilding of predecessors reshape it, a synthetic forwarder can be
appended to it, redirecting edges is harmless, and moving a block renames it.
-/

namespace Prosperismo.Cfg

variable {g : Graph}

/-! ### The analyses -/

/-- A block without its dominators and post-dominators, the part that the analyses leave
alone. -/
def BasicBlock.frame (block : BasicBlock) : BasicBlock :=
  { block with dominators := [], postDominators := [] }

/-- The bound on the ids does not read the dominators. -/
theorem BasicBlock.within_frame {n : ℕ} {block : BasicBlock} :
    block.frame.Within n ↔ block.Within n :=
  ⟨fun h => ⟨h.targets, h.direct, h.successors, h.predecessors⟩,
    fun h => ⟨h.targets, h.direct, h.successors, h.predecessors⟩⟩

theorem length_sweepStep (next : BlockSets → ℕ → List ℕ) (acc : BlockSets × Bool) (i : ℕ) :
    (sweepStep next acc i).1.length = acc.1.length := by
  unfold sweepStep
  dsimp only
  split_ifs <;> simp

theorem length_sweep (next : BlockSets → ℕ → List ℕ) (sets : BlockSets) :
    (sweep next sets).1.length = sets.length := by
  have hfold : ∀ (positions : List ℕ) (acc : BlockSets × Bool),
      (positions.foldl (sweepStep next) acc).1.length = acc.1.length := by
    intro positions
    induction positions with
    | nil => exact fun _ => rfl
    | cons i positions ih =>
      intro acc
      rw [List.foldl_cons, ih, length_sweepStep]
  exact hfold _ _

/-- The sweeps keep the number of sets. -/
theorem length_sweepUntilStable (next : BlockSets → ℕ → List ℕ) (rounds : ℕ) (sets : BlockSets) :
    (sweepUntilStable next rounds sets).length = sets.length := by
  induction rounds generalizing sets with
  | zero => rfl
  | succ rounds ih =>
    rw [sweepUntilStable]
    split_ifs
    · rw [ih, length_sweep]
    · exact length_sweep next sets

/-- Writing an analysis into the blocks leaves their frames. -/
theorem map_frame_zipWith (write : BasicBlock → List ℕ → BasicBlock)
    (hwrite : ∀ block set, (write block set).frame = block.frame) {blocks : List BasicBlock}
    {sets : BlockSets} (hlen : sets.length = blocks.length) :
    (List.zipWith write blocks sets).map BasicBlock.frame = blocks.map BasicBlock.frame := by
  induction blocks generalizing sets with
  | nil => rfl
  | cons block blocks ih =>
    cases sets with
    | nil => simp at hlen
    | cons set sets =>
      rw [List.zipWith_cons_cons, List.map_cons, List.map_cons, hwrite,
        ih (by simpa using hlen)]

theorem computeDominators_frame (graph : Graph) :
    (computeDominators graph).blocks.map BasicBlock.frame =
      graph.blocks.map BasicBlock.frame :=
  map_frame_zipWith (fun block set => { block with dominators := set })
    (fun _ _ => rfl) (by rw [length_sweepUntilStable, List.length_map])

theorem computePostDominators_frame (graph : Graph) :
    (computePostDominators graph).blocks.map BasicBlock.frame =
      graph.blocks.map BasicBlock.frame :=
  map_frame_zipWith (fun block set => { block with postDominators := set })
    (fun _ _ => rfl) (by rw [length_sweepUntilStable, List.length_map])

theorem computeComponents_blocks (graph : Graph) :
    (computeComponents graph).blocks = graph.blocks := by
  unfold computeComponents
  dsimp only
  split <;> rfl

theorem computeComponents_entryBlock (graph : Graph) :
    (computeComponents graph).entryBlock = graph.entryBlock := by
  unfold computeComponents
  dsimp only
  split <;> rfl

theorem computeComponents_backEdges (graph : Graph) :
    (computeComponents graph).backEdges = graph.backEdges := by
  unfold computeComponents
  dsimp only
  split <;> rfl

theorem computeComponents_naturalLoops (graph : Graph) :
    (computeComponents graph).naturalLoops = graph.naturalLoops := by
  unfold computeComponents
  dsimp only
  split <;> rfl

/-- The blocks of a recomputed graph, seen through their frames. -/
theorem recomputeAnalyses_frame (graph : Graph) :
    (recomputeAnalyses graph).blocks.map BasicBlock.frame =
      graph.blocks.map BasicBlock.frame := by
  rw [recomputeAnalyses, computeComponents_blocks]
  exact (computePostDominators_frame _).trans (computeDominators_frame _)

@[simp] theorem recomputeAnalyses_entryBlock (graph : Graph) :
    (recomputeAnalyses graph).entryBlock = graph.entryBlock := by
  rw [recomputeAnalyses, computeComponents_entryBlock]
  rfl

@[simp] theorem recomputeAnalyses_length (graph : Graph) :
    (recomputeAnalyses graph).blocks.length = graph.blocks.length := by
  simpa using congrArg List.length (recomputeAnalyses_frame graph)

/-- The block at a position of a recomputed graph. -/
theorem recomputeAnalyses_getElem? {graph : Graph} {i : ℕ} {block' : BasicBlock}
    (h : (recomputeAnalyses graph).blocks[i]? = some block') :
    ∃ block, graph.blocks[i]? = some block ∧ block.frame = block'.frame := by
  have := congrArg (·[i]?) (recomputeAnalyses_frame graph)
  simp only [List.getElem?_map, h, Option.map_some] at this
  exact Option.map_eq_some_iff.1 this.symm

/-- The edges that the analyses find join a block to one of its successors. -/
theorem mem_backEdges_recomputeAnalyses {graph : Graph} {edge : BackEdge}
    (h : edge ∈ (recomputeAnalyses graph).backEdges) :
    ∃ block ∈ (recomputeAnalyses graph).blocks,
      edge.source = block.id ∧ edge.target ∈ block.successors := by
  rw [recomputeAnalyses, computeComponents_backEdges, computeNaturalLoops, List.mem_map] at h
  obtain ⟨edge, hedge, rfl⟩ := h
  rw [computeBackEdges, List.mem_flatMap] at hedge
  obtain ⟨block, hblock, hedge⟩ := hedge
  obtain ⟨succ, hsucc, rfl⟩ := List.mem_map.1 hedge
  rw [recomputeAnalyses, computeComponents_blocks]
  exact ⟨block, hblock, rfl, (List.mem_filter.1 hsucc).1⟩

/-- The loops that the analyses find belong to back edges. -/
theorem mem_naturalLoops_recomputeAnalyses {graph : Graph} {loop : NaturalLoop}
    (h : loop ∈ (recomputeAnalyses graph).naturalLoops) :
    ∃ edge ∈ (recomputeAnalyses graph).backEdges, loop.header = edge.target := by
  rw [recomputeAnalyses, computeComponents_naturalLoops, computeNaturalLoops, List.mem_map] at h
  obtain ⟨edge, hedge, rfl⟩ := h
  rw [recomputeAnalyses, computeComponents_backEdges, computeNaturalLoops]
  exact ⟨_, List.mem_map.2 ⟨edge, hedge, rfl⟩, rfl⟩

/-- **The analyses** reshape a graph, whatever edges and loops it had. -/
theorem recomputeAnalyses_reshaped (π : ℕ → ℕ) (hpos : Positioned g.blocks)
    (hwithin : ∀ block ∈ g.blocks, block.Within g.blocks.length)
    (hentry : g.entryBlock < g.blocks.length) : Reshaped π g (recomputeAnalyses g) := by
  have hpos' : Positioned (recomputeAnalyses g).blocks := by
    intro i block' hi
    obtain ⟨block, hold, hframe⟩ := recomputeAnalyses_getElem? hi
    exact (congrArg BasicBlock.id hframe).symm.trans (hpos i block hold)
  have hwithin' : ∀ block ∈ (recomputeAnalyses g).blocks, block.Within g.blocks.length := by
    intro block' hblock
    obtain ⟨i, hi⟩ := List.getElem?_of_mem hblock
    obtain ⟨block, hold, hframe⟩ := recomputeAnalyses_getElem? hi
    rw [← BasicBlock.within_frame, ← hframe, BasicBlock.within_frame]
    exact hwithin block (List.mem_of_getElem? hold)
  have hedges : ∀ edge ∈ (recomputeAnalyses g).backEdges,
      edge.source < g.blocks.length ∧ edge.target < g.blocks.length := by
    intro edge hedge
    obtain ⟨block, hblock, hsource, htarget⟩ := mem_backEdges_recomputeAnalyses hedge
    obtain ⟨i, hi⟩ := List.getElem?_of_mem hblock
    refine ⟨?_, (hwithin' block hblock).successors _ htarget⟩
    rw [hsource, hpos' i block hi, ← recomputeAnalyses_length g]
    exact (List.getElem?_eq_some_iff.1 hi).1
  refine ⟨⟨hpos', by simpa using hwithin', by simpa using hentry, by simpa using hedges, ?_⟩,
    ?_, recomputeAnalyses_entryBlock g⟩
  · intro loop hloop
    obtain ⟨edge, hedge, heq⟩ := mem_naturalLoops_recomputeAnalyses hloop
    rw [recomputeAnalyses_length, heq]
    exact (hedges edge hedge).2
  · have := congrArg (List.map fun block => (block.id, block.node.map π))
      (recomputeAnalyses_frame g)
    rw [List.map_map, List.map_map] at this
    exact this

/-! ### Predecessors -/

/-- What `AddUnique` adds. -/
theorem mem_addUnique {values : List ℕ} {value x : ℕ} :
    x ∈ addUnique values value ↔ x ∈ values ∨ x = value := by
  unfold addUnique
  split_ifs with h
  · exact ⟨.inl, fun hx => hx.elim id fun he => he ▸ h⟩
  · simp

theorem mem_sortUnique {values : List ℕ} {x : ℕ} : x ∈ sortUnique values ↔ x ∈ values := by
  rw [sortUnique, List.mem_dedup, List.mem_insertionSort]

/-- `AddUnique` in a loop. -/
theorem mem_foldl_addUnique {values acc : List ℕ} {x : ℕ} :
    x ∈ values.foldl addUnique acc ↔ x ∈ acc ∨ x ∈ values := by
  induction values generalizing acc with
  | nil => simp
  | cons value values ih =>
    rw [List.foldl_cons, ih, mem_addUnique, List.mem_cons, or_assoc]

/-- `l'` is `l` with other predecessors, all of them below `n`. -/
def Repredecessed (n : ℕ) (l l' : List BasicBlock) : Prop :=
  l'.map (fun block => { block with predecessors := [] }) =
      l.map (fun block => { block with predecessors := [] }) ∧
    ((∀ block ∈ l, ∀ p ∈ block.predecessors, p < n) →
      ∀ block ∈ l', ∀ p ∈ block.predecessors, p < n)

theorem Repredecessed.trans {n : ℕ} {l l' l'' : List BasicBlock} (h : Repredecessed n l l')
    (h' : Repredecessed n l' l'') : Repredecessed n l l'' :=
  ⟨h'.1.trans h.1, fun hl => h'.2 (h.2 hl)⟩

/-- One new predecessor. -/
theorem repredecessed_modify {n id : ℕ} (hid : id < n) (l : List BasicBlock) (succ : ℕ) :
    Repredecessed n l
      (l.modify succ fun b => { b with predecessors := addUnique b.predecessors id }) := by
  constructor
  · refine List.ext_getElem? fun i => ?_
    rw [List.getElem?_map, List.getElem?_map, List.getElem?_modify]
    cases l[i]? with
    | none => split_ifs <;> rfl
    | some block => split_ifs <;> rfl
  · intro hl block hblock p hp
    obtain ⟨i, hi⟩ := List.getElem?_of_mem hblock
    rw [List.getElem?_modify] at hi
    obtain ⟨old, hold, rfl⟩ := Option.map_eq_some_iff.1 hi
    have hold := hl old (List.mem_of_getElem? hold)
    split_ifs at hp
    · rcases mem_addUnique.1 hp with hp | rfl
      · exact hold p hp
      · exact hid
    · exact hold p hp

/-- The predecessor loops. -/
theorem repredecessed_addPredecessors {n : ℕ} {blocks : List BasicBlock}
    (hids : ∀ block ∈ blocks, block.id < n) : Repredecessed n blocks (addPredecessors blocks) := by
  have hinner : ∀ (succs : List ℕ) {id : ℕ} (_ : id < n) (acc : List BasicBlock),
      Repredecessed n acc (succs.foldl (fun acc succ => acc.modify succ fun b =>
        { b with predecessors := addUnique b.predecessors id }) acc) := by
    intro succs id hid
    induction succs with
    | nil => exact fun acc => ⟨rfl, fun h => h⟩
    | cons succ succs ih => exact fun acc => (repredecessed_modify hid acc succ).trans (ih _)
  have houter : ∀ (bs acc : List BasicBlock), (∀ block ∈ bs, block.id < n) →
      Repredecessed n acc (bs.foldl (fun acc block => block.successors.foldl (fun acc succ =>
        acc.modify succ fun b => { b with predecessors := addUnique b.predecessors block.id })
        acc) acc) := by
    intro bs
    induction bs with
    | nil => exact fun acc _ => ⟨rfl, fun h => h⟩
    | cons block bs ih =>
      intro acc hbs
      exact (hinner block.successors (hbs block List.mem_cons_self) acc).trans
        (ih _ fun b hb => hbs b (List.mem_cons_of_mem _ hb))
  exact houter blocks blocks hids

/-- Ids are positions, so they are below the number of blocks. -/
theorem Positioned.id_lt {blocks : List BasicBlock} (h : Positioned blocks) {block : BasicBlock}
    (hb : block ∈ blocks) : block.id < blocks.length := by
  obtain ⟨i, hi⟩ := List.getElem?_of_mem hb
  rw [h i block hi]
  exact (List.getElem?_eq_some_iff.1 hi).1

/-- A block as `RebuildPredecessors` prepares it. -/
def BasicBlock.cleared (block : BasicBlock) : BasicBlock :=
  { block with predecessors := [], successors := sortUnique block.successors }

/-- The predecessor loops of `RebuildPredecessors`. -/
theorem repredecessed_cleared (hpos : Positioned g.blocks) :
    Repredecessed g.blocks.length (g.blocks.map BasicBlock.cleared)
      (addPredecessors (g.blocks.map BasicBlock.cleared)) := by
  refine repredecessed_addPredecessors fun block hblock => ?_
  obtain ⟨old, hold, heq⟩ := List.mem_map.1 hblock
  have hid : block.id = old.id := (congrArg BasicBlock.id heq).symm
  rw [hid]
  exact hpos.id_lt hold

/-- The block at a position after `RebuildPredecessors`. -/
theorem rebuildPredecessors_getElem? (hpos : Positioned g.blocks) {i : ℕ} {block' : BasicBlock}
    (h : (rebuildPredecessors g).blocks[i]? = some block') :
    ∃ block, g.blocks[i]? = some block ∧ (∀ p ∈ block'.predecessors, p < g.blocks.length) ∧
      { block' with predecessors := [] } = block.cleared := by
  obtain ⟨hsame, hpreds⟩ := repredecessed_cleared hpos
  rw [rebuildPredecessors, List.getElem?_map] at h
  obtain ⟨added, hadded, rfl⟩ := Option.map_eq_some_iff.1 h
  have hadded' : (addPredecessors (g.blocks.map BasicBlock.cleared))[i]? = some added := hadded
  have hget := congrArg (·[i]?) hsame
  simp only [List.getElem?_map, hadded', Option.map_some, Option.map_map] at hget
  obtain ⟨block, hblock, heq⟩ := Option.map_eq_some_iff.1 hget.symm
  refine ⟨block, hblock, fun p hp => ?_, heq.symm⟩
  refine hpreds ?_ added (List.mem_of_getElem? hadded') p (mem_sortUnique.1 hp)
  intro b hb q hq
  obtain ⟨old, _, heq'⟩ := List.mem_map.1 hb
  rw [← heq'] at hq
  cases hq

theorem rebuildPredecessors_length (hpos : Positioned g.blocks) :
    (rebuildPredecessors g).blocks.length = g.blocks.length := by
  have hsame := congrArg List.length (repredecessed_cleared hpos).1
  simp only [List.length_map] at hsame
  rw [rebuildPredecessors, List.length_map]
  exact hsame

/-- **Rebuilding the predecessors** reshapes the graph. -/
theorem rebuildPredecessors_reshaped (π : ℕ → ℕ) (hg : g.Sound) :
    Reshaped π g (rebuildPredecessors g) := by
  have hlen := rebuildPredecessors_length hg.positioned
  have hget : ∀ (i : ℕ) (block' : BasicBlock), (rebuildPredecessors g).blocks[i]? = some block' →
      ∃ block, g.blocks[i]? = some block ∧ (∀ p ∈ block'.predecessors, p < g.blocks.length) ∧
        { block' with predecessors := [] } = block.cleared :=
    fun _ _ => rebuildPredecessors_getElem? hg.positioned
  refine ⟨⟨?_, ?_, ?_, ?_, ?_⟩, ?_, rfl⟩
  · intro i block' hi
    obtain ⟨block, hold, -, heq⟩ := hget i block' hi
    exact (congrArg BasicBlock.id heq).trans (hg.positioned i block hold)
  · intro block' hblock
    obtain ⟨i, hi⟩ := List.getElem?_of_mem hblock
    obtain ⟨block, hold, hpreds, heq⟩ := hget i block' hi
    have hwithin := hg.within block (List.mem_of_getElem? hold)
    have hnode : block'.node = block.node := (congrArg BasicBlock.node heq :)
    have hterm : block'.terminator = block.terminator :=
      (congrArg BasicBlock.terminator heq :)
    have hsuccs : block'.successors = sortUnique block.successors :=
      congrArg BasicBlock.successors heq
    rw [hlen]
    refine ⟨hnode ▸ hwithin.targets, hterm ▸ hwithin.direct, fun s hs => ?_, hpreds⟩
    rw [hsuccs, mem_sortUnique] at hs
    exact hwithin.successors s hs
  · rw [hlen]
    exact hg.entry
  · rw [hlen]
    exact hg.edges
  · rw [hlen]
    exact hg.loops
  · refine List.ext_getElem (by simp [Graph.shape, hlen]) fun i hi _ => ?_
    simp only [Graph.shape, List.length_map] at hi
    obtain ⟨block, hold, -, heq⟩ := hget i _ (List.getElem?_eq_getElem hi)
    obtain ⟨hi', hold⟩ := List.getElem?_eq_some_iff.1 hold
    simp only [Graph.shape, List.getElem_map, hold]
    exact (congrArg (fun b : BasicBlock => (b.id, b.node.map π)) heq :)

/-- `RebuildPredecessors` and `RecomputeAnalyses`, as every rewrite ends. -/
theorem recompute_reshaped (π : ℕ → ℕ) (hg : g.Sound) :
    Reshaped π g (recomputeAnalyses (rebuildPredecessors g)) := by
  have hrebuilt := rebuildPredecessors_reshaped π hg
  exact hrebuilt.trans (recomputeAnalyses_reshaped π hrebuilt.sound.positioned
    hrebuilt.sound.within hrebuilt.sound.entry)

end Prosperismo.Cfg
