import Prosperismo.Cfg.Reducible

/-!
# What BuildGraph analyses

`BuildGraph` runs its analyses on a graph whose predecessors mirror its successors
(`buildGraph_analysed`), also when an `S_SETPC_B64` goes through a table. So the
dominators it leaves in a block are the blocks on every path to it from the entry *or
from a block without predecessors*. For a block that the entry reaches these are its
dominators exactly when dead code gets to it through the entry only
(`dominators_exact_iff`): a block that nothing enters, but that falls through or
branches into live code, takes dominators away from it.
-/

namespace Prosperismo.Cfg

open Relation

variable {program : Program} {g : Graph}

/-! ### The flow graph -/

/-- The successors of a block are blocks. -/
theorem terminatorOf_successors {setpcTargets : List (ℕ × SetpcTargetInfo)}
    {blocks : List BasicBlock} (hpos : Positioned blocks) {block : BasicBlock}
    {terminator : Terminator}
    (h : terminatorOf program setpcTargets blocks block = .ok terminator) :
    ∀ s ∈ terminatorSuccessors terminator, s < blocks.length := by
  have hdirect : ∀ {terminator : Terminator}, terminator.Direct blocks.length →
      ∀ s ∈ terminatorSuccessors terminator, s < blocks.length := fun hterminator =>
    (@Terminator.Direct.within _ _ hterminator {} rfl).successors
  unfold terminatorOf at h
  dsimp only at h
  split_ifs at h
  · cases h
    exact hdirect (return_direct _)
  · cases h
    exact hdirect (return_direct _)
  · exact hdirect (branchTo_direct hpos h)
  · rw [bind_ok] at h
    obtain ⟨info, -, h⟩ := h
    unfold setpcTerminator at h
    split_ifs at h
    · -- the table has one block for each of its targets
      simp only [bind_ok, pure_ok] at h
      obtain ⟨targets, htargets, selectorTargets, -, rfl⟩ := h
      intro s hs
      have hs : s ∈ targets.foldl addUnique [] := hs
      have hs := (mem_foldl_addUnique.1 hs).resolve_left List.not_mem_nil
      obtain ⟨pc, -, hpc⟩ := exists_of_mem_mapM_ok htargets hs
      exact blockOfPcAt_lt hpos hpc
    · exact hdirect (branchTo_direct hpos h)
  · exact hdirect (branchTo_direct hpos h)
  · exact hdirect (conditionalTerminator_direct hpos h)
  · cases h
    exact hdirect (fallthroughTerminator_direct hpos block)

/-- The steps of a flow graph: labels, blocks, and a terminator for every block. -/
theorem flowGraph_spec {flow : FlowGraph} (h : flowGraph program = .ok flow) :
    ∃ scan blocks, scanLabels program = .ok scan ∧
      buildBlocks program (sortUnique scan.labels) = .ok blocks ∧
      flow.blocks.length = blocks.length ∧
      ∀ (i : ℕ) (block' : BasicBlock), flow.blocks[i]? = some block' →
        ∃ (block : BasicBlock) (terminator : Terminator), blocks[i]? = some block ∧
          terminatorOf program scan.setpcTargets blocks block = .ok terminator ∧
          block' = { block with
            terminator := terminator
            successors := terminatorSuccessors terminator } := by
  unfold flowGraph at h
  split_ifs at h
  split at h
  · cases h
  simp only [bind_ok, pure_ok] at h
  obtain ⟨scan, hscan, blocks, hblocks, terminated, hterminated, rfl⟩ := h
  have hforall := mapM_ok hterminated
  have hlen := hforall.length_eq
  refine ⟨scan, blocks, hscan, hblocks, hlen.symm, fun i block' hi => ?_⟩
  obtain ⟨hlt, rfl⟩ := List.getElem?_eq_some_iff.1 hi
  have hstep := hforall.get (hlen ▸ hlt) hlt
  rw [terminateBlock, bind_ok] at hstep
  obtain ⟨terminator, hterminator, hstep⟩ := hstep
  rw [pure_ok] at hstep
  exact ⟨_, terminator, List.getElem?_eq_getElem (hlen ▸ hlt), hterminator, hstep.symm⟩

/-- The graph before the analyses, with or without indirect branches. -/
theorem flowGraph_placed {flow : FlowGraph} (h : flowGraph program = .ok flow) :
    flow.graph.Placed ∧ 0 < flow.blocks.length ∧
      flow.blocks.length ≤ program.instructions.length + 1 := by
  obtain ⟨scan, blocks, hscan, hblocks, hlen, hget⟩ := flowGraph_spec h
  have hspec := buildBlocks_blocksOf hblocks
  have hlength := hspec.length (List.nodup_dedup _)
    (mem_sortUnique.2 (scanLabels_good hscan).endLabel)
  refine ⟨⟨fun i block' hi => ?_, fun block' hmem => ?_⟩, hlen ▸ hlength.1, hlen ▸ hlength.2⟩
  · obtain ⟨block, terminator, hblock, -, rfl⟩ := hget i block' hi
    exact hspec.positioned i block hblock
  · obtain ⟨i, hi⟩ := List.getElem?_of_mem hmem
    obtain ⟨block, terminator, -, hterminator, rfl⟩ := hget i block' hi
    have hlt := terminatorOf_successors hspec.positioned hterminator
    exact fun s hs => (hlt s hs).trans_eq hlen.symm

theorem finishGraph_blocks (indirectSetpc : Bool) (graph : Graph) :
    (finishGraph indirectSetpc graph).blocks = graph.blocks ∧
      (finishGraph indirectSetpc graph).entryBlock = graph.entryBlock := by
  unfold finishGraph
  dsimp only
  split_ifs <;> exact ⟨rfl, rfl⟩

/-- **What the analyses start from.** `base` is the flow graph with its predecessors. -/
theorem buildGraph_analysed {flow : FlowGraph} (hflow : flowGraph program = .ok flow)
    (h : buildGraph program = .ok g) :
    ∃ base : Graph, base.Linked ∧ base.entryBlock = 0 ∧ 0 < base.blocks.length ∧
      base.Edge = EdgeIn flow.blocks ∧ base.blocks.length = flow.blocks.length ∧
      g.blocks = (computePostDominators (computeDominators base)).blocks ∧
      g.entryBlock = 0 ∧ g.Linked ∧ g.Edge = base.Edge := by
  obtain rfl : finishGraph flow.indirectSetpc (recomputeAnalyses (rebuildPredecessors flow.graph))
      = g := by
    rw [buildGraph, hflow] at h
    exact Except.ok.inj h
  obtain ⟨hplaced, hpos, -⟩ := flowGraph_placed hflow
  obtain ⟨hblocks, hentry⟩ := finishGraph_blocks flow.indirectSetpc
    (recomputeAnalyses (rebuildPredecessors flow.graph))
  have hlinked := rebuildPredecessors_linked_of_placed hplaced
  have hlen : (rebuildPredecessors flow.graph).blocks.length = flow.blocks.length :=
    rebuildPredecessors_length hplaced.positioned
  have hframe := recomputeAnalyses_frame (rebuildPredecessors flow.graph)
  rw [← hblocks] at hframe
  refine ⟨rebuildPredecessors flow.graph, hlinked, rfl, hlen ▸ hpos,
    rebuildPredecessors_edge hplaced.positioned, hlen, ?_, ?_, linked_of_frame hframe hlinked⟩
  · rw [hblocks, recomputeAnalyses, computeComponents_blocks]
    rfl
  · rw [hentry, recomputeAnalyses_entryBlock]
    rfl

/-- What the analyses leave of a block of the flow graph: its place in the program, and its
successors, sorted. -/
theorem buildGraph_getElem? {flow : FlowGraph} (hflow : flowGraph program = .ok flow)
    (h : buildGraph program = .ok g) :
    g.blocks.length = flow.blocks.length ∧ ∀ (i : ℕ) (block' : BasicBlock),
      g.blocks[i]? = some block' → ∃ block, flow.blocks[i]? = some block ∧
        block'.startPc = block.startPc ∧ block'.instBegin = block.instBegin ∧
        block'.instEnd = block.instEnd ∧ block'.successors = sortUnique block.successors := by
  obtain rfl : finishGraph flow.indirectSetpc (recomputeAnalyses (rebuildPredecessors flow.graph))
      = g := by
    rw [buildGraph, hflow] at h
    exact Except.ok.inj h
  obtain ⟨hplaced, -, -⟩ := flowGraph_placed hflow
  rw [(finishGraph_blocks flow.indirectSetpc _).1]
  refine ⟨?_, fun i block' hi => ?_⟩
  · rw [recomputeAnalyses_length]
    exact rebuildPredecessors_length hplaced.positioned
  · obtain ⟨rebuilt, hrebuilt, hframe⟩ := recomputeAnalyses_getElem? hi
    obtain ⟨block, hblock, -, hcleared⟩ :=
      rebuildPredecessors_getElem? hplaced.positioned hrebuilt
    have hkeeps : ∀ {α : Type} (field : BasicBlock → α), (∀ b, field b.frame = field b) →
        (∀ b : BasicBlock, field { b with predecessors := [] } = field b) →
          field block' = field block.cleared := fun field hf hp => by
      rw [← hf block', ← hframe, hf, ← hcleared, hp]
    exact ⟨block, hblock, hkeeps BasicBlock.startPc (fun _ => rfl) fun _ => rfl,
      hkeeps BasicBlock.instBegin (fun _ => rfl) fun _ => rfl,
      hkeeps BasicBlock.instEnd (fun _ => rfl) fun _ => rfl,
      hkeeps BasicBlock.successors (fun _ => rfl) fun _ => rfl⟩

/-! ### Dominators of reachable blocks -/

/-- A block other than the first that no block leads to: dead code is laid out behind an
`S_ENDPGM`, `S_TRAP` or `S_BRANCH`, and nothing branches to it. -/
def UnenteredIn (blocks : List BasicBlock) (r : ℕ) : Prop :=
  r < blocks.length ∧ r ≠ 0 ∧ ∀ p, ¬ EdgeIn blocks p r

/-- **When dominators are exact.** The dominators that `BuildGraph` leaves in a block that the
entry reaches are the blocks on every path from the entry, if and only if every path from an
unentered block comes through the entry. -/
theorem dominators_exact_iff {flow : FlowGraph} (hflow : flowGraph program = .ok flow)
    (h : buildGraph program = .ok g) {b : ℕ} {block : BasicBlock}
    (hblock : g.blocks[b]? = some block) (hreach : ReflTransGen g.Edge g.entryBlock b) :
    (∀ d, d ∈ block.dominators ↔ Dominates g.Edge (· = g.entryBlock) d b) ↔
      ∀ p, PathTo (EdgeIn flow.blocks) (UnenteredIn flow.blocks) p b → 0 ∈ p := by
  obtain ⟨base, hlinked, hbase, hpos, hedge, hlen, hblocks, hentry, -, hsame⟩ :=
    buildGraph_analysed hflow h
  rw [hentry, hsame] at hreach ⊢
  rw [hblocks] at hblock
  have hdominators : ∀ d, d ∈ block.dominators ↔
      d < base.blocks.length ∧ Dominates base.Edge base.Root d b := by
    obtain ⟨computed, hcomputed, heq⟩ := computePostDominators_getElem? hblock
    intro d
    rw [← heq]
    exact mem_dominators_iff hlinked hcomputed
  rw [← hedge]
  have hroot : ∀ r, UnenteredIn flow.blocks r → base.Root r := fun r hr =>
    ⟨hlen ▸ hr.1, .inr fun p hp => hr.2.2 p (hedge ▸ hp)⟩
  have hstart : base.Root 0 := ⟨hpos, .inl hbase.symm⟩
  obtain ⟨p₀, hp₀⟩ := @PathTo.of_reflTransGen _ _ (· = 0) _ _ rfl hreach
  constructor
  · -- the entry is a dominator, so it is on the paths from the unentered blocks as well
    intro hexact p hp
    have hfirst : Dominates base.Edge (· = 0) 0 b := fun q hq => hq.start_mem
    exact ((hdominators 0).1 ((hexact 0).2 hfirst)).2 p (hp.mono hroot)
  · intro hthrough d
    rw [hdominators]
    constructor
    · rintro ⟨-, hdom⟩ p hp
      exact hdom p (hp.mono fun r hr => hr ▸ hstart)
    · intro hdom
      refine ⟨?_, fun p hp => ?_⟩
      · have hlt : ∀ y ∈ p₀, y < base.blocks.length :=
          hp₀.forall_mem (fun r hr => hr ▸ hpos) fun _ _ hab => hlinked.edge_lt hab
        exact hlt d (hdom p₀ hp₀)
      · -- from the entry on, the path is one from the entry
        have hmem : 0 ∈ p := by
          refine (hp.of_or fun r hr => ?_).elim (fun hp => hp.start_mem) (hthrough p)
          by_cases hzero : r = 0
          · exact .inl hzero
          · refine .inr ⟨hlen ▸ hr.1, hzero, fun p hp => ?_⟩
            have hnone := hr.2.resolve_left fun heq => hzero (heq.trans hbase)
            have hp : base.Edge p r := by rwa [hedge]
            exact hnone p hp
        obtain ⟨q, -, hq, -, -, hsub, -⟩ := hp.split hmem
        exact hsub (hdom q hq)

/-- Live code behind an instruction that a branch skips:

    0: s_branch 8
    4: v_op
    8: s_endpgm -/
def skippedCode : Program where
  code := List.replicate 3 0
  instructions :=
    [{ pc := 0, opcode := .sBranch, branchTarget := 8 },
      { pc := 4 },
      { pc := 8, opcode := .sEndpgm }]

theorem skippedCode_decoded : skippedCode.Decoded where
  size := by decide
  start := by decide
  next := by decide
  words := by decide

/-- The edges of a graph whose successor lists are known. -/
theorem edge_iff_of_successors {succs : List (List ℕ)}
    (h : g.blocks.map BasicBlock.successors = succs) {a b : ℕ} :
    g.Edge a b ↔ ∃ l, succs[a]? = some l ∧ b ∈ l := by
  rw [← h, List.getElem?_map]
  constructor
  · rintro ⟨block, hblock, hb⟩
    exact ⟨_, by rw [hblock]; rfl, hb⟩
  · rintro ⟨l, hl, hb⟩
    obtain ⟨block, hblock, rfl⟩ := Option.map_eq_some_iff.1 hl
    exact ⟨block, hblock, hb⟩

/-- The graph of `skippedCode`: block 1, which nothing enters, falls through into block 2. -/
theorem skippedCode_graph : ∃ g, buildGraph skippedCode = .ok g ∧ g.entryBlock = 0 ∧
    g.blocks.map BasicBlock.successors = [[2], [2], [3], []] ∧
    g.blocks.map BasicBlock.dominators = [[0], [1], [2], [2, 3]] := by
  refine ⟨((buildGraph skippedCode).toOption).getD {}, ?_, ?_, ?_, ?_⟩ <;> decide +kernel

/-- In `skippedCode` the entry lies on every path from the entry to block 2, and is not one of
its dominators. -/
theorem skippedCode_wrong : ∃ g block, buildGraph skippedCode = .ok g ∧
    g.blocks[2]? = some block ∧ ReflTransGen g.Edge g.entryBlock 2 ∧
    ¬ ∀ d, d ∈ block.dominators ↔ Dominates g.Edge (· = g.entryBlock) d 2 := by
  obtain ⟨g, hg, hentry, hsuccs, hdoms⟩ := skippedCode_graph
  have hdom := congrArg (·[2]?) hdoms
  simp only [List.getElem?_map] at hdom
  obtain ⟨block, hblock, hdominators⟩ := Option.map_eq_some_iff.1 hdom
  refine ⟨g, block, hg, hblock, ?_, fun hexact => ?_⟩
  · rw [hentry]
    exact .single ((edge_iff_of_successors hsuccs).2 ⟨[2], rfl, List.mem_singleton_self 2⟩)
  · have hmem := (hexact g.entryBlock).2 fun p hp => hp.start_mem
    rw [hdominators, hentry] at hmem
    exact absurd hmem (by decide)

/-- Dominators are not the path dominators in every graph. -/
theorem dominators_shrunk_by_skippedCode : ¬ ∀ (program : Program) (g : Graph), program.Decoded →
    buildGraph program = .ok g → ∀ (b : ℕ) (block : BasicBlock), g.blocks[b]? = some block →
      ReflTransGen g.Edge g.entryBlock b →
        ∀ d, d ∈ block.dominators ↔ Dominates g.Edge (· = g.entryBlock) d b := by
  intro hall
  obtain ⟨g, block, hg, hblock, hreach, hwrong⟩ := skippedCode_wrong
  exact hwrong (hall skippedCode g skippedCode_decoded hg 2 block hblock hreach)

/-- The condition at work: in `skippedCode` a path from unentered code misses the entry. -/
theorem dominators_exact_iff_skippedCode : ∃ flow, flowGraph skippedCode = .ok flow ∧
    ¬ ∀ p, PathTo (EdgeIn flow.blocks) (UnenteredIn flow.blocks) p 2 → 0 ∈ p := by
  obtain ⟨g, block, hg, hblock, hreach, hwrong⟩ := skippedCode_wrong
  have hflow : ∃ flow, flowGraph skippedCode = .ok flow := by
    refine ⟨(flowGraph skippedCode).toOption.getD ⟨[], [], false⟩, ?_⟩
    decide +kernel
  obtain ⟨flow, hflow⟩ := hflow
  exact ⟨flow, hflow, fun hthrough =>
    hwrong ((dominators_exact_iff hflow hg hblock hreach).2 hthrough)⟩

end Prosperismo.Cfg
