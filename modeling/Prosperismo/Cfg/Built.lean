import Prosperismo.Base.Except
import Prosperismo.Cfg.Build
import Prosperismo.Cfg.Preservation

/-!
# The graphs that BuildGraph returns

A graph that `buildGraph` returns, and that is not marked irreducible, is sound: ids are
positions, every terminator goes to a block, and none is an indirect branch. It has at
most one block more than the program has instructions, so the rewrites of a decoded
program never come near `UINT32_MAX` blocks.
-/

namespace Prosperismo.Cfg

variable {program : Program} {g : Graph}

/-! ### Labels -/

/-- What the label scan keeps: the end of the program is a label, and without an indirect
`S_SETPC_B64` all resolved targets are direct. -/
structure LabelScan.Good (program : Program) (scan : LabelScan) : Prop where
  endLabel : programEndPc program ∈ scan.labels
  direct : scan.indirectSetpc = false → ∀ entry ∈ scan.setpcTargets, entry.2.indirect = false

theorem scanInstruction_good {scan scan' : LabelScan} {entry : Instruction × ℕ}
    (h : scanInstruction program scan entry = .ok scan') (hgood : scan.Good program) :
    scan'.Good program := by
  unfold scanInstruction at h
  dsimp only at h
  split_ifs at h
  · cases h
    exact ⟨List.mem_append_left _ hgood.endLabel, hgood.direct⟩
  · split at h
    · cases h
    · split at h
      · cases h
      · rename_i info _ _ _
        cases h
        refine ⟨List.mem_append_left _ (List.mem_append_left _ hgood.endLabel), ?_⟩
        intro hdirect p hp
        rw [Bool.or_eq_false_iff] at hdirect
        rcases List.mem_append.1 hp with hp | hp
        · exact hgood.direct hdirect.1 p hp
        · rw [List.mem_singleton.1 hp]
          exact hdirect.2
  · cases h
    exact ⟨List.mem_append_left _ hgood.endLabel, hgood.direct⟩
  · cases h
    exact hgood

/-- The label loop. -/
theorem scanLabels_good {scan : LabelScan} (h : scanLabels program = .ok scan) :
    scan.Good program :=
  foldlM_invariant (fun _ _ _ _ hgood hstep => scanInstruction_good hstep hgood) h
    ⟨by simp, fun _ _ hp => by cases hp⟩

/-! ### Blocks -/

/-- What the block loop keeps; `starts` are the labels it has gone through. -/
structure BlocksOf (program : Program) (starts : List ℕ) (blocks : List BasicBlock) : Prop where
  positioned : Positioned blocks
  startPcs : blocks.map BasicBlock.startPc =
    starts.filter fun start => decide (start ≤ programEndPc program)
  valid : ∀ block ∈ blocks,
    block.startPc = programEndPc program ∨ block.startPc ∈ instructionPcs program
  plain : ∀ block ∈ blocks, block.predecessors = []

theorem appendBlock_blocksOf {starts : List ℕ} {blocks blocks' : List BasicBlock}
    {label : ℕ × Option ℕ} (h : appendBlock program blocks label = .ok blocks')
    (hblocks : BlocksOf program starts blocks) :
    BlocksOf program (starts ++ [label.1]) blocks' := by
  unfold appendBlock at h
  dsimp only at h
  split_ifs at h with hend hvalid
  · cases h
    refine ⟨hblocks.positioned, ?_, hblocks.valid, hblocks.plain⟩
    rw [hblocks.startPcs, List.filter_append, List.filter_singleton,
      decide_eq_false (Nat.not_le.2 hend)]
    simp
  · cases h
    refine ⟨fun i block hi => ?_, ?_, fun block hblock => ?_, fun block hblock => ?_⟩
    · by_cases hlt : i < blocks.length
      · exact hblocks.positioned i block (by rwa [List.getElem?_append_left hlt] at hi)
      · have hle := (List.getElem?_eq_some_iff.1 hi).1
        rw [List.length_append, List.length_singleton] at hle
        obtain rfl : i = blocks.length := by omega
        rw [List.getElem?_concat_length] at hi
        cases hi
        rfl
    · rw [List.map_append, hblocks.startPcs, List.filter_append, List.filter_singleton,
        decide_eq_true (Nat.not_lt.1 hend)]
      rfl
    · rcases List.mem_append.1 hblock with hblock | hblock
      · exact hblocks.valid block hblock
      · rw [List.mem_singleton.1 hblock]
        exact not_and_or.1 hvalid |>.imp Classical.not_not.1 Classical.not_not.1
    · rcases List.mem_append.1 hblock with hblock | hblock
      · exact hblocks.plain block hblock
      · rw [List.mem_singleton.1 hblock]

/-- The block loop. -/
theorem foldlM_appendBlock_blocksOf {labels : List (ℕ × Option ℕ)} {starts : List ℕ}
    {blocks blocks' : List BasicBlock} (h : labels.foldlM (appendBlock program) blocks = .ok blocks')
    (hblocks : BlocksOf program starts blocks) :
    BlocksOf program (starts ++ labels.map Prod.fst) blocks' := by
  induction labels generalizing starts blocks with
  | nil =>
    rw [List.foldlM_nil, pure_ok] at h
    rwa [List.map_nil, List.append_nil, ← h]
  | cons label labels ih =>
    rw [List.foldlM_cons, bind_ok] at h
    obtain ⟨next, hnext, h⟩ := h
    have := ih h (appendBlock_blocksOf hnext hblocks)
    rwa [List.append_assoc] at this

theorem buildBlocks_blocksOf {labels : List ℕ} {blocks : List BasicBlock}
    (h : buildBlocks program labels = .ok blocks) : BlocksOf program labels blocks := by
  have hempty : BlocksOf program [] [] :=
    ⟨fun i block hi => by simp at hi, rfl, fun block hb => by simp at hb,
      fun block hb => by simp at hb⟩
  have hall := foldlM_appendBlock_blocksOf h hempty
  rwa [List.nil_append, List.map_fst_zip] at hall
  simp
  omega

/-- There is a block, and at most one more than instructions. -/
theorem BlocksOf.length {labels : List ℕ} {blocks : List BasicBlock}
    (h : BlocksOf program labels blocks) (hnodup : labels.Nodup)
    (hend : programEndPc program ∈ labels) :
    0 < blocks.length ∧ blocks.length ≤ program.instructions.length + 1 := by
  have hstart : programEndPc program ∈ blocks.map BasicBlock.startPc := by
    rw [h.startPcs, List.mem_filter]
    exact ⟨hend, decide_eq_true le_rfl⟩
  constructor
  · simpa using List.length_pos_of_mem hstart
  · have hsub : (blocks.map BasicBlock.startPc).Subperm
        (programEndPc program :: instructionPcs program) := by
      refine List.subperm_of_subset (h.startPcs ▸ hnodup.filter _) fun pc hpc => ?_
      obtain ⟨block, hblock, rfl⟩ := List.mem_map.1 hpc
      exact List.mem_cons.2 (h.valid block hblock)
    simpa [instructionPcs] using hsub.length_le

/-! ### Terminators -/

/-- A looked-up block is a block. -/
theorem blockOfPc_lt {blocks : List BasicBlock} (hpos : Positioned blocks) {pc id : ℕ}
    (h : blockOfPc blocks pc = some id) : id < blocks.length := by
  obtain ⟨block, hfind, rfl⟩ := Option.map_eq_some_iff.1 h
  exact hpos.id_lt (List.mem_of_find?_eq_some hfind)

theorem blockOfPcAt_lt {blocks : List BasicBlock} (hpos : Positioned blocks) {pc id : ℕ}
    (h : blockOfPcAt blocks pc = .ok id) : id < blocks.length := by
  unfold blockOfPcAt at h
  split at h
  · rename_i id' hid
    cases h
    exact blockOfPc_lt hpos hid
  · cases h

/-- A terminator that goes to blocks below `n`, and not through a table. -/
structure Terminator.Direct (n : ℕ) (terminator : Terminator) : Prop where
  kind : terminator.kind ≠ .indirectBranch
  trueBlock : terminator.kind = .branch ∨ terminator.kind = .conditionalBranch →
    terminator.trueBlock < n
  falseBlock : terminator.kind = .conditionalBranch → terminator.falseBlock < n

theorem branchTo_direct {blocks : List BasicBlock} (hpos : Positioned blocks) {pc : ℕ}
    {terminator : Terminator} (h : branchTo blocks pc = .ok terminator) :
    terminator.Direct blocks.length := by
  simp only [branchTo, bind_ok, pure_ok] at h
  obtain ⟨target, htarget, rfl⟩ := h
  exact ⟨by simp, fun _ => blockOfPcAt_lt hpos htarget, fun h => by cases h⟩

/-- A return goes nowhere. -/
theorem return_direct (n : ℕ) : Terminator.Direct n { kind := .return_ } :=
  ⟨by simp, fun h => by simp at h, fun h => by cases h⟩

theorem conditionalTerminator_direct {blocks : List BasicBlock} (hpos : Positioned blocks)
    {block : BasicBlock} {last : Instruction} {terminator : Terminator}
    (h : conditionalTerminator blocks block last = .ok terminator) :
    terminator.Direct blocks.length := by
  simp only [conditionalTerminator, bind_ok] at h
  obtain ⟨target, htarget, h⟩ := h
  split at h
  · cases h
  · rename_i fallthrough hfall
    rw [pure_ok] at h
    subst h
    exact ⟨by simp, fun _ => blockOfPcAt_lt hpos htarget, fun _ => blockOfPc_lt hpos hfall⟩

theorem fallthroughTerminator_direct {blocks : List BasicBlock} (hpos : Positioned blocks)
    (block : BasicBlock) : (fallthroughTerminator blocks block).Direct blocks.length := by
  unfold fallthroughTerminator
  split
  · rename_i next hnext
    split_ifs
    · exact ⟨by simp, fun _ => blockOfPc_lt hpos hnext, fun h => by cases h⟩
    · exact return_direct _
  · exact return_direct _

/-- **Every terminator** is direct when all resolved `S_SETPC_B64` are. -/
theorem terminatorOf_direct {setpcTargets : List (ℕ × SetpcTargetInfo)}
    (hdirect : ∀ entry ∈ setpcTargets, entry.2.indirect = false) {blocks : List BasicBlock}
    (hpos : Positioned blocks) {block : BasicBlock} {terminator : Terminator}
    (h : terminatorOf program setpcTargets blocks block = .ok terminator) :
    terminator.Direct blocks.length := by
  unfold terminatorOf at h
  dsimp only at h
  split_ifs at h
  · cases h
    exact return_direct _
  · cases h
    exact return_direct _
  · exact branchTo_direct hpos h
  · rw [bind_ok] at h
    obtain ⟨info, hinfo, h⟩ := h
    unfold setpcTargetsAt at hinfo
    split at hinfo
    · rename_i found hlookup
      cases hinfo
      have hmem : ((lastInstruction program block).pc, info) ∈ setpcTargets := by
        obtain ⟨before, after, rfl, -⟩ := List.lookup_eq_some_iff.1 hlookup
        simp
      rw [setpcTerminator, if_neg (by rw [hdirect _ hmem]; exact Bool.false_ne_true)] at h
      exact branchTo_direct hpos h
    · cases hinfo
  · exact branchTo_direct hpos h
  · exact conditionalTerminator_direct hpos h
  · cases h
    exact fallthroughTerminator_direct hpos block

/-- A block with a direct terminator and its successors. -/
theorem Terminator.Direct.within {n : ℕ} {terminator : Terminator} (h : terminator.Direct n)
    {block : BasicBlock} (hpreds : block.predecessors = []) :
    ({ block with
      terminator := terminator
      successors := terminatorSuccessors terminator } : BasicBlock).Within n := by
  refine ⟨?_, h.kind, ?_, fun p hp => by simp [hpreds] at hp⟩
  · unfold BasicBlock.node
    cases hkind : terminator.kind with
    | branch =>
      have hlt := h.trueBlock (.inl hkind)
      dsimp only
      split_ifs <;> simpa [FlowNode.targets] using hlt
    | conditionalBranch =>
      have hlt := h.trueBlock (.inr hkind)
      have hlt' := h.falseBlock hkind
      simp [FlowNode.targets, hlt, hlt']
    | indirectBranch => exact absurd hkind h.kind
    | return_ => simp [FlowNode.targets]
    | unsupported => simp [FlowNode.targets]
  · intro s hs
    unfold terminatorSuccessors at hs
    cases hkind : terminator.kind with
    | branch =>
      rw [hkind] at hs
      rw [List.mem_singleton.1 hs]
      exact h.trueBlock (.inl hkind)
    | conditionalBranch =>
      rw [hkind] at hs
      rcases mem_addUnique.1 hs with hs | rfl
      · rw [List.mem_singleton.1 hs]
        exact h.trueBlock (.inr hkind)
      · exact h.falseBlock hkind
    | indirectBranch => exact absurd hkind h.kind
    | return_ => simp [hkind] at hs
    | unsupported => simp [hkind] at hs

/-! ### The graph -/

/-- The blocks with their terminators. -/
theorem terminated_sound {setpcTargets : List (ℕ × SetpcTargetInfo)} {labels loads : List ℕ}
    (hdirect : ∀ entry ∈ setpcTargets, entry.2.indirect = false) {blocks terminated : List BasicBlock}
    (hblocks : BlocksOf program labels blocks) (hpos : 0 < blocks.length)
    (h : blocks.mapM (terminateBlock program setpcTargets blocks) = .ok terminated) :
    ({ blocks := terminated, entryBlock := 0, codeTableLoadPcs := loads } : Graph).Sound := by
  have hforall := mapM_ok h
  have hlen := hforall.length_eq
  have hget : ∀ (i : ℕ) (block' : BasicBlock), terminated[i]? = some block' →
      ∃ (block : BasicBlock) (terminator : Terminator),
        blocks[i]? = some block ∧ terminator.Direct blocks.length ∧
        block' = { block with
          terminator := terminator
          successors := terminatorSuccessors terminator } := by
    intro i block' hi
    obtain ⟨hlt, rfl⟩ := List.getElem?_eq_some_iff.1 hi
    have hstep := hforall.get (hlen ▸ hlt) hlt
    rw [terminateBlock, bind_ok] at hstep
    obtain ⟨terminator, hterminator, hstep⟩ := hstep
    rw [pure_ok] at hstep
    exact ⟨_, terminator, List.getElem?_eq_getElem (hlen ▸ hlt),
      terminatorOf_direct hdirect hblocks.positioned hterminator, hstep.symm⟩
  refine ⟨fun i block' hi => ?_, fun block' hmem => ?_, by simpa [← hlen] using hpos,
    by simp, by simp⟩
  · obtain ⟨block, terminator, hblock, -, rfl⟩ := hget i block' hi
    exact hblocks.positioned i block hblock
  · obtain ⟨i, hi⟩ := List.getElem?_of_mem hmem
    obtain ⟨block, terminator, hblock, hterminator, rfl⟩ := hget i block' hi
    rw [← hlen]
    exact hterminator.within (hblocks.plain block (List.mem_of_getElem? hblock))

/-- The graph of a flow without an indirect `S_SETPC_B64`. -/
theorem flowGraph_sound {flow : FlowGraph} (h : flowGraph program = .ok flow)
    (hdirect : flow.indirectSetpc = false) :
    flow.graph.Sound ∧ flow.blocks.length ≤ program.instructions.length + 1 := by
  unfold flowGraph at h
  split_ifs at h
  split at h
  · cases h
  · simp only [bind_ok, pure_ok] at h
    obtain ⟨scan, hscan, blocks, hblocks, terminated, hterminated, rfl⟩ := h
    have hgood := scanLabels_good hscan
    have hspec := buildBlocks_blocksOf hblocks
    obtain ⟨hpos, hle⟩ := hspec.length (List.nodup_dedup _) (mem_sortUnique.2 hgood.endLabel)
    exact ⟨terminated_sound (hgood.direct hdirect) hspec hpos hterminated,
      (mapM_ok hterminated).length_eq.symm.trans_le hle⟩

/-- An indirect `S_SETPC_B64` makes a graph irreducible, and nothing else changes it. -/
theorem finishGraph_spec (graph : Graph) :
    (finishGraph true graph).irreducible = true ∧
      (finishGraph false graph).irreducible = graph.irreducible ∧
      (graph.irreducible = false → finishGraph false graph = graph) := by
  unfold finishGraph
  refine ⟨by simp, ?_, fun h => ?_⟩
  · cases hirr : graph.irreducible <;> simp [hirr]
  · simp [h]

/-- **A built graph** that is not irreducible is sound, with at most one block more than the
program has instructions. -/
theorem buildGraph_sound (h : buildGraph program = .ok g) (hreducible : g.irreducible = false) :
    g.Sound ∧ g.blocks.length ≤ program.instructions.length + 1 := by
  simp only [buildGraph, bind_ok, pure_ok] at h
  obtain ⟨flow, hflow, rfl⟩ := h
  obtain ⟨htrue, hfalse, hsame⟩ := finishGraph_spec
    (recomputeAnalyses (rebuildPredecessors flow.graph))
  cases hindirect : flow.indirectSetpc with
  | true =>
    rw [hindirect, htrue] at hreducible
    cases hreducible
  | false =>
    rw [hindirect, hfalse] at hreducible
    rw [hsame hreducible]
    obtain ⟨hsound, hlen⟩ := flowGraph_sound hflow hindirect
    have hreshaped := recompute_reshaped id hsound
    exact ⟨hreshaped.sound, hreshaped.length.trans_le hlen⟩

/-! ### Decoded programs -/

/-- Each instruction lies at least a word after the one before. -/
theorem pc_of_chain {instructions : List Instruction} (base : ℕ)
    (hnext : instructions.IsChain fun a b => b.pc = a.pc + 4 * a.wordCount)
    (hwords : ∀ inst ∈ instructions, 1 ≤ inst.wordCount)
    (hbase : ∀ inst, instructions.head? = some inst → base ≤ inst.pc) {i : ℕ}
    {inst : Instruction} (hi : instructions[i]? = some inst) : base + 4 * i ≤ inst.pc := by
  induction instructions generalizing base i with
  | nil => simp at hi
  | cons first rest ih =>
    cases i with
    | zero =>
      obtain rfl : first = inst := by simpa using hi
      exact hbase first rfl
    | succ i =>
      have hfirst := hbase first rfl
      have hone := hwords first List.mem_cons_self
      have := ih (base + 4) hnext.of_cons
        (fun inst hinst => hwords inst (List.mem_cons_of_mem _ hinst))
        (fun next hnext' => by
          cases rest with
          | nil => cases hnext'
          | cons second rest =>
            obtain rfl : second = next := by simpa using hnext'
            have hstep := (List.isChain_cons_cons.1 hnext).1
            omega)
        (by simpa using hi)
      omega

/-- A decoded program has at most as many instructions as code words. -/
theorem Program.Decoded.length_le (h : program.Decoded) :
    program.instructions.length ≤ program.code.length := by
  rcases hlast : program.instructions.getLast? with _ | last
  · rw [List.getLast?_eq_none_iff.1 hlast]
    exact Nat.zero_le _
  · rw [List.getLast?_eq_getElem?] at hlast
    have hpc := pc_of_chain 0 h.next (fun inst hinst => (h.words inst hinst).1)
      (fun _ _ => Nat.zero_le _) hlast
    have hwords := h.words last (List.mem_of_getElem? hlast)
    omega

/-- **Structurize preserves the program.** On the graph of a decoded program that is not
irreducible, the graph that `Structurize` leaves, whether it succeeds or fails, executes
for the same branch outcomes the same sequence of instruction ranges, conditions and
sides, synthetic forwarders aside. -/
theorem structurize_preserves_runs (hdecoded : program.Decoded) (h : buildGraph program = .ok g)
    (hreducible : g.irreducible = false)
    (outcomes : List ℕ) (events : List (BlockLabel × Option ℕ)) :
    g.Runs outcomes events ↔ (structurize g).2.Runs outcomes events := by
  obtain ⟨hsound, hlen⟩ := buildGraph_sound h hreducible
  have hle := hdecoded.length_le
  have hsize := hdecoded.size
  exact structurize_sameRuns hsound (by unfold uint32Max; omega) outcomes events

/-- A loop with two latches:

    0: v_op
    4: s_cbranch_scc0 0
    8: s_cbranch_scc1 0
    12: s_endpgm -/
def twoLatches : Program where
  code := List.replicate 4 0
  instructions :=
    [{ pc := 0 },
      { pc := 4, opcode := .sCbranchScc0, branchTarget := 0 },
      { pc := 8, opcode := .sCbranchScc1, branchTarget := 0 },
      { pc := 12, opcode := .sEndpgm }]

theorem twoLatches_decoded : twoLatches.Decoded where
  size := by decide
  start := by decide
  next := by decide
  words := by decide

/-- The preservation at work: `Structurize` joins the latches of `twoLatches`. -/
theorem structurize_preserves_runs_twoLatches :
    ∃ g, buildGraph twoLatches = .ok g ∧ g.blocks.length < (structurize g).2.blocks.length ∧
      ∀ outcomes events, g.Runs outcomes events ↔ (structurize g).2.Runs outcomes events := by
  have hbuilt : ∃ g, buildGraph twoLatches = .ok g ∧ g.irreducible = false ∧
      g.blocks.length < (structurize g).2.blocks.length := by
    refine ⟨((buildGraph twoLatches).toOption).getD {}, ?_, ?_, ?_⟩ <;> decide +kernel
  obtain ⟨g, hg, hreducible, hgrows⟩ := hbuilt
  exact ⟨g, hg, hgrows, structurize_preserves_runs twoLatches_decoded hg hreducible⟩

end Prosperismo.Cfg
