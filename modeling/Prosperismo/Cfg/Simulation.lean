import Prosperismo.Base.Run
import Prosperismo.Cfg.Partition

/-!
# The structured graph runs the program

The two ends of `ShaderCFG.cpp` in one statement: the instructions that a wave executes,
one after the other, are those of the blocks on a walk of the graph that `Structurize`
leaves, and at every conditional branch the wave and the walk go to the same side
(`structurize_executes`). The branches decide on the state of the wave and the walk on
its outcomes, so the walk is given with the run.

Inside of a block a wave goes from one instruction to the next, and at the end of it
where the terminator says (`CutInto.step`); the rest is an induction on the trace, for a
wave anywhere in a block (`walk_of_run`).
-/

namespace Prosperismo.Cfg

variable {program : Program} {g : Graph} {writes : Instruction → ℕ → Prop}

/-! ### Traces -/

/-- The condition and the side of a conditional branch, 0 for taken. -/
abbrev Side := Option (BranchCondition × ℕ)

/-- What a trace has of an executed instruction: its index and its side. -/
abbrev Executed := ℕ × Side

/-- The side that a wave goes to. -/
inductive Instruction.Takes (inst : Instruction) (s : ScalarState) : Side → Prop
  | straight (hop : isConditionalBranch inst.opcode = false) : Takes inst s none
  | taken (hop : isConditionalBranch inst.opcode = true)
      (htaken : s.Takes (conditionForOpcode inst.opcode)) :
      Takes inst s (some (conditionForOpcode inst.opcode, 0))
  | notTaken (hop : isConditionalBranch inst.opcode = true)
      (htaken : ¬s.Takes (conditionForOpcode inst.opcode)) :
      Takes inst s (some (conditionForOpcode inst.opcode, 1))

theorem Instruction.Takes.eq_none {inst : Instruction} {s : ScalarState} {side : Side}
    (h : inst.Takes s side) (hop : isConditionalBranch inst.opcode = false) : side = none := by
  cases h with
  | straight => rfl
  | taken hcond | notTaken hcond => exact absurd hcond (Bool.eq_false_iff.1 hop)

/-- A step of the program in which an `S_SETPC_B64` goes to a pc that it is resolved to. -/
def Program.StepAt (program : Program) (writes : Instruction → ℕ → Prop) (s : ScalarState)
    (executed : Executed) (s' : ScalarState) : Prop :=
  ∃ inst, program.instructions[executed.1]? = some inst ∧ s.pc = inst.pc ∧
    inst.Executes program.code writes s s' ∧ inst.Takes s executed.2 ∧
      (inst.opcode = .sSetpcB64 → ∃ info, resolveSetpcTargets program executed.1 = some info ∧
        s'.pc ∈ info.allTargets)

/-- The side of a block with the condition. -/
def sideOf (condition : BranchCondition) (outcome : Option ℕ) : Side :=
  if condition = .always then none else outcome.map (condition, ·)

/-- The instructions that a walk executes in a block. -/
def executedIn (event : BlockLabel × Option ℕ) : List Executed :=
  (List.range' event.1.1 (event.1.2.1 - event.1.1)).map fun k =>
    (k, if k + 1 = event.1.2.1 then sideOf event.1.2.2 event.2 else none)

/-- From an index of a block on, its instruction comes first. -/
theorem drop_executedIn {first last k : ℕ} (hfirst : first ≤ k) (hlast : k < last)
    (condition : BranchCondition) (outcome : Option ℕ) :
    (executedIn ((first, last, condition), outcome)).drop (k - first) =
      (k, if k + 1 = last then sideOf condition outcome else none) ::
        (executedIn ((first, last, condition), outcome)).drop (k + 1 - first) := by
  have hlt : k - first < (executedIn ((first, last, condition), outcome)).length := by
    rw [executedIn, List.length_map, List.length_range']
    dsimp only
    omega
  rw [List.drop_eq_getElem_cons hlt, Nat.sub_add_comm hfirst]
  simp only [executedIn, List.getElem_map, List.getElem_range', Nat.one_mul,
    Nat.add_sub_cancel' hfirst]

/-! ### Steps -/

/-- The three ways on: a branch, an `S_SETPC_B64`, and to the next instruction. -/
theorem Instruction.Executes.ways {code : List ℕ} {inst : Instruction} {s s' : ScalarState}
    (h : inst.Executes code writes s s') :
    (isBranch inst.opcode = true ∧
      (s.Takes (conditionForOpcode inst.opcode) ∧ s'.pc = inst.branchTarget ∨
        ¬s.Takes (conditionForOpcode inst.opcode) ∧ s'.pc = instructionEndPc inst)) ∨
    inst.opcode = .sSetpcB64 ∨
    (endsBlock inst.opcode = false ∧ s'.pc = instructionEndPc inst) := by
  cases h with
  | branch hop htaken => exact .inl ⟨hop, .inl ⟨htaken, rfl⟩⟩
  | notTaken hop htaken => exact .inl ⟨hop, .inr ⟨htaken, rfl⟩⟩
  | setpc hop => exact .inr (.inl hop)
  | getpc hop | load hop => exact .inr (.inr ⟨by rw [hop]; rfl, rfl⟩)
  | arithmetic hop =>
    refine .inr (.inr ⟨?_, rfl⟩)
    unfold Cfg.arithmetic at hop
    split at hop <;> first | (rename_i heq; rw [heq]; rfl) | cases hop
  | other hop =>
    refine .inr (.inr ⟨?_, rfl⟩)
    unfold Opcode.isOther at hop
    split at hop <;> first | (rename_i heq; rw [heq]; rfl) | cases hop

/-- Control falls to the end of the instruction. -/
theorem Program.Decoded.followingPc_eq (h : program.Decoded) {i : ℕ} {inst : Instruction}
    (hi : program.instructions[i]? = some inst) :
    followingPc program i = instructionEndPc inst := by
  obtain ⟨hlt, rfl⟩ := List.getElem?_eq_some_iff.1 hi
  unfold followingPc
  by_cases hnext : i + 1 < program.instructions.length
  · rw [List.getElem?_eq_getElem hnext, h.ascending.instructionEndPc_eq (List.getElem_mem hlt)]
    exact List.isChain_iff_getElem.1 h.next i hnext
  · obtain rfl : i = program.instructions.length - 1 := by omega
    rw [List.getElem?_eq_none (not_lt.1 hnext)]
    dsimp only
    rw [programEndPc, List.getLast?_eq_getElem?, hi]

/-! ### Blocks -/

theorem Graph.Sound.flow_eq (h : g.Sound) {i : ℕ} {block : BasicBlock}
    (hi : g.blocks[i]? = some block) : g.flow i = some block.node := by
  rw [h.positioned.flow, hi, Option.map_some]

/-- The analyses keep the terminators. -/
theorem buildGraph_terminator {flow : FlowGraph} (hflow : flowGraph program = .ok flow)
    (h : buildGraph program = .ok g) {i : ℕ} {block' : BasicBlock}
    (hi : g.blocks[i]? = some block') :
    ∃ block, flow.blocks[i]? = some block ∧ block'.terminator = block.terminator := by
  obtain rfl : finishGraph flow.indirectSetpc (recomputeAnalyses (rebuildPredecessors flow.graph))
      = g := by
    rw [buildGraph, hflow] at h
    exact Except.ok.inj h
  rw [(finishGraph_blocks flow.indirectSetpc _).1] at hi
  obtain ⟨rebuilt, hrebuilt, hframe⟩ := recomputeAnalyses_getElem? hi
  obtain ⟨block, hblock, -, hcleared⟩ :=
    rebuildPredecessors_getElem? (flowGraph_placed hflow).1.positioned hrebuilt
  have hterm := congrArg BasicBlock.terminator hframe
  have hsame := congrArg BasicBlock.terminator hcleared
  exact ⟨block, hblock, hterm.symm.trans hsame⟩

/-- A cut of the program with the terminators that `g` has. -/
structure CutInto (program : Program) (g : Graph) (scan : LabelScan) (labels : List ℕ)
    (blocks : List BasicBlock) : Prop where
  scanned : scan.Complete program program.instructions.zipIdx
  cut : CutAt program labels blocks
  length : g.blocks.length = labels.length
  get : ∀ (i : ℕ) (block : BasicBlock), g.blocks[i]? = some block →
    ∃ start stop, labels[i]? = some start ∧
      stop = (labels[i + 1]?).getD (programEndPc program) ∧ block.startPc = start ∧
      block.instBegin = lowerBound program start ∧ block.instEnd = lowerBound program stop ∧
      terminatorOf program scan.setpcTargets blocks (blockAtLabel program i start stop) =
        .ok block.terminator

theorem buildGraph_cutInto (ha : program.Ascending) (hbuild : buildGraph program = .ok g) :
    ∃ scan labels blocks, CutInto program g scan labels blocks := by
  obtain ⟨flow, hflow, -⟩ := bind_ok.1 hbuild
  obtain ⟨scan, blocks, hscan, hblocks, hlen, hterminated⟩ := flowGraph_spec hflow
  obtain ⟨hlenG, hgetG⟩ := buildGraph_getElem? hflow hbuild
  have hne : program.instructions ≠ [] := by
    intro hnil
    rw [flowGraph, hnil] at hflow
    cases hflow
  have hcomplete := scanLabels_complete hscan
  have hcut := cutAt_of_scan ha hne hcomplete hblocks
  refine ⟨scan, sortUnique scan.labels, blocks, hcomplete, hcut,
    by rw [hlenG, hlen, hcut.length], fun i block hi => ?_⟩
  obtain ⟨flowBlock, hflowBlock, hstart, hbegin, hend, -⟩ := hgetG i block hi
  obtain ⟨flowBlock', hflowBlock', hterm⟩ := buildGraph_terminator hflow hbuild hi
  obtain rfl := Option.some_inj.1 (hflowBlock.symm.trans hflowBlock')
  obtain ⟨base, terminator, hbase, hterminator, rfl⟩ := hterminated i flowBlock hflowBlock
  rw [hcut.blocks i] at hbase
  obtain ⟨start, hlabel, rfl⟩ := Option.map_eq_some_iff.1 hbase
  exact ⟨start, _, hlabel, rfl, hstart, hbegin, hend, by rw [hterm]; exact hterminator⟩

/-- A walk of block `i` goes to the side, and on at the block at `pc`. -/
def Graph.Leads (graph : Graph) (i : ℕ) (block : BasicBlock) (side : Side) (pc : ℕ) : Prop :=
  ∃ t outcome, graph.StartsAt t pc ∧ sideOf block.terminator.condition outcome = side ∧
    ∀ outcomes events, Walk graph.flow t outcomes events →
      ∃ outcomes', Walk graph.flow i outcomes' ((block.label, outcome) :: events)

namespace CutInto

variable {scan : LabelScan} {labels : List ℕ} {blocks : List BasicBlock}
  (h : CutInto program g scan labels blocks)
include h

theorem startsAt_iff {s pc : ℕ} : g.StartsAt s pc ↔ labels[s]? = some pc := by
  constructor
  · rintro ⟨block, hs, rfl⟩
    obtain ⟨start, -, hlabel, -, rfl, -⟩ := h.get s block hs
    exact hlabel
  · intro hs
    have hlt := h.length ▸ (List.getElem?_eq_some_iff.1 hs).1
    have hblock := List.getElem?_eq_getElem hlt
    obtain ⟨start, -, hlabel, -, hstart, -⟩ := h.get s _ hblock
    exact ⟨_, hblock, hstart.trans (Option.some_inj.1 (hlabel.symm.trans hs))⟩

/-- A block that starts at an instruction has it first. -/
theorem block_at (ha : program.Ascending) {i k : ℕ} {inst : Instruction}
    (hk : program.instructions[k]? = some inst) (hstart : g.StartsAt i inst.pc) :
    ∃ block, g.blocks[i]? = some block ∧ block.instBegin = k ∧ k < block.instEnd := by
  obtain ⟨block, hi, hpc⟩ := hstart
  obtain ⟨start, stop, hlabel, rfl, rfl, hbegin, hend, -⟩ := h.get i block hi
  rw [hpc] at hlabel hbegin
  refine ⟨block, hi, hbegin.trans (ha.lowerBound_pc hk), ?_⟩
  obtain ⟨next, hnext, hlt⟩ | ⟨-, heq⟩ := h.cut.next_or_end hlabel
  · rwa [hend, hnext, Option.getD_some, ha.lt_lowerBound_iff hk]
  · exact absurd heq ((ha.pc_lt_end hk).trans_le (ha.end_le_programEndPc hk)).ne

/-- **The end of a block.** A walk of the block, with the side that the wave goes to, goes on at
the block where the wave does. -/
theorem step (hdecoded : program.Decoded) (hsound : g.Sound) {i : ℕ} {block : BasicBlock}
    (hi : g.blocks[i]? = some block) (hlt : block.instBegin < block.instEnd) {s s' : ScalarState}
    {side : Side} (hstep : program.StepAt writes s (block.instEnd - 1, side) s') :
    g.Leads i block side s'.pc := by
  have ha := hdecoded.ascending
  obtain ⟨start, stop, hlabel, hstop, -, hbegin, hend, hterm⟩ := h.get i block hi
  obtain ⟨last, hlast, -, hexec, hside, hsetpc⟩ := hstep
  have hne : (blockAtLabel program i start stop).instBegin ≠
      (blockAtLabel program i start stop).instEnd := by
    show lowerBound program start ≠ lowerBound program stop
    rw [← hbegin, ← hend]
    exact hlt.ne
  have hlastOf : lastInstruction program (blockAtLabel program i start stop) = last := by
    show (program.instructions[lowerBound program stop - 1]?).getD {} = last
    rw [← hend, hlast, Option.getD_some]
  have hflow := hsound.flow_eq hi
  have hstarts : ∀ {pc t}, blockOfPc blocks pc = some t → g.StartsAt t pc := fun ht =>
    h.startsAt_iff.2 (h.cut.blockOfPc_iff.1 ht)
  have hbranch : branchTo blocks s'.pc = .ok block.terminator →
      isConditionalBranch last.opcode = false → g.Leads i block side s'.pc := by
    intro hto hcond
    simp only [branchTo, bind_ok, pure_ok, blockOfPcAt_eq] at hto
    obtain ⟨t, ht, hterminator⟩ := hto
    obtain rfl := hside.eq_none hcond
    refine ⟨t, some 0, hstarts ht, by rw [← hterminator]; rfl, fun _ _ hw => ⟨_, .branch ?_ hw⟩⟩
    rw [hflow, BasicBlock.node, BasicBlock.isForwarder, beq_eq_false_iff_ne.2 hlt.ne,
      ← hterminator]
    rfl
  unfold terminatorOf at hterm
  rw [if_neg hne, hlastOf] at hterm
  dsimp only at hterm
  have hways := hexec.ways
  split_ifs at hterm with htrap hendpgm hset huncond hcond
  · simp [htrap, isBranch, isUnconditionalBranch, isConditionalBranch, endsBlock] at hways
  · simp [hendpgm, isBranch, isUnconditionalBranch, isConditionalBranch, endsBlock] at hways
  · -- the target that it is resolved to
    rw [bind_ok] at hterm
    obtain ⟨info, hinfo, hterm⟩ := hterm
    obtain ⟨found, hfound, hlands⟩ := hsetpc hset
    have hmem : (last.pc, info) ∈ scan.setpcTargets := by
      unfold setpcTargetsAt at hinfo
      split at hinfo
      · rename_i hlookup
        cases hinfo
        obtain ⟨before, after, heq, -⟩ := List.lookup_eq_some_iff.1 hlookup
        rw [heq]
        simp
      · cases hinfo
    obtain ⟨entry, hentry, hpc, hresolved⟩ := h.scanned.resolved _ hmem
    have hindex := ha.index_unique (List.mem_zipIdx_iff_getElem?.1 hentry) hlast hpc
    rw [hindex, hfound] at hresolved
    cases hresolved
    unfold setpcTerminator at hterm
    unfold SetpcTargetInfo.allTargets at hlands
    split_ifs at hterm hlands with hindirect
    · simp only [bind_ok, pure_ok] at hterm
      obtain ⟨_, -, _, -, heq⟩ := hterm
      exact absurd (by rw [← heq]) (hsound.within block (List.mem_of_getElem? hi)).direct
    · rw [← List.mem_singleton.1 hlands] at hterm
      exact hbranch hterm (by rw [hset]; rfl)
  · have hop := beq_iff_eq.1 huncond
    have hpc : s'.pc = last.branchTarget := by
      simpa [hop, isBranch, isUnconditionalBranch, conditionForOpcode, ScalarState.Takes,
        endsBlock] using hways
    exact hbranch (hpc ▸ hterm) (by rw [hop]; rfl)
  · -- both decide on the state of the wave
    simp only [conditionalTerminator, bind_ok, blockOfPcAt_eq] at hterm
    obtain ⟨target, htarget, hterm⟩ := hterm
    split at hterm
    · cases hterm
    rename_i fallthrough hfall
    have hterm := pure_ok.1 hterm
    have hcondition : block.terminator.condition = conditionForOpcode last.opcode := by
      rw [← hterm]
    have hnot : conditionForOpcode last.opcode ≠ .always := by
      unfold isConditionalBranch at hcond
      split at hcond <;> first | (rename_i heq; rw [heq]; decide) | cases hcond
    have hwalk : ∀ {j t}, [target, fallthrough][j]? = some t → blockOfPc blocks s'.pc = some t →
        g.Leads i block (some (conditionForOpcode last.opcode, j)) s'.pc := by
      intro j t hj ht
      refine ⟨t, some j, hstarts ht, ?_, fun _ _ hw => ⟨_, .choose ?_ hj hw⟩⟩
      · rw [hcondition, sideOf, if_neg hnot, Option.map_some]
      · rw [hflow, BasicBlock.node, ← hterm]
    obtain ⟨-, hway⟩ | hset' | ⟨hends, -⟩ := hways
    · cases hside with
      | straight hop => exact absurd hcond (Bool.eq_false_iff.1 hop)
      | taken _ ht => exact hwalk (j := 0) rfl ((hway.resolve_right fun hn => hn.1 ht).2 ▸ htarget)
      | notTaken _ ht => exact hwalk (j := 1) rfl ((hway.resolve_left fun hn => ht hn.1).2 ▸ hfall)
    · exact absurd hset' hset
    · rw [endsBlock, isBranch, hcond, Bool.or_true] at hends
      cases hends
  · -- control falls into the next block
    have hpc : s'.pc = instructionEndPc last := by
      obtain ⟨hb, -⟩ | hset' | ⟨-, hpc⟩ := hways
      · rw [isBranch, Bool.or_eq_true] at hb
        exact absurd hb (not_or.2 ⟨huncond, hcond⟩)
      · exact absurd hset' hset
      · exact hpc
    obtain ⟨next, hnext, hlt'⟩ | ⟨hnone, hstart⟩ := h.cut.next_or_end hlabel
    · rw [hnext, Option.getD_some] at hstop
      subst hstop
      have hfollow := h.cut.followingPc_eq ha hlabel hnext
      rw [← hend, hdecoded.followingPc_eq hlast, ← hpc] at hfollow
      have hblock := h.cut.blockOfPc_iff.2 hnext
      refine hbranch ?_ (Bool.eq_false_of_not_eq_true hcond)
      rw [← hterm, fallthroughTerminator,
        show (blockAtLabel program i start stop).endPc = stop from rfl, hblock]
      dsimp only
      rw [if_pos (show stop ≠ (blockAtLabel program i start stop).startPc from hlt'.ne'), branchTo,
        hfollow, blockOfPcAt_eq.2 hblock]
      rfl
    · rw [hnone, Option.getD_none, ← hstart] at hstop
      rw [hstop] at hne
      exact absurd rfl hne

end CutInto

/-! ### Runs -/

/-- A block with instructions has a walk. -/
theorem exists_walk_of_lt (hsound : g.Sound) {i : ℕ} {block : BasicBlock}
    (hi : g.blocks[i]? = some block) (hlt : block.instBegin < block.instEnd) :
    ∃ outcomes outcome, Walk g.flow i outcomes [(block.label, outcome)] := by
  have hflow := hsound.flow_eq hi
  unfold BasicBlock.node at hflow
  rw [BasicBlock.isForwarder, beq_eq_false_iff_ne.2 hlt.ne] at hflow
  split at hflow
  · exact ⟨_, _, .branch hflow (.stop _)⟩
  · exact ⟨_, _, .choose (i := 0) hflow rfl (.stop _)⟩
  · exact absurd ‹_› (hsound.within block (List.mem_of_getElem? hi)).direct
  · exact ⟨_, _, .halt hflow⟩
  · exact ⟨_, _, .halt hflow⟩

/-- **A run from inside of a block** executes the rest of the block, and then the blocks of a
walk. -/
theorem walk_of_run (hdecoded : program.Decoded) (hbuild : buildGraph program = .ok g)
    (hsound : g.Sound) {s' : ScalarState} : ∀ {trace : List Executed} {s : ScalarState},
    Run (program.StepAt writes) s trace s' → ∀ {i k : ℕ} {block : BasicBlock},
      g.blocks[i]? = some block → block.instBegin ≤ k → k < block.instEnd → program.At k s →
        ∃ outcomes outcome events, Walk g.flow i outcomes ((block.label, outcome) :: events) ∧
          trace <+: (executedIn (block.label, outcome)).drop (k - block.instBegin) ++
            events.flatMap executedIn
  | [], s, hrun, i, k, block, hi, hle, hlt, hat => by
    obtain ⟨outcomes, outcome, hw⟩ := exists_walk_of_lt hsound hi (hle.trans_lt hlt)
    exact ⟨outcomes, outcome, [], hw, List.nil_prefix⟩
  | executed :: trace, s, hrun, i, k, block, hi, hle, hlt, ⟨inst, hk, hpc⟩ => by
    have ha := hdecoded.ascending
    obtain ⟨scan, labels, blocks, h⟩ := buildGraph_cutInto ha hbuild
    obtain ⟨s₁, hstep, hrest⟩ := hrun.uncons
    obtain ⟨index, side⟩ := executed
    obtain ⟨inst', hindex, hpc', hexec, hside, -⟩ := id hstep
    obtain rfl := ha.index_unique hindex hk (hpc'.symm.trans hpc)
    have ih := @walk_of_run hdecoded hbuild hsound s' trace s₁ hrest
    have hdrop := drop_executedIn hle hlt block.terminator.condition
    by_cases hlast : index + 1 = block.instEnd
    · obtain rfl : index = block.instEnd - 1 := by omega
      obtain ⟨t, outcome, hstart, hsame, hwalk⟩ := h.step hdecoded hsound hi
        (hle.trans_lt hlt) hstep
      obtain ⟨outcomes, events, hw, hpre⟩ : ∃ outcomes events, Walk g.flow t outcomes events ∧
          trace <+: events.flatMap executedIn := by
        cases trace with
        | nil => exact ⟨[], [], .stop t, List.nil_prefix⟩
        | cons next rest =>
          obtain ⟨_, ⟨inst₁, hk₁, hpc₁, -⟩, -⟩ := hrest.uncons
          obtain ⟨block', hi', hbegin, hlt'⟩ := h.block_at ha hk₁ (hpc₁ ▸ hstart)
          obtain ⟨outcomes, outcome, events, hw, hpre⟩ := ih hi' hbegin.le hlt' ⟨_, hk₁, hpc₁⟩
          rw [hbegin, Nat.sub_self, List.drop_zero, ← List.flatMap_cons] at hpre
          exact ⟨outcomes, _, hw, hpre⟩
      obtain ⟨outcomes', hw'⟩ := hwalk outcomes events hw
      refine ⟨outcomes', outcome, events, hw', ?_⟩
      have hnil : (executedIn (block.label, outcome)).length ≤
          block.instEnd - 1 + 1 - block.instBegin := by
        rw [executedIn, List.length_map, List.length_range', hlast]
        exact le_rfl
      rw [BasicBlock.label, hdrop, if_pos hlast, hsame, ← BasicBlock.label,
        List.drop_eq_nil_of_le hnil]
      exact List.prefix_cons_inj _ |>.2 hpre
    · -- only the last instruction ends a block
      have hends : endsBlock inst'.opcode = false := Bool.eq_false_of_not_eq_true fun hends =>
        hlast ((buildGraph_partitions ha hbuild).endings block
          (List.mem_of_getElem? hi) index inst' hle hlt hindex hends)
      have hno := hends
      simp only [endsBlock, isBranch, Bool.or_eq_false_iff, beq_eq_false_iff_ne] at hno
      obtain rfl := hside.eq_none hno.1.1.1.2
      obtain ⟨-, stop, -, -, -, -, hend, -⟩ := h.get i block hi
      have hle' := @lowerBound_le program stop
      have hk' := List.getElem?_eq_getElem (by omega : index + 1 < program.instructions.length)
      obtain ⟨hb, -⟩ | hset | ⟨-, hnext⟩ := hexec.ways
      · rw [endsBlock, hb] at hends
        cases hends
      · exact absurd hset hno.1.1.2
      · obtain ⟨outcomes, outcome, events, hw, hpre⟩ := ih hi (by omega) (by omega)
          ⟨_, hk', hnext.trans (hdecoded.followingPc_eq hindex ▸ by rw [followingPc, hk'])⟩
        refine ⟨outcomes, outcome, events, hw, ?_⟩
        rw [BasicBlock.label, hdrop, if_neg hlast]
        exact List.prefix_cons_inj _ |>.2 hpre

/-- **The structured graph runs the program.** Every run of a decoded program that is not marked
irreducible, in which an `S_SETPC_B64` goes where it is resolved to, executes the instructions of
the blocks on a walk of the graph that `Structurize` leaves, one after the other, and takes the
sides that the walk takes. -/
theorem structurize_executes (hdecoded : program.Decoded) (hbuild : buildGraph program = .ok g)
    (hreducible : g.irreducible = false) {s₀ s : ScalarState} (hstart : program.Starts s₀)
    {trace : List Executed} (hrun : Run (program.StepAt writes) s₀ trace s) :
    ∃ outcomes events, (structurize g).2.Runs outcomes events ∧
      trace <+: events.flatMap executedIn := by
  have ha := hdecoded.ascending
  obtain ⟨hsound, hlen⟩ := buildGraph_sound hbuild hreducible
  have hle := hdecoded.length_le
  have hsize := hdecoded.size
  have hsame := structurize_sameRuns hsound (by unfold uint32Max; omega)
  suffices hruns : ∃ outcomes events, g.Runs outcomes events ∧
      trace <+: events.flatMap executedIn by
    obtain ⟨outcomes, events, hw, hpre⟩ := hruns
    exact ⟨outcomes, events, (hsame outcomes events).1 hw, hpre⟩
  cases trace with
  | nil => exact ⟨[], [], .stop _, List.nil_prefix⟩
  | cons next rest =>
    obtain ⟨scan, labels, blocks, h⟩ := buildGraph_cutInto ha hbuild
    obtain ⟨_, ⟨inst, hk, hpc, -⟩, -⟩ := hrun.uncons
    obtain ⟨block, hi, hbegin, hlt⟩ := h.block_at (i := 0) ha hk
      (h.startsAt_iff.2 (by rw [h.cut.first, ← hstart.1, hpc]))
    obtain ⟨outcomes, outcome, events, hw, hpre⟩ :=
      walk_of_run hdecoded hbuild hsound hrun hi hbegin.le hlt ⟨inst, hk, hpc⟩
    rw [hbegin, Nat.sub_self, List.drop_zero, ← List.flatMap_cons] at hpre
    obtain ⟨flow, hflow, -⟩ := bind_ok.1 hbuild
    obtain ⟨-, -, -, -, -, -, -, hentry, -⟩ := buildGraph_analysed hflow hbuild
    exact ⟨outcomes, _, by rw [Graph.Runs, hentry]; exact hw, hpre⟩

/-- A round of the loop of `twoLatches`, past the first latch and back from the second. -/
theorem structurize_executes_twoLatches : ∃ g outcomes events, buildGraph twoLatches = .ok g ∧
    (structurize g).2.Runs outcomes events ∧
      [(0, none), (1, some (.sccZero, 1)), (2, some (.sccNonZero, 0))] <+:
        events.flatMap executedIn := by
  have hbuilt : ∃ g, buildGraph twoLatches = .ok g ∧ g.irreducible = false := by
    refine ⟨((buildGraph twoLatches).toOption).getD {}, ?_, ?_⟩ <;> decide +kernel
  obtain ⟨g, hg, hreducible⟩ := hbuilt
  let s (pc : ℕ) : ScalarState := ⟨pc, fun _ => 0, true⟩
  have hstep : ∀ pc pc' executed, twoLatches.StepAt (fun _ _ => False) (s pc) executed (s pc') →
      Run (twoLatches.StepAt fun _ _ => False) (s pc) [executed] (s pc') := fun _ _ _ => Run.single
  have hrun := ((hstep 0 4 (0, none) ⟨_, rfl, rfl, .other rfl fun _ _ => rfl, .straight rfl,
    by decide⟩).append (hstep 4 8 (1, some (.sccZero, 1)) ⟨_, rfl, rfl,
      .notTaken rfl Bool.noConfusion, .notTaken rfl Bool.noConfusion, by decide⟩)).append
    (hstep 8 0 (2, some (.sccNonZero, 0)) ⟨_, rfl, rfl, .branch rfl rfl, .taken rfl rfl,
      by decide⟩)
  obtain ⟨outcomes, events, hwalk, hpre⟩ :=
    structurize_executes twoLatches_decoded hg hreducible ⟨rfl, fun _ => rfl⟩ hrun
  exact ⟨g, outcomes, events, hg, hwalk, hpre⟩

end Prosperismo.Cfg
