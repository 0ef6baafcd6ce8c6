import Prosperismo.Cfg.Graph

/-!
# Building the graph

`BuildGraph`: the labels of a decoded program cut it into blocks, the last
instruction of a block gives its terminator, and the analyses of `Cfg.Graph` follow.

The call that returns `false`, and the two look-ups of a `std::map` that throw, are
the errors of `buildGraph`.
-/

namespace Prosperismo.Cfg

/-- What `DecodeProgram` promises about the program it returns: the instructions lie one
after the other from the first code word on, none is empty, and all lie inside the
code, which has at most `UINT32_MAX / 4` words. -/
structure Program.Decoded (program : Program) : Prop where
  size : program.code.length ≤ 2 ^ 30 - 1
  start : program.instructions.head?.map Instruction.pc = some 0
  next : program.instructions.IsChain fun a b => b.pc = a.pc + 4 * a.wordCount
  words : ∀ inst ∈ program.instructions,
    1 ≤ inst.wordCount ∧ inst.pc + 4 * inst.wordCount ≤ 4 * program.code.length

/-- `BuildGraph` does not return a graph. -/
inductive BuildFailure where
  /-- `return false`, with the failure it reports. -/
  | failed (kind : FailureKind) (blockId : ℕ) (message : FailureReason)
  /-- `pc_to_block.at` throws. -/
  | noBlockAt (pc : ℕ)
  /-- `setpc_targets.at` throws. -/
  | noSetpcAt (pc : ℕ)
deriving DecidableEq, Repr

/-! ### Labels -/

/-- The locals of the loop that collects the labels. -/
structure LabelScan where
  labels : List ℕ
  setpcTargets : List (ℕ × SetpcTargetInfo) := []
  indirectSetpc : Bool := false
deriving DecidableEq, Repr

section Scan

variable (program : Program)

/-- `program.instructions.front().pc`. -/
def firstPc : ℕ := (program.instructions.head?.map Instruction.pc).getD 0

/-- `instruction_pcs`. -/
def instructionPcs : List ℕ := program.instructions.map Instruction.pc

/-- `IsValidTarget`. -/
def isValidTarget (target : ℕ) : Bool :=
  target == programEndPc program ||
    (decide (firstPc program ≤ target) && decide (target ∈ instructionPcs program))

/-- The label after an instruction that may transfer control, when it is not past the end. -/
def nextLabel (nextPc : ℕ) : List ℕ := if nextPc ≤ programEndPc program then [nextPc] else []

/-- The targets of a resolved `S_SETPC_B64`. -/
def SetpcTargetInfo.allTargets (info : SetpcTargetInfo) : List ℕ :=
  if info.indirect then info.targetPcs else [info.target]

/-- The label scan of one instruction, given with its index. -/
def scanInstruction (scan : LabelScan) (entry : Instruction × ℕ) :
    Except BuildFailure LabelScan :=
  let inst := entry.1
  let nextPc := instructionEndPc inst
  if isBranch inst.opcode then
    if isValidTarget program inst.branchTarget then
      .ok { scan with labels := scan.labels ++ inst.branchTarget :: nextLabel program nextPc }
    else
      .error (.failed .invalidBranchTarget uint32Max (.invalidBranch inst.pc inst.branchTarget))
  else if inst.opcode = .sSetpcB64 then
    match resolveSetpcTargets program entry.2 with
    | none => .error (.failed .invalidBranchTarget uint32Max (.dynamicSetpc inst.pc))
    | some info =>
      match info.allTargets.find? fun target => !isValidTarget program target with
      | some target =>
        .error (.failed .invalidBranchTarget uint32Max (.invalidSetpc inst.pc target))
      | none =>
        .ok
          { labels := scan.labels ++ info.allTargets ++ nextLabel program nextPc
            setpcTargets := scan.setpcTargets ++ [(inst.pc, info)]
            indirectSetpc := scan.indirectSetpc || info.indirect }
  else if inst.opcode = .sEndpgm ∨ inst.opcode = .sTrap then
    .ok { scan with labels := scan.labels ++ [nextPc] }
  else .ok scan

/-- The label loop. -/
def scanLabels : Except BuildFailure LabelScan :=
  program.instructions.zipIdx.foldlM (scanInstruction program)
    { labels := [firstPc program, programEndPc program] }

/-! ### Blocks -/

/-- `std::lower_bound` of a pc among the instructions, which are in pc order. -/
def lowerBound (pc : ℕ) : ℕ :=
  program.instructions.findIdx fun inst => decide (pc ≤ inst.pc)

/-- One label of the block loop; the label comes with the one after it. -/
def appendBlock (blocks : List BasicBlock) (label : ℕ × Option ℕ) :
    Except BuildFailure (List BasicBlock) :=
  let start := label.1
  let endPc := programEndPc program
  if endPc < start then .ok blocks
  else if start ≠ endPc ∧ start ∉ instructionPcs program then
    .error (.failed .invalidLabel uint32Max (.invalidLabel start))
  else
    let blockEnd := label.2.getD endPc
    .ok (blocks ++ [{
      id := blocks.length
      startPc := start
      endPc := blockEnd
      instBegin := lowerBound program start
      instEnd := lowerBound program blockEnd }])

/-- The block loop over the sorted labels. -/
def buildBlocks (sortedLabels : List ℕ) : Except BuildFailure (List BasicBlock) :=
  (sortedLabels.zip ((sortedLabels.drop 1).map some ++ [none])).foldlM (appendBlock program) []

/-! ### Terminators -/

/-- `pc_to_block`; a start pc that two blocks share belongs to the first. -/
def blockOfPc (blocks : List BasicBlock) (pc : ℕ) : Option ℕ :=
  (blocks.find? fun block => block.startPc == pc).map BasicBlock.id

/-- `pc_to_block.at`. -/
def blockOfPcAt (blocks : List BasicBlock) (pc : ℕ) : Except BuildFailure ℕ :=
  match blockOfPc blocks pc with
  | some id => .ok id
  | none => .error (.noBlockAt pc)

/-- The unconditional branch to the block at a pc. -/
def branchTo (blocks : List BasicBlock) (pc : ℕ) : Except BuildFailure Terminator := do
  let target ← blockOfPcAt blocks pc
  return { kind := .branch, condition := .always, trueBlock := target }

/-- The terminator of a block that ends in `S_SETPC_B64`. -/
def setpcTerminator (blocks : List BasicBlock) (info : SetpcTargetInfo) :
    Except BuildFailure Terminator :=
  if info.indirect then do
    let targets ← info.targetPcs.mapM (blockOfPcAt blocks)
    let selectorCount := min info.selectorValues.length info.selectorTargetPcs.length
    let selectorTargets ← (info.selectorTargetPcs.take selectorCount).mapM (blockOfPcAt blocks)
    return {
      kind := .indirectBranch
      condition := .always
      indirectPcSgpr := info.pcSgpr
      indirectSelectorCode := info.selectorCode
      indirectTargetPcs := info.targetPcs
      indirectTargets := targets
      indirectSelectorValues := info.selectorValues.take selectorCount
      indirectSelectorTargets := selectorTargets }
  else branchTo blocks info.target

/-- The terminator of a block that ends in a conditional branch. -/
def conditionalTerminator (blocks : List BasicBlock) (block : BasicBlock) (last : Instruction) :
    Except BuildFailure Terminator := do
  let target ← blockOfPcAt blocks last.branchTarget
  match blockOfPc blocks (instructionEndPc last) with
  | none =>
    .error (.failed .missingFallthrough block.id (.missingFallthrough last.pc))
  | some fallthrough =>
    return {
      kind := .conditionalBranch
      condition := conditionForOpcode last.opcode
      trueBlock := target
      falseBlock := fallthrough }

/-- The terminator of a block that control falls out of. -/
def fallthroughTerminator (blocks : List BasicBlock) (block : BasicBlock) : Terminator :=
  match blockOfPc blocks block.endPc with
  | some next =>
    if block.endPc ≠ block.startPc then
      { kind := .branch, condition := .always, trueBlock := next }
    else { kind := .return_ }
  | none => { kind := .return_ }

/-- `std::map::at` of `setpc_targets`; the first of two entries for a pc counts. -/
def setpcTargetsAt (setpcTargets : List (ℕ × SetpcTargetInfo)) (pc : ℕ) :
    Except BuildFailure SetpcTargetInfo :=
  match setpcTargets.lookup pc with
  | some info => .ok info
  | none => .error (.noSetpcAt pc)

/-- The last instruction of a block with a non-empty range. -/
def lastInstruction (block : BasicBlock) : Instruction :=
  (program.instructions[block.instEnd - 1]?).getD {}

/-- The terminator of a block. -/
def terminatorOf (setpcTargets : List (ℕ × SetpcTargetInfo)) (blocks : List BasicBlock)
    (block : BasicBlock) : Except BuildFailure Terminator :=
  if block.instBegin = block.instEnd then .ok { kind := .return_ }
  else
    let last := lastInstruction program block
    if last.opcode = .sTrap then .ok { kind := .return_ }
    else if last.opcode = .sEndpgm then branchTo blocks (programEndPc program)
    else if last.opcode = .sSetpcB64 then do
      let info ← setpcTargetsAt setpcTargets last.pc
      setpcTerminator blocks info
    else if isUnconditionalBranch last.opcode then branchTo blocks last.branchTarget
    else if isConditionalBranch last.opcode then conditionalTerminator blocks block last
    else .ok (fallthroughTerminator blocks block)

/-- The successors a terminator gives its block. -/
def terminatorSuccessors (terminator : Terminator) : List ℕ :=
  match terminator.kind with
  | .branch => [terminator.trueBlock]
  | .conditionalBranch => addUnique [terminator.trueBlock] terminator.falseBlock
  | .indirectBranch => terminator.indirectTargets.foldl addUnique []
  | .return_ | .unsupported => []

/-- A block with its terminator and successors. -/
def terminateBlock (setpcTargets : List (ℕ × SetpcTargetInfo)) (blocks : List BasicBlock)
    (block : BasicBlock) : Except BuildFailure BasicBlock := do
  let terminator ← terminatorOf program setpcTargets blocks block
  return { block with
    terminator := terminator
    successors := terminatorSuccessors terminator }

/-- The `code_table_load_pcs` that the indirect branches add. -/
def tableLoads (setpcTargets : List (ℕ × SetpcTargetInfo)) (blocks : List BasicBlock) :
    List ℕ :=
  sortUnique (blocks.filterMap fun block =>
    if block.terminator.kind = .indirectBranch then
      (setpcTargets.lookup (lastInstruction program block).pc).bind fun info =>
        if info.tableLoadPc ≠ uint32Max then some info.tableLoadPc else none
    else none)

/-- What `BuildGraph` does to a graph with an indirect `S_SETPC_B64`, and to an irreducible
one. -/
def finishGraph (indirectSetpc : Bool) (graph : Graph) : Graph :=
  let graph := if indirectSetpc then
      { graph with
        irreducible := true
        unsupported := false
        failureKind := .irreducibleControlFlow
        unsupportedReason := some .jumpTable }
    else graph
  if graph.irreducible then { graph with unsupported := false } else graph

/-- What `BuildGraph` has built before the predecessors and the analyses: the blocks with
their terminators and successors. -/
structure FlowGraph where
  blocks : List BasicBlock
  codeTableLoadPcs : List ℕ
  indirectSetpc : Bool
deriving DecidableEq, Repr

/-- The part of `BuildGraph` up to the terminators. -/
def flowGraph : Except BuildFailure FlowGraph :=
  if program.instructions.isEmpty then .error (.failed .none uint32Max .emptyShader)
  else
    match program.instructions.find? fun inst => inst.opcode == .unsupported with
    | some inst =>
      .error (.failed .unsupportedInstruction uint32Max (.unsupportedInstruction inst.pc))
    | none => do
      let scan ← scanLabels program
      let blocks ← buildBlocks program (sortUnique scan.labels)
      let terminated ← blocks.mapM (terminateBlock program scan.setpcTargets blocks)
      return {
        blocks := terminated
        codeTableLoadPcs := tableLoads program scan.setpcTargets terminated
        indirectSetpc := scan.indirectSetpc }

/-- The graph of a flow graph, before the predecessors and the analyses. -/
def FlowGraph.graph (flow : FlowGraph) : Graph :=
  { blocks := flow.blocks, entryBlock := 0, codeTableLoadPcs := flow.codeTableLoadPcs }

/-- `BuildGraph`. -/
def buildGraph : Except BuildFailure Graph := do
  let flow ← flowGraph program
  return finishGraph flow.indirectSetpc (recomputeAnalyses (rebuildPredecessors flow.graph))

end Scan

end Prosperismo.Cfg
