import Prosperismo.Base.Search
import Prosperismo.Cfg.Terminator
import Prosperismo.Spirv.Builder

/-!
# Emitting control flow

The model of the control-flow part of
`emitter/spirvEmitterControlFlow.cpp`: which blocks get a label, how a branch
condition is computed, and the two ways a whole function is emitted, with
structured terminators or through the dispatcher loop.

* Labels and variables, which the source numbers with `AllocateId`, are named
  after what they were allocated for (`Label`, `Variable`); result ids are the
  builder's numbers.
* The code of `EmitBlockInstructions` is one opaque body, named by its block.
* `EmitReturn` is one `ret`: whether the invocation is killed there or returns,
  it ends.
-/

namespace Prosperismo.Emitter

open Prosperismo.Cfg (uint32Max BranchCondition TerminatorKind Terminator)
open Prosperismo.Spirv

/-! ### The lowered program -/

/-- `IR::RegisterFile`. -/
inductive RegisterFile where
  | scalar
  | vector
  | vcc
  | exec
  | scc
  | m0
deriving DecidableEq, Repr

/-- `IR::Register`. -/
structure Register where
  file : RegisterFile
  index : ℕ
deriving DecidableEq, Repr

/-- `IR::BasicBlock`, as far as control flow is concerned. -/
structure Block where
  id : ℕ
  successors : List ℕ
  terminator : Terminator
deriving DecidableEq, Repr

/-- `IR::Program`, as far as control flow is concerned. -/
structure Program where
  dispatcherFallback : Bool
  blocks : List Block
deriving DecidableEq, Repr

/-- `SccRegister`: the index is the decoder's operand kind for SCC. -/
def sccRegister : Register := ⟨.scc, 11⟩

/-- The registers of `CollectMaskStateRegisters`. -/
def maskStateRegisters : List Register :=
  [⟨.exec, 0⟩, ⟨.exec, 1⟩, ⟨.vcc, 0⟩, ⟨.vcc, 1⟩, sccRegister]

/-- `CollectRegisters`: the mask state comes first, then the registers the
program's instructions name. -/
def collectRegisters (named : List Register) : List Register :=
  named.foldl (fun registers reg => if reg ∈ registers then registers else registers ++ [reg])
    maskStateRegisters

/-! ### Names -/

/-- The labels of the emitted function. -/
inductive Label where
  | entry
  | block (id : ℕ)
  | dispatchHeader
  | dispatchSelect
  | dispatchDefault
  | dispatchAfterSwitch
  | dispatchContinue
  | dispatchMerge
deriving DecidableEq, Repr

/-- The variables control flow reads and writes: one for every collected register,
and the dispatcher's. -/
inductive Variable where
  | register (reg : Register)
  | dispatchPc
deriving DecidableEq, Repr

/-- The emitters of this development. -/
abbrev Emission := Emit Label Variable ℕ

/-- How the wave masks are represented in registers. -/
structure MaskMode where
  waveSize : ℕ
  perInvocationMasks : Bool
  exactSubgroupOperations : Bool
deriving DecidableEq, Repr

/-- The part of `EmitterState` that is fixed before the function is emitted. -/
structure EmitterState extends MaskMode where
  registers : List Register
  reachableBlocks : Finset ℕ
  blockLabels : List ℕ

/-! ### Blocks and labels -/

/-- `ComputeReachableBlocks`. -/
def computeReachableBlocks (program : Program) : Finset ℕ :=
  if program.blocks.isEmpty then ∅
  else search program.blocks.length
    (fun id => ((program.blocks[id]?).map Block.successors).getD []) ∅ [0]

/-- `AllocateBlockLabels`: the ids that get a label. -/
def allocateBlockLabels (reachable : Finset ℕ) (program : Program) : List ℕ :=
  (program.blocks.filter fun block => decide (block.id ∈ reachable)).map Block.id

/-- The state in which the function is emitted. -/
def EmitterState.ofProgram (mode : MaskMode) (named : List Register) (program : Program) :
    EmitterState where
  toMaskMode := mode
  registers := collectRegisters named
  reachableBlocks := computeReachableBlocks program
  blockLabels := allocateBlockLabels (computeReachableBlocks program) program

section Emission

variable (state : EmitterState)

/-- `BlockLabel`. -/
def blockLabel (id : ℕ) : Option Label :=
  if id ∈ state.blockLabels then some (.block id) else none

/-- `PointerForRegister`. -/
def pointerForRegister (reg : Register) : Option Variable :=
  if reg ∈ state.registers then some (.register reg) else none

/-! ### Branch conditions -/

/-- `IsInactiveWave32ExecHigh`. -/
def isInactiveWave32ExecHigh (reg : Register) : Bool :=
  state.waveSize == 32 && reg.file == .exec && reg.index == 1

/-- A load into a fresh id. -/
def emitLoad (v : Variable) : Emission Operand := do
  let value ← allocateId
  addFunction (.load value v)
  return .id value

/-- `EmitRegisterLoad`. -/
def emitRegisterLoad (reg : Register) : Emission Operand :=
  if isInactiveWave32ExecHigh state reg then return .const 0
  else
    match pointerForRegister state reg with
    | none => return .const 0
    | some pointer => emitLoad pointer

/-- `IsMaskRegisterFile`. -/
def isMaskRegisterFile (file : RegisterFile) : Bool := file == .exec || file == .vcc

/-- `WaveMaskHighLoad`. -/
def waveMaskHighLoad (file : RegisterFile) : Emission Operand :=
  if state.waveSize == 32 && isMaskRegisterFile file then return .const 0
  else emitRegisterLoad state ⟨file, 1⟩

/-- `OpINotEqual` with zero. -/
def emitNonZero (x : Operand) : Emission Operand := do
  let condition ← allocateId
  addFunction (.iNotEqual condition x (.const 0))
  return .id condition

/-- `OpBitwiseOr`. -/
def emitOr (a b : Operand) : Emission Operand := do
  let combined ← allocateId
  addFunction (.bitwiseOr combined a b)
  return .id combined

/-- `OpLogicalNot`. -/
def emitNot (x : Operand) : Emission Operand := do
  let cond ← allocateId
  addFunction (.logicalNot cond x)
  return .id cond

/-- `EmitMaskActiveBool` with per-invocation masks, which is also what
`EmitMaskSummaryZeroBool` emits with exact subgroup operations: the low and the
high word together. -/
def emitWholeMaskActive (file : RegisterFile) : Emission Operand := do
  let low ← emitRegisterLoad state ⟨file, 0⟩
  let high ← waveMaskHighLoad state file
  let combined ← emitOr low high
  emitNonZero combined

/-- `EmitMaskActiveBool` in the remaining mode, where only the low word counts. -/
def emitLowMaskActive (file : RegisterFile) : Emission Operand := do
  let low ← emitRegisterLoad state ⟨file, 0⟩
  emitNonZero low

/-- The `active` of `EmitMaskSummaryZeroBool`, by mask mode. -/
def emitMaskSummaryActive (file : RegisterFile) : Emission Operand :=
  if state.perInvocationMasks || state.exactSubgroupOperations then
    emitWholeMaskActive state file
  else emitLowMaskActive state file

/-- `EmitMaskSummaryZeroBool`. -/
def emitMaskSummaryZeroBool (file : RegisterFile) (zero : Bool) : Emission Operand := do
  let active ← emitMaskSummaryActive state file
  if zero then emitNot active else return active

/-- `EmitSccBool`. -/
def emitSccBool (nonZero : Bool) : Emission Operand := do
  let value ← emitRegisterLoad state sccRegister
  let cond ← allocateId
  addFunction (if nonZero then .iNotEqual cond value (.const 0) else .iEqual cond value (.const 0))
  return .id cond

/-- `EmitBranchCondition`. -/
def emitBranchCondition : BranchCondition → Emission Operand
  | .sccZero => emitSccBool state false
  | .sccNonZero => emitSccBool state true
  | .vccZero => emitMaskSummaryZeroBool state .vcc true
  | .vccNonZero => emitMaskSummaryZeroBool state .vcc false
  | .execZero => emitMaskSummaryZeroBool state .exec true
  | .execNonZero => emitMaskSummaryZeroBool state .exec false
  | .always | .unknown => emitSccBool state true

/-! ### Structured terminators -/

/-- `EmitStructuredPrefix`. -/
def emitStructuredPrefix (term : Terminator) : Emission Unit :=
  if term.loopHeader then
    match blockLabel state term.mergeBlock, blockLabel state term.continueBlock with
    | some mergeLabel, some continueLabel => addFunction (.loopMerge mergeLabel continueLabel)
    | _, _ => return
  else if term.kind = .conditionalBranch ∧ term.mergeBlock ≠ uint32Max then
    match blockLabel state term.mergeBlock with
    | some mergeLabel => addFunction (.selectionMerge mergeLabel)
    | none => return
  else return

/-- `EmitReturn`. -/
def emitReturn : Emission Unit := addFunction .ret

/-- `EmitTerminator`. -/
def emitTerminator (term : Terminator) : Emission Unit :=
  match term.kind with
  | .branch => do
    emitStructuredPrefix state term
    match blockLabel state term.trueBlock with
    | some label => addFunction (.branch label)
    | none => emitReturn
  | .conditionalBranch => do
    let condition ← emitBranchCondition state term.condition
    emitStructuredPrefix state term
    match blockLabel state term.trueBlock, blockLabel state term.falseBlock with
    | some trueLabel, some falseLabel =>
      addFunction (.branchConditional condition trueLabel falseLabel)
    | _, _ => emitReturn
  | _ => do
    emitStructuredPrefix state term
    emitReturn

/-! ### The dispatcher -/

/-- `DispatcherTargetValue`. -/
def dispatcherTargetValue (id : ℕ) : ℕ :=
  if (blockLabel state id).isSome then id else uint32Max

/-- `EmitDispatcherStoreTarget`. -/
def emitDispatcherStoreTarget (id : ℕ) : Emission Unit :=
  addFunction (.store .dispatchPc (.const (dispatcherTargetValue state id)))

/-- The end of every dispatcher terminator. -/
def emitDispatcherStore (selected : Operand) : Emission Unit := do
  addFunction (.store .dispatchPc selected)
  addFunction (.branch .dispatchAfterSwitch)

/-- `EmitDispatcherExit`. -/
def emitDispatcherExit : Emission Unit := emitDispatcherStore (.const uint32Max)

/-- `RegisterForScalarCode`. -/
def registerForScalarCode (code : ℕ) : Option Register :=
  if code < 106 then some ⟨.scalar, code⟩
  else
    match code with
    | 106 => some ⟨.vcc, 0⟩
    | 107 => some ⟨.vcc, 1⟩
    | 124 => some ⟨.m0, 0⟩
    | 126 => some ⟨.exec, 0⟩
    | 127 => some ⟨.exec, 1⟩
    | _ => none

/-- One round of the selection loops: `selected` is replaced by the target's value
when the table value matches. -/
def emitSelectEntry (value : Operand) (selected : Operand) (entry : ℕ × ℕ) :
    Emission Operand := do
  let matched ← allocateId
  addFunction (.iEqual matched value (.const entry.1))
  let next ← allocateId
  addFunction (.select next (.id matched) (.const (dispatcherTargetValue state entry.2)) selected)
  return .id next

/-- The selection loop over a table of values and target blocks. -/
def emitSelectTable (value : Operand) (table : List (ℕ × ℕ)) : Emission Operand :=
  table.foldlM (emitSelectEntry state value) (.const uint32Max)

/-- `EmitDispatcherLoadScalarCode`, and the loop and stores that follow it. -/
def emitDispatcherSelect (pointer : Option Variable) (table : List (ℕ × ℕ)) : Emission Unit :=
  match pointer with
  | none => emitDispatcherExit
  | some pointer => do
    let value ← emitLoad pointer
    let selected ← emitSelectTable state value table
    emitDispatcherStore selected

/-- `EmitDispatcherStoreSelectorTarget`. -/
def emitDispatcherStoreSelectorTarget (term : Terminator) : Emission Unit :=
  if term.indirectSelectorCode = uint32Max ∨ term.indirectSelectorValues = [] ∨
      term.indirectSelectorValues.length ≠ term.indirectSelectorTargets.length then
    emitDispatcherExit
  else
    emitDispatcherSelect state
      ((registerForScalarCode term.indirectSelectorCode).bind (pointerForRegister state))
      (term.indirectSelectorValues.zip term.indirectSelectorTargets)

/-- `EmitDispatcherStoreIndirectTarget`. -/
def emitDispatcherStoreIndirectTarget (term : Terminator) : Emission Unit :=
  if term.indirectSelectorCode ≠ uint32Max then emitDispatcherStoreSelectorTarget state term
  else if term.indirectPcSgpr = uint32Max then emitDispatcherExit
  else
    emitDispatcherSelect state (pointerForRegister state ⟨.scalar, term.indirectPcSgpr⟩)
      (term.indirectTargetPcs.zip term.indirectTargets)

/-- `EmitDispatcherTerminator`. -/
def emitDispatcherTerminator (term : Terminator) : Emission Unit :=
  match term.kind with
  | .branch =>
    match blockLabel state term.trueBlock with
    | none => emitDispatcherExit
    | some _ => do
      emitDispatcherStoreTarget state term.trueBlock
      addFunction (.branch .dispatchAfterSwitch)
  | .conditionalBranch => do
    let condition ← emitBranchCondition state term.condition
    let selected ← allocateId
    addFunction (.select selected condition
      (.const (dispatcherTargetValue state term.trueBlock))
      (.const (dispatcherTargetValue state term.falseBlock)))
    emitDispatcherStore (.id selected)
  | .indirectBranch => emitDispatcherStoreIndirectTarget state term
  | _ => emitDispatcherExit

/-- The blocks the function contains, in order. -/
def emittedBlocks (program : Program) : List Block :=
  program.blocks.filter fun block => decide (block.id ∈ state.reachableBlocks)

/-- The cases of the dispatcher's switch. -/
def switchCases (program : Program) : List (ℕ × Label) :=
  (emittedBlocks state program).filterMap fun block =>
    (blockLabel state block.id).map fun label => (block.id, label)

/-- `EmitDispatcherSwitch`. -/
def emitDispatcherSwitch (program : Program) : Emission Unit := do
  addFunction (.label .dispatchHeader)
  let pcValue ← emitLoad .dispatchPc
  let done ← allocateId
  addFunction (.iEqual done pcValue (.const uint32Max))
  addFunction (.loopMerge .dispatchMerge .dispatchContinue)
  addFunction (.branchConditional (.id done) .dispatchMerge .dispatchSelect)
  addFunction (.label .dispatchSelect)
  addFunction (.selectionMerge .dispatchAfterSwitch)
  addFunction (.switch pcValue .dispatchDefault (switchCases state program))
  addFunction (.label .dispatchDefault)
  emitDispatcherExit

/-- A block: its label, its instructions, and its terminator as `terminator` emits
it. -/
def emitBlock (terminator : Terminator → Emission Unit) (block : Block) : Emission Unit := do
  addFunction (.label (.block block.id))
  addFunction (.body block.id)
  terminator block.terminator

/-- `EmitDispatcherBlocks`. -/
def emitDispatcherBlocks (program : Program) : Emission Unit :=
  (emittedBlocks state program).forM (emitBlock (emitDispatcherTerminator state))

/-- `EmitDispatcherLoopTail`. -/
def emitDispatcherLoopTail : Emission Unit := do
  addFunction (.label .dispatchAfterSwitch)
  addFunction (.branch .dispatchContinue)
  addFunction (.label .dispatchContinue)
  addFunction (.branch .dispatchHeader)
  addFunction (.label .dispatchMerge)
  emitReturn

/-- `EmitDispatcherFunction`. -/
def emitDispatcherFunction (program : Program) : Emission Unit := do
  addFunction (.store .dispatchPc (.const 0))
  addFunction (.branch .dispatchHeader)
  emitDispatcherSwitch state program
  emitDispatcherBlocks state program
  emitDispatcherLoopTail

/-- The structured half of `EmitFunction`. -/
def emitStructuredFunction (program : Program) : Emission Unit := do
  match blockLabel state 0 with
  | some label => addFunction (.branch label)
  | none => emitReturn
  (emittedBlocks state program).forM (emitBlock (emitTerminator state))

/-- `EmitFunction`, from the end of the prelude that initialises the registers. -/
def emitFunction (program : Program) : Emission Unit := do
  addFunction (.label .entry)
  if program.dispatcherFallback then emitDispatcherFunction state program
  else emitStructuredFunction state program

end Emission

/-- The code of the emitted function. -/
def functionCode (state : EmitterState) (program : Program) : List (Inst Label Variable ℕ) :=
  (emitFunction state program ⟨1, []⟩).2.code

end Prosperismo.Emitter
