import Prosperismo.Cfg.Terminator
import Mathlib.Algebra.Order.Group.Int

/-!
# Decoded programs

The part of `decompiler/ShaderDecoder.h` that control flow is built from: the
decoded instructions in pc order, and the code words a jump table is read from.
Program counters are `uint32_t` values; their arithmetic wraps (`u32`).
-/

namespace Prosperismo.Cfg

/-- `uint32_t` arithmetic. -/
def u32 (x : ℕ) : ℕ := x % 2 ^ 32

/-- Subtraction of `uint32_t` values. -/
def u32Sub (x y : ℕ) : ℕ := u32 (x + (2 ^ 32 - u32 y))

/-- `static_cast<uint32_t>` of an `int32_t`. -/
def u32OfInt (x : ℤ) : ℕ := (x % 2 ^ 32).toNat

/-- `x & ~3u`. -/
def alignDown (x : ℕ) : ℕ := x / 4 * 4

/-- The opcodes control flow depends on; `other` is any other. -/
inductive Opcode where
  | sBranch
  | sCbranchScc0
  | sCbranchScc1
  | sCbranchVccz
  | sCbranchVccnz
  | sCbranchExecz
  | sCbranchExecnz
  | sGetpcB64
  | sSetpcB64
  | sAddU32
  | sAddI32
  | sSubU32
  | sSubI32
  | sAddcU32
  | sLshlB32
  | sMinU32
  | sLoadDwordx2
  | sEndpgm
  | sTrap
  | unsupported
  | other (code : ℕ)
deriving DecidableEq, Repr

/-- `Decoder::OperandKind`. -/
inductive OperandKind where
  | unknown
  | literalConstant
  | integerInlineConstant
  | floatInlineConstant
  | sgpr
  | vccLo
  | vccHi
  | vccZ
  | execLo
  | execHi
  | execZ
  | scc
  | m0
  | popsExitingWaveId
  | null
  | vgpr
deriving DecidableEq, Repr

/-- `Decoder::Operand`. -/
structure Operand where
  kind : OperandKind := .unknown
  value : ℕ := 0
  signedVal : ℤ := 0
  reg : ℕ := 0
deriving DecidableEq, Repr

/-- `Decoder::Instruction`. -/
structure Instruction where
  pc : ℕ := 0
  wordCount : ℕ := 1
  opcode : Opcode := .other 0
  dst : Operand := {}
  src0 : Operand := {}
  src1 : Operand := {}
  offset : ℕ := 0
  dataDwords : ℕ := 1
  branchTarget : ℕ := 0
deriving DecidableEq, Repr

/-- `Decoder::Program`. -/
structure Program where
  code : List ℕ := []
  instructions : List Instruction
deriving DecidableEq, Repr

/-- `InstructionEndPc`. -/
def instructionEndPc (inst : Instruction) : ℕ := u32 (inst.pc + inst.wordCount * 4)

/-- `ProgramEndPc`. -/
def programEndPc (program : Program) : ℕ :=
  match program.instructions.getLast? with
  | none => 0
  | some last => instructionEndPc last

/-- `IsUnconditionalBranch`. -/
def isUnconditionalBranch (opcode : Opcode) : Bool := opcode == .sBranch

/-- `IsConditionalBranch`. -/
def isConditionalBranch : Opcode → Bool
  | .sCbranchScc0 | .sCbranchScc1 | .sCbranchVccz | .sCbranchVccnz | .sCbranchExecz
  | .sCbranchExecnz => true
  | _ => false

/-- `IsBranch`. -/
def isBranch (opcode : Opcode) : Bool := isUnconditionalBranch opcode || isConditionalBranch opcode

/-- `ConditionForOpcode`. -/
def conditionForOpcode : Opcode → BranchCondition
  | .sBranch => .always
  | .sCbranchScc0 => .sccZero
  | .sCbranchScc1 => .sccNonZero
  | .sCbranchVccz => .vccZero
  | .sCbranchVccnz => .vccNonZero
  | .sCbranchExecz => .execZero
  | .sCbranchExecnz => .execNonZero
  | _ => .unknown

/-! ### Operands -/

/-- `IsRegister`. -/
def isRegister (operand : Operand) (kind : OperandKind) (reg : ℕ) : Bool :=
  operand.kind == kind && operand.reg == reg

/-- `ScalarOperandCode`. -/
def scalarOperandCode (operand : Operand) : Option ℕ :=
  match operand.kind with
  | .sgpr => some operand.reg
  | .vccLo => some 106
  | .vccHi => some 107
  | .m0 => some 124
  | .execLo => some 126
  | .execHi => some 127
  | _ => none

/-- `IsScalarCode`. -/
def isScalarCode (operand : Operand) (code : ℕ) : Bool := scalarOperandCode operand == some code

/-- `IsImmediate`. -/
def immediate (operand : Operand) : Option ℕ :=
  match operand.kind with
  | .integerInlineConstant | .literalConstant | .floatInlineConstant => some operand.value
  | _ => none

/-- `static_cast<int32_t>` of a `uint32_t`. -/
def i32 (x : ℕ) : ℤ := if x < 2 ^ 31 then x else (x : ℤ) - 2 ^ 32

/-- `IsImmediateSigned`. -/
def immediateSigned (operand : Operand) : Option ℤ :=
  match operand.kind with
  | .integerInlineConstant | .literalConstant => some operand.signedVal
  | .floatInlineConstant => some (i32 operand.value)
  | _ => none

/-- `OtherScalarSource`. -/
def otherScalarSource (inst : Instruction) (knownCode : ℕ) : Option Operand :=
  if isScalarCode inst.src0 knownCode then some inst.src1
  else if isScalarCode inst.src1 knownCode then some inst.src0
  else none

/-- `InstructionWritesScalarCode`. -/
def instructionWritesScalarCode (inst : Instruction) (code : ℕ) : Bool :=
  match scalarOperandCode inst.dst with
  | none => false
  | some dstCode => decide (dstCode ≤ code) && decide (code < u32 (dstCode + max 1 inst.dataDwords))

/-! ### Resolving `S_SETPC_B64` -/

section Resolve

variable (instructions : List Instruction)

/-- `FindPreviousGetpc`: the index of the `S_GETPC_B64` that last wrote the pair at
`dstCode` before the index. -/
def findPreviousGetpc (dstCode : ℕ) : ℕ → Option ℕ
  | 0 => none
  | i + 1 =>
    match instructions[i]? with
    | none => none
    | some candidate =>
      if candidate.opcode == .sGetpcB64 && isScalarCode candidate.dst dstCode then some i
      else if instructionWritesScalarCode candidate dstCode then none
      else findPreviousGetpc dstCode i

/-- `ResolvePcRelativeBase`. -/
def resolvePcRelativeBase (baseCode : ℕ) : ℕ → Option ℕ
  | 0 => none
  | i + 1 =>
    match instructions[i]? with
    | none => none
    | some candidate =>
      if !instructionWritesScalarCode candidate baseCode then resolvePcRelativeBase baseCode i
      else do
        let adds := candidate.opcode == .sAddU32 || candidate.opcode == .sAddI32
        let subs := candidate.opcode == .sSubU32 || candidate.opcode == .sSubI32
        guard (adds || subs)
        let offset ← otherScalarSource candidate baseCode
        let imm ← immediateSigned offset
        let getpcIndex ← findPreviousGetpc instructions baseCode i
        let getpc ← instructions[getpcIndex]?
        let base := instructionEndPc getpc
        return alignDown (if adds then u32 (base + u32OfInt imm) else u32Sub base (u32OfInt imm))

/-- `FindPreviousScalarLoadPair`. -/
def findPreviousScalarLoadPair (dstCode : ℕ) : ℕ → Option ℕ
  | 0 => none
  | i + 1 =>
    match instructions[i]? with
    | none => none
    | some candidate =>
      if instructionWritesScalarCode candidate dstCode then
        if candidate.opcode == .sLoadDwordx2 && isScalarCode candidate.dst dstCode then some i
        else none
      else findPreviousScalarLoadPair dstCode i

/-- The inner loop of `ResolveJumpTableEntryCount`: the clamp of the table index. -/
def resolveIndexClamp (indexCode : ℕ) : ℕ → Option ℕ
  | 0 => none
  | j + 1 =>
    match instructions[j]? with
    | none => none
    | some clamp =>
      if !instructionWritesScalarCode clamp indexCode then resolveIndexClamp indexCode j
      else do
        guard (clamp.opcode == .sMinU32 && isScalarCode clamp.dst indexCode)
        let clampOther ← otherScalarSource clamp indexCode
        let maxIndex ← immediate clampOther
        guard (u32 (maxIndex + 1) != 0)
        return u32 (maxIndex + 1)

/-- The outer loop of `ResolveJumpTableEntryCount`: the shift of the table index. -/
def resolveOffsetShift (byteOffsetCode : ℕ) : ℕ → Option ℕ
  | 0 => none
  | i + 1 =>
    match instructions[i]? with
    | none => none
    | some shift =>
      if !instructionWritesScalarCode shift byteOffsetCode then
        resolveOffsetShift byteOffsetCode i
      else do
        guard (shift.opcode == .sLshlB32 && isScalarCode shift.dst byteOffsetCode)
        let shiftAmountOperand ← otherScalarSource shift byteOffsetCode
        let shiftAmount ← immediate shiftAmountOperand
        guard (shiftAmount == 3)
        resolveIndexClamp instructions byteOffsetCode i

/-- `ResolveJumpTableEntryCount`. -/
def resolveJumpTableEntryCount (beforeIndex : ℕ) (byteOffsetOperand : Operand) : Option ℕ := do
  let byteOffsetCode ← scalarOperandCode byteOffsetOperand
  resolveOffsetShift instructions byteOffsetCode beforeIndex

/-- `ScalarCodeWrittenInRange`. -/
def scalarCodeWrittenInRange (beginIndex endIndex code : ℕ) : Bool :=
  ((instructions.take endIndex).drop beginIndex).any fun inst =>
    instructionWritesScalarCode inst code

end Resolve

/-- `SetpcTargetInfo`. -/
structure SetpcTargetInfo where
  target : ℕ := 0
  indirect : Bool := false
  pcSgpr : ℕ := uint32Max
  selectorCode : ℕ := uint32Max
  tableLoadPc : ℕ := uint32Max
  targetPcs : List ℕ := []
  selectorValues : List ℕ := []
  selectorTargetPcs : List ℕ := []
deriving DecidableEq, Repr

/-- `AddUnique`, and `AddUniqueTargetPc`. -/
def addUnique (values : List ℕ) (value : ℕ) : List ℕ :=
  if value ∈ values then values else values ++ [value]

/-- The table loop of `ResolveSetpcJumpTable`: the target pc of every entry. -/
def readJumpTable (code : List ℕ) (tableWord targetBase : ℕ) (entryCount : ℕ) :
    Option (List ℕ) :=
  (List.range entryCount).mapM fun i => do
    let low := (code[tableWord + i * 2]?).getD 0
    let high := (code[tableWord + i * 2 + 1]?).getD 0
    guard (high == 0 || high == uint32Max)
    return alignDown (u32 (targetBase + low))

/-- `ResolveSetpcJumpTable`. -/
def resolveSetpcJumpTable (program : Program) (setpcIndex : ℕ) : Option SetpcTargetInfo := do
  let instructions := program.instructions
  guard (4 ≤ setpcIndex)
  let setpc ← instructions[setpcIndex]?
  guard (setpc.opcode == .sSetpcB64 && setpc.src0.kind == .sgpr)
  let pcReg ← scalarOperandCode setpc.src0
  let getpc ← instructions[setpcIndex - 3]?
  let add ← instructions[setpcIndex - 2]?
  let addc ← instructions[setpcIndex - 1]?
  guard (getpc.opcode == .sGetpcB64 && isScalarCode getpc.dst pcReg &&
    add.opcode == .sAddU32 && isScalarCode add.dst pcReg &&
    addc.opcode == .sAddcU32 && isScalarCode addc.dst (u32 (pcReg + 1)))
  let offsetLowOperand ← otherScalarSource add pcReg
  let offsetHighOperand ← otherScalarSource addc (u32 (pcReg + 1))
  let offsetLowCode ← scalarOperandCode offsetLowOperand
  let offsetHighCode ← scalarOperandCode offsetHighOperand
  guard (offsetHighCode == u32 (offsetLowCode + 1))
  let loadIndex ← findPreviousScalarLoadPair instructions offsetLowCode (setpcIndex - 3)
  let load ← instructions[loadIndex]?
  let tableBaseCode ← scalarOperandCode load.src0
  let tablePc ← resolvePcRelativeBase instructions tableBaseCode loadIndex
  let entryCount ← resolveJumpTableEntryCount instructions loadIndex load.src1
  let selectorCode ← scalarOperandCode load.src1
  guard (!scalarCodeWrittenInRange instructions (loadIndex + 1) setpcIndex selectorCode)
  let targetBase := instructionEndPc getpc
  let tableWord := tablePc / 4
  guard (tablePc % 4 == 0 && decide (u32 (tableWord + entryCount * 2) ≤ program.code.length))
  let targetPcs ← readJumpTable program.code tableWord targetBase entryCount
  guard (!targetPcs.isEmpty)
  return {
    indirect := true
    pcSgpr := pcReg
    selectorCode := selectorCode
    tableLoadPc := load.pc
    targetPcs := targetPcs.foldl addUnique []
    selectorValues := (List.range entryCount).map fun i => u32 (i * 8)
    selectorTargetPcs := targetPcs }

/-- `ResolveSetpcTarget`: a pc-relative target computed by the two instructions before,
or the pc of the instruction before. -/
def resolveSetpcTarget (program : Program) (setpcIndex : ℕ) : Option ℕ := do
  let instructions := program.instructions
  let setpc ← instructions[setpcIndex]?
  guard (setpc.opcode == .sSetpcB64 && setpc.src0.kind == .sgpr)
  let pcReg := setpc.src0.reg
  let relative : Option ℕ := do
    guard (2 ≤ setpcIndex)
    let arith ← instructions[setpcIndex - 1]?
    let getpc ← instructions[setpcIndex - 2]?
    guard (getpc.opcode == .sGetpcB64 && isRegister getpc.dst .sgpr pcReg &&
      isRegister arith.dst .sgpr pcReg)
    let adds := arith.opcode == .sAddU32 || arith.opcode == .sAddI32
    let subs := arith.opcode == .sSubU32 || arith.opcode == .sSubI32
    guard (adds || subs)
    guard (isRegister arith.src0 .sgpr pcReg || isRegister arith.src1 .sgpr pcReg)
    let imm ← immediate arith.src0 <|> immediate arith.src1
    let base := instructionEndPc getpc
    return alignDown (if adds then u32 (base + imm) else u32Sub base imm)
  let next : Option ℕ := do
    guard (1 ≤ setpcIndex)
    let getpc ← instructions[setpcIndex - 1]?
    guard (getpc.opcode == .sGetpcB64 && isRegister getpc.dst .sgpr pcReg)
    return instructionEndPc getpc
  relative <|> next

/-- `ResolveSetpcTargets`. -/
def resolveSetpcTargets (program : Program) (setpcIndex : ℕ) : Option SetpcTargetInfo :=
  match resolveSetpcJumpTable program setpcIndex with
  | some info => some info
  | none => (resolveSetpcTarget program setpcIndex).map fun target => { target := target }

end Prosperismo.Cfg
