import Prosperismo.Decoder.MemoryOps
import Prosperismo.Decoder.VectorAluTables

/-!
# Vector ALU instructions

`VectorAluOps.cpp`: the families VOP1, VOP2, VOPC, VOP3, VOP3P and VINTRP. An instruction of
the first three is one word, or two with a modifier (SDWA or DPP); one of VOP3 and VOP3P is
two words. A literal can follow.

The modifiers of the operands are left out, apart from the checks that they have to pass:
an instruction that does not pass one is unsupported, and its literal is not read.
-/

namespace Prosperismo.Decoder

section Decode

variable (pc : ℕ) (code : Code) (index : ℕ)

/-- The word of a modifier, behind the one of the instruction. -/
def modifierWord (encoding : Encoding) : Except Failure ℕ :=
  if code.length ≤ index + 1 then .error (.truncated encoding pc) else code.word (index + 1)

/-- The source of an SDWA operand: a vector register, unless the flag says that it is scalar. -/
def sdwaSource (source : ℕ) (scalar : Bool) : ℕ := source + if scalar then 0 else 256

/-- The destination of a VOP1 instruction. -/
def decodeVop1Destination (opcode : Opcode) (vdst : ℕ) : Except Failure Operand :=
  if usesScalarDestination opcode then decodeScalarDestination vdst pc else decodeVectorGpr vdst

/-! ### VOP1 -/

/-- `DecodeVop1Sdwa`. -/
def decodeVop1Sdwa (vdst : ℕ) (inst : Instruction) : Except Failure Instruction := do
  let modifier ← modifierWord pc code index .vop1Sdwa
  let inst ← setRawWords code index 2 inst
  if !validateVop1Sdwa inst.opcode modifier then return inst.unsupported
  else
    let dst ← decodeVop1Destination pc inst.opcode vdst
    let src0 ← decodeScalarSource (sdwaSource (modifier &&& 0xff) (bit modifier 23)) pc
    readLiteralOperands code index { inst with dst, src0, srcCount := 1 }

/-- `DecodeVop1Dpp`. -/
def decodeVop1Dpp (vdst : ℕ) (inst : Instruction) : Except Failure Instruction := do
  let modifier ← modifierWord pc code index .vop1Dpp
  let inst ← setRawWords code index 2 inst
  let dst ← decodeVop1Destination pc inst.opcode vdst
  let src0 ← decodeScalarSource ((modifier &&& 0xff) + 256) pc
  let inst := { inst with dst, src0, srcCount := 1 }
  if !isVop1FloatSourceOpcode inst.opcode && (bit modifier 20 || bit modifier 21) then
    return inst.unsupported
  else readLiteralOperands code index inst

/-- `DecodeVop1`. -/
def decodeVop1 : Except Failure Instruction := do
  let word ← code.word index
  let opcode := word >>> 9 &&& 0xff
  let src0 := word &&& 0x1ff
  let vdst := word >>> 17 &&& 0xff
  let inst ← setRawWords code index 1 { pc, opcode := lookup vop1Ops opcode }
  if inst.opcode = .unsupported then return inst.unsupported
  else if inst.opcode = .vNop then return { inst with dst := { kind := .null }, srcCount := 0 }
  else if src0 = 249 then decodeVop1Sdwa pc code index vdst inst
  else if src0 = 250 then decodeVop1Dpp pc code index vdst inst
  else
    let dst ← decodeVop1Destination pc inst.opcode vdst
    let src0 ← decodeScalarSource src0 pc
    readLiteralOperands code index { inst with dst, src0, srcCount := 1 }

/-! ### VOPC -/

/-- `DecodeVopcSdwa`. -/
def decodeVopcSdwa (vsrc1 : ℕ) (inst : Instruction) : Except Failure Instruction := do
  let modifier ← modifierWord pc code index .vopcSdwa
  let fields := decodeVopcSdwaFields modifier
  let inst ← setRawWords code index 2 inst
  if 6 < fields.src0Sel ∨ 6 < fields.src1Sel then return inst.unsupported
  else if inst.opcode = .unsupported then return inst.unsupported
  else
    let src0 ← decodeScalarSource (sdwaSource fields.src0 fields.s0) pc
    let src1 ← decodeScalarSource (sdwaSource vsrc1 fields.s1) pc
    let dst ←
      if isVopcCompareExec inst.opcode then .ok { inst.dst with kind := .execLo }
      else if !fields.sd then .ok { inst.dst with kind := .vccLo }
      else decodeScalarDestination fields.sdst pc
    readLiteralOperands code index { inst with src0, src1, dst, srcCount := 2 }

/-- `DecodeVopcDpp`. -/
def decodeVopcDpp (vsrc1 : ℕ) (inst : Instruction) : Except Failure Instruction := do
  let modifier ← modifierWord pc code index .vopcDpp
  let inst ← setRawWords code index 2 inst
  if inst.opcode = .unsupported then return inst.unsupported
  else
    let src0 ← decodeScalarSource ((modifier &&& 0xff) + 256) pc
    let src1 ← decodeVectorGpr vsrc1
    readLiteralOperands code index { inst with
      src0
      src1
      dst := { inst.dst with kind := if isVopcCompareExec inst.opcode then .execLo else .vccLo }
      srcCount := 2 }

/-- `DecodeVopc`. -/
def decodeVopc : Except Failure Instruction := do
  let word ← code.word index
  let opcode := lookup vopcOps (word >>> 17 &&& 0xff)
  let src0 := word &&& 0x1ff
  let vsrc1 := word >>> 9 &&& 0xff
  let inst ← setRawWords code index 1
    { pc, opcode, dst := { kind := if isVopcCompareExec opcode then .execLo else .vccLo } }
  if src0 = 249 then decodeVopcSdwa pc code index vsrc1 inst
  else if src0 = 250 then decodeVopcDpp pc code index vsrc1 inst
  else if inst.opcode = .unsupported then return inst.unsupported
  else
    let src0 ← decodeScalarSource src0 pc
    let src1 ← decodeVectorGpr vsrc1
    readLiteralOperands code index { inst with src0, src1, srcCount := 2 }

/-! ### VOP2 -/

/-- `FinalizeVop2Instruction`. -/
def finalizeVop2Instruction (inst : Instruction) : Except Failure Instruction :=
  let literal : Operand := { kind := .literalConstant }
  readLiteralOperands code index <|
    if inst.opcode = .vMadmkF32 ∨ inst.opcode = .vFmamkF16 then
      { inst with src2 := inst.src1, src1 := literal, srcCount := 3 }
    else if inst.opcode = .vMadakF32 ∨ inst.opcode = .vFmaakF16 then
      { inst with src2 := literal, srcCount := 3 }
    else if inst.opcode = .vAddcU32 ∨ inst.opcode = .vSubrevCoCiU32 then
      { inst with
        dst2 := { inst.dst2 with kind := .vccLo }
        src2 := { inst.src2 with kind := .vccLo }
        srcCount := 3 }
    else { inst with srcCount := 2 }

/-- `DecodeVop2Sdwa`. -/
def decodeVop2Sdwa (vdst vsrc1 : ℕ) (inst : Instruction) : Except Failure Instruction := do
  let modifier ← modifierWord pc code index .vop2Sdwa
  let fields := decodeVop2SdwaFields modifier
  let inst ← setRawWords code index 2 inst
  if !validateVop2Sdwa inst.opcode fields then return inst.unsupported
  else
    let dst ← decodeVectorGpr vdst
    let src0 ← decodeScalarSource (sdwaSource fields.src0 fields.s0) pc
    let src1 ← decodeScalarSource (sdwaSource vsrc1 fields.s1) pc
    finalizeVop2Instruction code index { inst with dst, src0, src1 }

/-- `DecodeVop2Dpp`. -/
def decodeVop2Dpp (vdst vsrc1 : ℕ) (inst : Instruction) : Except Failure Instruction := do
  let modifier ← modifierWord pc code index .vop2Dpp
  let inst ← setRawWords code index 2 inst
  let dst ← decodeVectorGpr vdst
  let src0 ← decodeScalarSource ((modifier &&& 0xff) + 256) pc
  let src1 ← decodeVectorGpr vsrc1
  let inst := { inst with dst, src0, src1 }
  if !isVop2FloatSourceOpcode inst.opcode &&
      (bit modifier 20 || bit modifier 21 || bit modifier 22 || bit modifier 23) then
    return inst.unsupported
  else finalizeVop2Instruction code index inst

/-- `DecodeVop2`. -/
def decodeVop2 : Except Failure Instruction := do
  let word ← code.word index
  let opcode := word >>> 25 &&& 0x3f
  let vdst := word >>> 17 &&& 0xff
  let src0 := word &&& 0x1ff
  let vsrc1 := word >>> 9 &&& 0xff
  let inst ← setRawWords code index 1 { pc, opcode := lookup vop2Ops opcode }
  if opcode = 0x3e then decodeVopc pc code index
  else if opcode = 0x3f then decodeVop1 pc code index
  else if inst.opcode = .unsupported then return inst.unsupported
  else if src0 = 249 then decodeVop2Sdwa pc code index vdst vsrc1 inst
  else if src0 = 250 then decodeVop2Dpp pc code index vdst vsrc1 inst
  else
    let dst ← decodeVectorGpr vdst
    let src0 ← decodeScalarSource src0 pc
    let src1 ← decodeVectorGpr vsrc1
    finalizeVop2Instruction code index { inst with dst, src0, src1 }

/-! ### VOP3, VOP3P and VINTRP -/

/-- `vop3b_carry_in` of `DecodeVop3`. -/
def isVop3BCarryIn (decoded : Opcode) (opcode : ℕ) : Bool :=
  decoded = .vAddcU32 && opcode = 0x128 || decoded = .vSubrevCoCiU32 && opcode = 0x12a

/-- The end of `DecodeVop3`: the sources behind the first, which the encoding and the opcode
decide. -/
def decodeVop3Sources (opcode sdst src1 src2 : ℕ) (inst : Instruction) :
    Except Failure Instruction := do
  if isVop3EncodedVopc opcode then
    let src1 ← decodeScalarSource src1 pc
    readLiteralOperands code index { inst with src1, srcCount := 2 }
  else if isVop3EncodedVop1 opcode then
    readLiteralOperands code index { inst with srcCount := 1 }
  else if isVop3BCarryIn inst.opcode opcode then
    let dst2 ← decodeScalarDestination sdst pc
    let src1 ← decodeScalarSource src1 pc
    let src2 ← decodeScalarSource src2 pc
    readLiteralOperands code index { inst with dst2, src1, src2, srcCount := 3 }
  else if isVop3BCarryOutOpcode inst.opcode then
    let dst2 ← decodeScalarDestination sdst pc
    let src1 ← decodeScalarSource src1 pc
    readLiteralOperands code index { inst with dst2, src1, srcCount := 2 }
  else if isVop3BMadU64Opcode inst.opcode then
    let dst2 ← decodeScalarDestination sdst pc
    let src1 ← decodeScalarSource src1 pc
    let src2 ← decodeScalarSource src2 pc
    readLiteralOperands code index { inst with dst2, src1, src2, srcCount := 3 }
  else if isVop3EncodedVop2 opcode then
    let src1 ← decodeScalarSource src1 pc
    if inst.opcode = .vCndmaskB32 then
      let src2 ← decodeScalarSource src2 pc
      readLiteralOperands code index { inst with src1, src2, srcCount := 3 }
    else readLiteralOperands code index { inst with src1, srcCount := 2 }
  else
    let src1 ← decodeScalarSource src1 pc
    if 2 < nativeVop3SourceCount inst.opcode then
      let src2 ← decodeScalarSource src2 pc
      readLiteralOperands code index
        { inst with src1, src2, srcCount := nativeVop3SourceCount inst.opcode }
    else
      readLiteralOperands code index
        { inst with src1, srcCount := nativeVop3SourceCount inst.opcode }

/-- `DecodeVop3`. -/
def decodeVop3 : Except Failure Instruction := do
  let (word0, word1) ← twoWords pc code index .vop3
  let opcode := word0 >>> 16 &&& 0x3ff
  let vdst := word0 &&& 0xff
  let sdst := word0 >>> 8 &&& 0x7f
  let src0 := word1 &&& 0x1ff
  let src1 := word1 >>> 9 &&& 0x1ff
  let src2 := word1 >>> 18 &&& 0x1ff
  let abs := word0 >>> 8 &&& 0x7
  let opSel := word0 >>> 11 &&& 0xf
  let clamp := word0 >>> 15 &&& 0x1
  let omod := word1 >>> 27 &&& 0x3
  let neg := word1 >>> 29 &&& 0x7
  let inst ← setRawWords code index 2 { pc, opcode := lookupVop3Opcode opcode }
  let usesSdst := isVop3BCarryIn inst.opcode opcode || isVop3BCarryOutOpcode inst.opcode ||
    isVop3BMadU64Opcode inst.opcode
  if hasUnsupportedNativeVop3Modifiers inst.opcode (isPermlaneOpcode inst.opcode) false usesSdst
      (usesScalarDestination inst.opcode) abs opSel clamp omod neg then return inst.unsupported
  else if inst.opcode = .unsupported then return inst.unsupported
  else if inst.opcode = .vNop then return { inst with dst := { kind := .null }, srcCount := 0 }
  else
    let dst ←
      if isVop3EncodedVopc opcode && isVopcCompareExec inst.opcode then .ok { kind := .execLo }
      else if isVop3EncodedVopc opcode || usesScalarDestination inst.opcode then
        decodeScalarDestination vdst pc
      else decodeVectorGpr vdst
    let src0 ← decodeScalarSource src0 pc
    decodeVop3Sources pc code index opcode sdst src1 src2 { inst with dst, src0 }

/-- `DecodeVop3p`. -/
def decodeVop3p : Except Failure Instruction := do
  let (word0, word1) ← twoWords pc code index .vop3p
  let opcode := word0 >>> 16 &&& 0x7f
  let vdst := word0 &&& 0xff
  let clamp := word0 >>> 15 &&& 0x1
  let src0 := word1 &&& 0x1ff
  let src1 := word1 >>> 9 &&& 0x1ff
  let src2 := word1 >>> 18 &&& 0x1ff
  let inst ← setRawWords code index 2 { pc, opcode := lookup vop3pOps opcode }
  if inst.opcode = .unsupported then return inst.unsupported
  else
    let dst ← decodeVectorGpr vdst
    let src0 ← decodeScalarSource src0 pc
    let src1 ← decodeScalarSource src1 pc
    let src2 ←
      if 2 < vop3pSourceCount inst.opcode then decodeScalarSource src2 pc else .ok inst.src2
    let inst := { inst with dst, src0, src1, src2, srcCount := vop3pSourceCount inst.opcode }
    if inst.opcode ≠ .vFmaF32 ∧ isMadMixF16 inst.opcode = false ∧
        isPackedVop3p inst.opcode = false ∧ clamp ≠ 0 then return inst.unsupported
    else readLiteralOperands code index inst

/-- `DecodeVintrp`. -/
def decodeVintrp : Except Failure Instruction := do
  if code.length ≤ index then .error (.truncated .vintrp pc)
  else
    let word ← code.word index
    let opcode := word >>> 16 &&& 0x3
    let vdst := word >>> 18 &&& 0xff
    let attr := word >>> 10 &&& 0x3f
    let chan := word >>> 8 &&& 0x3
    let vsrc := word &&& 0xff
    let inst ← setRawWords code index 1 { pc, opcode := lookupVintrpOpcode opcode }
    if inst.opcode = .unsupported then return inst.unsupported
    else
      let dst ← decodeVectorGpr vdst
      let src0 ←
        if inst.opcode = .vInterpMovF32 then
          .ok { kind := .integerInlineConstant, value := vsrc &&& 0x3 }
        else decodeVectorGpr vsrc
      return { inst with
        dst
        src0
        src1 := { kind := .integerInlineConstant, value := attr }
        src2 := { kind := .integerInlineConstant, value := chan }
        srcCount := 3 }

end Decode

end Prosperismo.Decoder
