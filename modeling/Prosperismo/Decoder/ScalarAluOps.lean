import Prosperismo.Decoder.Model

/-!
# Scalar ALU instructions

`ScalarAluOps.cpp`: the families SOP1, SOP2, SOPK, SOPC and SOPP. An instruction of them is
one word, and a literal.
-/

namespace Prosperismo.Decoder

open Prosperismo.Cfg (u32 u32OfInt)

/-! ### Opcodes -/

/-- `SOP2_OPS`. -/
def sop2Ops : List (ℕ × Opcode) := [
    (0x00, .sAddU32), (0x01, .sSubU32), (0x02, .sAddI32), (0x03, .sSubI32), (0x04, .sAddcU32),
    (0x05, .sSubbU32), (0x06, .sMinI32), (0x07, .sMinU32), (0x08, .sMaxI32), (0x09, .sMaxU32),
    (0x0a, .sCselectB32), (0x0b, .sCselectB64), (0x0e, .sAndB32), (0x0f, .sAndB64),
    (0x10, .sOrB32), (0x11, .sOrB64), (0x12, .sXorB32), (0x13, .sXorB64), (0x14, .sAndn2B32),
    (0x15, .sAndn2B64), (0x16, .sOrn2B32), (0x17, .sOrn2B64), (0x18, .sNandB32),
    (0x19, .sNandB64), (0x1a, .sNorB32), (0x1b, .sNorB64), (0x1c, .sXnorB32), (0x1d, .sXnorB64),
    (0x1e, .sLshlB32), (0x1f, .sLshlB64), (0x20, .sLshrB32), (0x21, .sLshrB64), (0x22, .sAshrI32),
    (0x24, .sBfmB32), (0x25, .sBfmB64), (0x26, .sMulI32), (0x27, .sBfeU32), (0x29, .sBfeU64),
    (0x2e, .sLshl1AddU32), (0x2f, .sLshl2AddU32), (0x30, .sLshl3AddU32), (0x31, .sLshl4AddU32),
    (0x32, .sPackLlB32B16), (0x33, .sPackLhB32B16), (0x34, .sPackHhB32B16), (0x35, .sMulHiU32)]

/-- `SOP1_OPS`. -/
def sop1Ops : List (ℕ × Opcode) := [
    (0x03, .sMovB32), (0x04, .sMovB64), (0x07, .sNotB32), (0x08, .sNotB64), (0x0a, .sWqmB64),
    (0x0b, .sBrevB32), (0x0f, .sBcnt1I32B32), (0x10, .sBcnt1I32B64), (0x13, .sFf1I32B32),
    (0x14, .sFf1I32B64), (0x16, .sFlbitI32B64), (0x1b, .sBitset0B32), (0x1d, .sBitset1B32),
    (0x1f, .sGetpcB64), (0x20, .sSetpcB64), (0x24, .sAndSaveexecB64), (0x28, .sOrn2SaveexecB64),
    (0x34, .sAbsI32), (0x37, .sAndn1SaveexecB64), (0x3b, .sBitreplicateB64B32),
    (0x3c, .sAndSaveexecB32), (0x44, .sAndn1SaveexecB32)]

/-- `SOPC_OPS`. -/
def sopcOps : List (ℕ × Opcode) := [
    (0x00, .sCmpEqI32), (0x01, .sCmpLgI32), (0x02, .sCmpGtI32), (0x03, .sCmpGeI32),
    (0x04, .sCmpLtI32), (0x05, .sCmpLeI32), (0x06, .sCmpEqU32), (0x07, .sCmpLgU32),
    (0x08, .sCmpGtU32), (0x09, .sCmpGeU32), (0x0a, .sCmpLtU32), (0x0b, .sCmpLeU32),
    (0x0c, .sBitcmp0B32), (0x0d, .sBitcmp1B32), (0x12, .sCmpEqU64), (0x13, .sCmpLgU64)]

/-- `SOPK_OPS`. -/
def sopkOps : List (ℕ × Opcode) := [
    (0x00, .sMovkI32), (0x03, .sCmpEqI32), (0x04, .sCmpLgI32), (0x05, .sCmpGtI32),
    (0x06, .sCmpGeI32), (0x07, .sCmpLtI32), (0x08, .sCmpLeI32), (0x09, .sCmpEqU32),
    (0x0a, .sCmpLgU32), (0x0b, .sCmpGtU32), (0x0c, .sCmpGeU32), (0x0d, .sCmpLtU32),
    (0x0e, .sCmpLeU32), (0x0f, .sAddI32), (0x10, .sMulkI32), (0x13, .sSetregB32),
    (0x17, .sWaitcnt), (0x18, .sWaitcnt), (0x19, .sWaitcnt), (0x1a, .sWaitcnt)]

/-- `SOPP_OPS`. -/
def soppOps : List (ℕ × Opcode) := [
    (0x00, .sNop), (0x01, .sEndpgm), (0x02, .sBranch), (0x04, .sCbranchScc0),
    (0x05, .sCbranchScc1), (0x06, .sCbranchVccz), (0x07, .sCbranchVccnz), (0x08, .sCbranchExecz),
    (0x09, .sCbranchExecnz), (0x0a, .sBarrier), (0x0c, .sWaitcnt), (0x0e, .sSleep),
    (0x10, .sSendmsg), (0x12, .sTrap), (0x16, .sTtraceData), (0x20, .sInstPrefetch)]

/-- `static_cast<int16_t>` of a `uint32_t`. -/
def int16 (x : ℕ) : ℤ := if x % 2 ^ 16 < 2 ^ 15 then (x % 2 ^ 16 : ℕ) else (x % 2 ^ 16 : ℕ) - 2 ^ 16

/-! ### Decoders -/

section Decode

variable (pc : ℕ) (code : Code) (index : ℕ)

/-- `DecodeBinarySources`. -/
def decodeBinarySources (inst : Instruction) (ssrc0 ssrc1 : ℕ) : Except Failure Instruction := do
  let src0 ← decodeScalarSource ssrc0 pc
  let src1 ← decodeScalarSource ssrc1 pc
  readLiteralOperands code index { inst with src0, src1, srcCount := 2 }

/-- `DecodeSop1`. -/
def decodeSop1 : Except Failure Instruction := do
  let word ← code.word index
  let opcode := word >>> 8 &&& 0xff
  let ssrc0 := word &&& 0xff
  let sdst := word >>> 16 &&& 0x7f
  let inst ← setRawWords code index 1 { pc, opcode := lookup sop1Ops opcode }
  if inst.opcode = .unsupported then return inst.unsupported
  else if inst.opcode = .sGetpcB64 then
    let dst ← decodeScalarDestination sdst pc
    return { inst with dst }
  else if inst.opcode = .sSetpcB64 then
    let src0 ← decodeScalarSource ssrc0 pc
    readLiteralOperands code index { inst with dst := { kind := .null }, src0, srcCount := 1 }
  else
    let src0 ← decodeScalarSource ssrc0 pc
    let dst ← decodeScalarDestination sdst pc
    readLiteralOperands code index { inst with src0, dst, srcCount := 1 }

/-- `DecodeSop2`. -/
def decodeSop2 : Except Failure Instruction := do
  let word ← code.word index
  let opcode := word >>> 23 &&& 0x7f
  let ssrc1 := word >>> 8 &&& 0xff
  let ssrc0 := word &&& 0xff
  let sdst := word >>> 16 &&& 0x7f
  let inst ← setRawWords code index 1 { pc, opcode := lookup sop2Ops opcode }
  if inst.opcode = .unsupported then return inst.unsupported
  else
    let dst ← decodeScalarDestination sdst pc
    decodeBinarySources pc code index { inst with dst } ssrc0 ssrc1

/-- `DecodeSopk`. -/
def decodeSopk : Except Failure Instruction := do
  let word ← code.word index
  let opcode := word >>> 23 &&& 0x1f
  let sdst := word >>> 16 &&& 0x7f
  let imm : Operand :=
    { kind := .integerInlineConstant, value := u32OfInt (int16 (word &&& 0xffff)) }
  let inst ← setRawWords code index 1
    { pc, opcode := lookup sopkOps opcode, src0 := imm, srcCount := 1 }
  if inst.opcode = .unsupported then return inst.unsupported
  else if inst.opcode = .sMovkI32 then
    let dst ← decodeScalarDestination sdst pc
    return { inst with dst }
  else if inst.opcode = .sWaitcnt then
    return { inst with
      dst := { kind := .null }
      src0 := { imm with value := word &&& 0xffff }
      srcCount := 1 }
  else if inst.opcode = .sSetregB32 then
    let src0 ← decodeScalarSource sdst pc
    -- the register number is marked as a literal, but no literal follows
    return { inst with
      dst := { kind := .null }
      src0
      src1 := { kind := .literalConstant, value := word &&& 0xffff }
      srcCount := 2 }
  else
    let src0 ← decodeScalarSource sdst pc
    if inst.opcode = .sAddI32 ∨ inst.opcode = .sMulkI32 then
      let dst ← decodeScalarDestination sdst pc
      return { inst with src0, src1 := imm, dst, srcCount := 2 }
    else return { inst with src0, src1 := imm, dst := { kind := .scc }, srcCount := 2 }

/-- `DecodeSopc`. -/
def decodeSopc : Except Failure Instruction := do
  let word ← code.word index
  let ssrc1 := word >>> 8 &&& 0xff
  let ssrc0 := word &&& 0xff
  let opcode := word >>> 16 &&& 0x7f
  let inst ← setRawWords code index 1
    { pc, opcode := lookup sopcOps opcode, dst := { kind := .scc } }
  if inst.opcode = .unsupported then return inst.unsupported
  else decodeBinarySources pc code index inst ssrc0 ssrc1

/-- `DecodeSopp`. -/
def decodeSopp : Except Failure Instruction := do
  let word ← code.word index
  let opcode := lookup soppOps (word >>> 16 &&& 0x7f)
  let simm := word &&& 0xffff
  let branchOffset := int16 simm * 4
  let inst ← setRawWords code index 1 {
    pc
    opcode
    src0 := { kind := .literalConstant, value := simm }
    srcCount :=
      if opcode ∈ [.sNop, .sWaitcnt, .sSleep, .sSendmsg, .sTrap, .sTtraceData, .sInstPrefetch]
      then 1 else 0
    branchOffset
    branchTarget := u32 (pc + 4 + u32OfInt branchOffset) }
  if inst.opcode = .unsupported then return inst.unsupported
  else return inst

end Decode

end Prosperismo.Decoder
