import Prosperismo.Base.Except
import Prosperismo.Cfg.Program

/-!
# Decoded instructions

`ShaderDecoder.h`, and the helpers that the decoders of the instruction families share. A
decoder takes the words of a shader and the index of a word, and returns an instruction
with the number of its words, or a failure.

A read behind the end of the words is a failure of its own (`Failure.outside`). The source
has none such: there the read is undefined.

The texts of the errors, the flags of images and the fields of exports are left out: no decoder
reads them.
-/

namespace Prosperismo.Decoder

open Prosperismo.Cfg (OperandKind u32 u32OfInt)

/-- `Opcode`. -/
inductive Opcode
  | unknown | unsupported | sMovB32 | sMovB64 | sMovkI32 | sAbsI32 | sBrevB32
  | sBcnt1I32B32 | sBcnt1I32B64 | sFf1I32B32 | sFf1I32B64 | sFlbitI32B64
  | sBitreplicateB64B32 | sGetpcB64 | sSetpcB64 | sAndSaveexecB32 | sAndn1SaveexecB32
  | sAndSaveexecB64 | sOrn2SaveexecB64 | sAndn1SaveexecB64 | sNotB32 | sNotB64 | sWqmB64
  | sAddU32 | sAddcU32 | sSubbU32 | sSubU32 | sAddI32 | sSubI32 | sBitcmp0B32 | sBitcmp1B32
  | sBitset0B32 | sBitset1B32 | sMinI32 | sMaxI32 | sMinU32 | sMaxU32 | sAndB32 | sAndB64
  | sAndn2B32 | sAndn2B64 | sOrB32 | sOrB64 | sOrn2B32 | sOrn2B64 | sXorB32 | sXorB64
  | sNandB32 | sNandB64 | sNorB32 | sNorB64 | sXnorB32 | sXnorB64 | sLshlB32 | sLshlB64
  | sLshl1AddU32 | sLshl2AddU32 | sLshl3AddU32 | sLshl4AddU32 | sLshrB32 | sLshrB64
  | sAshrI32 | sMulI32 | sMulHiU32 | sMulkI32 | sBfeU32 | sBfeU64 | sBfmB32 | sBfmB64
  | sCselectB32 | sCselectB64 | sPackLlB32B16 | sPackLhB32B16 | sPackHhB32B16 | sCmpEqI32
  | sCmpLgI32 | sCmpGtI32 | sCmpGeI32 | sCmpLtI32 | sCmpLeI32 | sCmpEqU32 | sCmpLgU32
  | sCmpGtU32 | sCmpGeU32 | sCmpLtU32 | sCmpLeU32 | sCmpEqU64 | sCmpLgU64 | vNop | vMovB32
  | vMovreldB32 | vMovrelsB32 | vReadfirstlaneB32 | vReadlaneB32 | vWritelaneB32
  | vPermlane16B32 | vPermlanex16B32 | vCubeidF32 | vCubescF32 | vCubetcF32 | vCubemaF32
  | vCndmaskB32 | vDot2cF32F16 | vCvtF32I32 | vCvtF32U32 | vCvtU32F32 | vCvtI32F32
  | vCvtF16F32 | vCvtF32F16 | vCvtF16U16 | vCvtU16F16 | vCvtF16I16 | vCvtI16F16
  | vCvtRpiI32F32 | vCvtFlrI32F32 | vCvtOffF32I4 | vCvtF32Ubyte0 | vCvtF32Ubyte1
  | vCvtF32Ubyte2 | vCvtF32Ubyte3 | vRcpF32 | vFractF32 | vTruncF32 | vCeilF32 | vRndneF32
  | vFloorF32 | vExpF32 | vLogF32 | vRsqF32 | vSqrtF32 | vRcpF16 | vSqrtF16 | vRsqF16
  | vLogF16 | vExpF16 | vFloorF16 | vCeilF16 | vTruncF16 | vRndneF16 | vSinF32 | vCosF32
  | vNotB32 | vBfrevB32 | vFfbhU32 | vFfblB32 | vAddF32 | vSubF32 | vSubrevF32 | vMulF32
  | vMacF32 | vMadmkF32 | vMadakF32 | vMinF32 | vMaxF32 | vAddF16 | vSubF16 | vSubrevF16
  | vMulF16 | vFmacF16 | vFmamkF16 | vFmaakF16 | vMinI32 | vMaxI32 | vMulI32I24
  | vMulU32U24 | vMulLoU32 | vMulHiU32 | vMulLoI32 | vMulHiI32 | vCvtPkrtzF16F32
  | vCvtPkU8F32 | vMadF32 | vMadI32I24 | vMadU32U24 | vMadU64U32 | vFmaF32 | vFmaF16
  | vPackB32F16 | vBfeU32 | vBfeI32 | vBfiB32 | vAlignbitB32 | vMin3F32 | vMin3I32
  | vMin3U32 | vMin3F16 | vMax3F32 | vMax3I32 | vMax3U32 | vMax3F16 | vMed3F32 | vMed3I32
  | vMed3U32 | vMed3F16 | vSadU32 | vAdd3U32 | vLshlAddU32 | vAddLshlU32 | vXadU32
  | vLshlOrB32 | vAndOrB32 | vOr3B32 | vXor3B32 | vAddI32 | vSubI32 | vSubrevI32 | vBfmB32
  | vLdexpF32 | vCvtPknormI16F32 | vCvtPknormU16F32 | vCvtPkU16U32 | vPkMadI16 | vPkMulLoU16
  | vPkAddI16 | vPkSubI16 | vPkLshlrevB16 | vPkLshrrevB16 | vPkAshrrevI16 | vPkMaxI16
  | vPkMinI16 | vPkMadU16 | vPkAddF16 | vPkMulF16 | vPkMinF16 | vPkMaxF16 | vPkFmaF16
  | vPkFmacF16 | vPkAddU16 | vPkSubU16 | vPkMaxU16 | vPkMinU16 | vMadMixloF16 | vMadMixhiF16
  | vAddNcU32 | vAddcU32 | vSubrevCoCiU32 | vSubNcU32 | vSubrevNcU32 | vAddNcU16 | vSubNcU16
  | vMaxU16 | vMaxI16 | vMinU16 | vMinI16 | vAddNcI16 | vSubNcI16 | vAndB32 | vOrB32
  | vXorB32 | vXnorB32 | vLshlB32 | vLshlrevB32 | vLshrB32 | vLshrrevB32 | vAshrI32
  | vAshrrevI32 | vLshlrevB16 | vLshrrevB16 | vAshrrevI16 | vBcntU32B32 | vMbcntLoU32B32
  | vMbcntHiU32B32 | vMinU32 | vMaxU32 | vMaxF16 | vMinF16 | vCmpFF32 | vCmpLtF32
  | vCmpEqF32 | vCmpLeF32 | vCmpGtF32 | vCmpLgF32 | vCmpGeF32 | vCmpOF32 | vCmpUF32
  | vCmpNgeF32 | vCmpNlgF32 | vCmpNgtF32 | vCmpNleF32 | vCmpNeqF32 | vCmpNltF32 | vCmpTruF32
  | vCmpxLtF32 | vCmpxEqF32 | vCmpxLeF32 | vCmpxGtF32 | vCmpxLgF32 | vCmpxGeF32
  | vCmpxNgeF32 | vCmpxNlgF32 | vCmpxNgtF32 | vCmpxNleF32 | vCmpxNeqF32 | vCmpxNltF32
  | vCmpFI32 | vCmpLtI32 | vCmpEqI32 | vCmpLeI32 | vCmpGtI32 | vCmpNeI32 | vCmpGeI32
  | vCmpTI32 | vCmpClassF32 | vCmpLtI16 | vCmpEqI16 | vCmpLeI16 | vCmpGtI16 | vCmpNeI16
  | vCmpGeI16 | vCmpLtF16 | vCmpEqF16 | vCmpLeF16 | vCmpGtF16 | vCmpLgF16 | vCmpGeF16
  | vCmpNeqF16 | vCmpxLtF16 | vCmpxEqF16 | vCmpxLeF16 | vCmpxGtF16 | vCmpxGeF16
  | vCmpxNeqF16 | vCmpxNltF16 | vCmpxLtI32 | vCmpxEqI32 | vCmpxLeI32 | vCmpxGtI32
  | vCmpxNeI32 | vCmpxGeI32 | vCmpLtU16 | vCmpEqU16 | vCmpLeU16 | vCmpGtU16 | vCmpNeU16
  | vCmpGeU16 | vCmpFU32 | vCmpLtU32 | vCmpEqU32 | vCmpLeU32 | vCmpGtU32 | vCmpNeU32
  | vCmpGeU32 | vCmpTU32 | vCmpGtU64 | vCmpNeU64 | vCmpxLtU32 | vCmpxEqU32 | vCmpxLeU32
  | vCmpxGtU32 | vCmpxNeU32 | vCmpxGeU32 | sLoadDword | sLoadDwordx2 | sLoadDwordx4
  | sLoadDwordx8 | sLoadDwordx16 | sBufferLoadDword | sBufferLoadDwordx2 | sBufferLoadDwordx4
  | sBufferLoadDwordx8 | sBufferLoadDwordx16 | bufferLoadFormatX | bufferLoadFormatXy
  | bufferLoadFormatXyz | bufferLoadFormatXyzw | bufferStoreFormatX | bufferStoreFormatXy
  | bufferStoreFormatXyz | bufferStoreFormatXyzw | bufferLoadUbyte | bufferLoadSbyte
  | bufferLoadUshort | bufferLoadSshort | bufferLoadDword | bufferLoadDwordx2
  | bufferLoadDwordx3 | bufferLoadDwordx4 | bufferStoreByte | bufferStoreShort
  | bufferStoreDword | bufferStoreDwordx2 | bufferStoreDwordx3 | bufferStoreDwordx4
  | tBufferLoadFormatX | tBufferLoadFormatXy | tBufferLoadFormatXyz | tBufferLoadFormatXyzw
  | tBufferStoreFormatX | tBufferStoreFormatXy | tBufferStoreFormatXyz | tBufferStoreFormatXyzw
  | bufferAtomicSwap | bufferAtomicAdd | bufferAtomicSub | bufferAtomicSMin | bufferAtomicUMin
  | bufferAtomicSMax | bufferAtomicUMax | bufferAtomicAnd | bufferAtomicOr | bufferAtomicXor
  | flatLoadUbyte | flatLoadSbyte | flatLoadUshort | flatLoadSshort | flatLoadDword
  | flatLoadDwordx2 | flatLoadDwordx3 | flatLoadDwordx4 | flatStoreByte | flatStoreShort
  | flatStoreDword | flatStoreDwordx2 | flatStoreDwordx3 | flatStoreDwordx4 | dsAddU32
  | dsAddRtnU32 | dsSubU32 | dsSubRtnU32 | dsMinI32 | dsMinRtnI32 | dsMaxI32 | dsMaxRtnI32
  | dsMinU32 | dsMinRtnU32 | dsMaxU32 | dsMaxRtnU32 | dsAndB32 | dsAndRtnB32 | dsOrB32
  | dsOrRtnB32 | dsXorB32 | dsXorRtnB32 | dsWrxchgRtnB32 | dsMinF32 | dsMaxF32
  | dsSwizzleB32 | dsConsume | dsAppend | dsReadSbyte | dsReadUbyte | dsReadSshort
  | dsReadUshort | dsRead2B32 | dsReadB32 | dsReadB64 | dsRead2B64 | dsRead2St64B64
  | dsReadB96 | dsReadB128 | dsWriteByte | dsWriteShort | dsWrite2B32 | dsWrite2St64B32
  | dsWrite2B64 | dsWrite2St64B64 | dsWriteB32 | dsWriteB64 | dsWriteB96 | dsWriteB128
  | dsWriteAddtidB32 | dsReadAddtidB32 | imageGetResinfo | imageGetLod | imageLoad
  | imageLoadMip | imageStore | imageStoreMip | imageAtomicAdd | imageAtomicUMin
  | imageAtomicUMax | imageAtomicAnd | imageAtomicOr | imageAtomicXor | imageSample
  | imageGather4Lz | imageGather4C | imageGather4CLz | imageGather4LzO | imageGather4CO
  | imageGather4CLzO | imageGather4H | imageBvhIntersectRay | vInterpP1F32 | vInterpP2F32
  | vInterpMovF32 | sNop | sWaitcnt | sBarrier | sBranch | sCbranchScc0 | sCbranchScc1
  | sCbranchVccz | sCbranchVccnz | sCbranchExecz | sCbranchExecnz | sSendmsg | sSetregB32
  | sSleep | sTtraceData | sInstPrefetch | sTrap | sEndpgm | exp
  deriving DecidableEq

/-- The encodings that a truncated instruction is reported for. -/
inductive Encoding
  | smem | mubuf | mtbuf | flat | ds | mimg | mimgNsa | exp | vop1Sdwa | vop1Dpp | vop2Sdwa
  | vop2Dpp | vopcSdwa | vopcDpp | vop3 | vop3p | vintrp
  deriving DecidableEq

/-- Why decoding fails. -/
inductive Failure
  | invalidInput
  | scalarSource (code pc : ℕ)
  | scalarDestination (code pc : ℕ)
  | vgprOutOfRange
  | missingLiteral (pc : ℕ)
  | truncated (encoding : Encoding) (pc : ℕ)
  | unknownFamily (pc word : ℕ)
  | noEndpgm
  | outside
  deriving DecidableEq

/-- `Operand`. -/
structure Operand where
  kind : OperandKind := .unknown
  value : ℕ := 0
  reg : ℕ := 0
  deriving DecidableEq

/-- `Instruction`. -/
structure Instruction where
  pc : ℕ := 0
  wordCount : ℕ := 1
  raw : List ℕ := []
  opcode : Opcode := .unknown
  dst : Operand := {}
  dst2 : Operand := {}
  src0 : Operand := {}
  src1 : Operand := {}
  src2 : Operand := {}
  src3 : Operand := {}
  srcCount : ℕ := 0
  offset : ℕ := 0
  secondaryOffset : ℕ := 0
  dataDwords : ℕ := 1
  dataBits : ℕ := 32
  dataFormat : ℕ := 0
  numberFormat : ℕ := 0
  dmask : ℕ := 0
  imageNsaAddr : List ℕ := []
  memorySegment : ℕ := 0
  dataSigned : Bool := false
  typed : Bool := false
  formatted : Bool := false
  gds : Bool := false
  glc : Bool := false
  slc : Bool := false
  idxen : Bool := false
  offen : Bool := false
  branchOffset : ℤ := 0
  branchTarget : ℕ := 0
  deriving DecidableEq

/-- The words of a shader. -/
abbrev Code := List ℕ

/-- A word of the shader. -/
def Code.word (code : Code) (index : ℕ) : Except Failure ℕ :=
  match code[index]? with
  | some word => .ok word
  | none => .error .outside

/-- The bit of a word. -/
def bit (word i : ℕ) : Bool := word >>> i &&& 1 ≠ 0

/-! ### Operands -/

/-- `DecodeVectorGpr`. -/
def decodeVectorGpr (reg : ℕ) : Except Failure Operand :=
  if 255 < reg then .error .vgprOutOfRange else .ok { kind := .vgpr, reg }

/-- The bits of the float constants `0.5`, `-0.5`, `1`, `-1`, `2`, `-2`, `4` and `-4`. -/
def floatInlineConstants : List ℕ :=
  [0x3f000000, 0xbf000000, 0x3f800000, 0xbf800000, 0x40000000, 0xc0000000, 0x40800000, 0xc0800000]

/-- `DecodeScalarSource`. -/
def decodeScalarSource (code pc : ℕ) : Except Failure Operand :=
  if code ≤ 105 then .ok { kind := .sgpr, reg := code }
  else if 128 ≤ code ∧ code ≤ 192 then .ok { kind := .integerInlineConstant, value := code - 128 }
  else if 193 ≤ code ∧ code ≤ 208 then
    .ok { kind := .integerInlineConstant, value := u32OfInt (192 - code) }
  else if 240 ≤ code ∧ code ≤ 247 then
    .ok { kind := .floatInlineConstant, value := (floatInlineConstants[code - 240]?).getD 0 }
  else if 256 ≤ code ∧ code ≤ 511 then decodeVectorGpr (code - 256)
  else
    match code with
    | 106 => .ok { kind := .vccLo }
    | 107 => .ok { kind := .vccHi }
    | 124 => .ok { kind := .m0 }
    | 125 => .ok { kind := .null }
    | 126 => .ok { kind := .execLo }
    | 127 => .ok { kind := .execHi }
    | 239 => .ok { kind := .popsExitingWaveId }
    | 248 => .ok { kind := .floatInlineConstant, value := 0x3e22f983 }
    | 251 => .ok { kind := .vccZ }
    | 252 => .ok { kind := .execZ }
    | 253 => .ok { kind := .scc }
    | 255 => .ok { kind := .literalConstant }
    | _ => .error (.scalarSource code pc)

/-- `DecodeScalarDestination`. -/
def decodeScalarDestination (code pc : ℕ) : Except Failure Operand :=
  if code ≤ 105 then .ok { kind := .sgpr, reg := code }
  else
    match code with
    | 106 => .ok { kind := .vccLo }
    | 107 => .ok { kind := .vccHi }
    | 124 => .ok { kind := .m0 }
    | 125 => .ok { kind := .null }
    | 126 => .ok { kind := .execLo }
    | 127 => .ok { kind := .execHi }
    | _ => .error (.scalarDestination code pc)

/-- An operand that is decoded without an error to report to: it stays as it is when it cannot be
decoded. -/
def orNone (operand : Except Failure Operand) : Operand := operand.toOption.getD {}

/-! ### Words and literals -/

/-- `MaxInstructionRawWords`. -/
def maxInstructionRawWords : ℕ := 5

/-- `SetRawWords`. -/
def setRawWords (code : Code) (index wordCount : ℕ) (inst : Instruction) :
    Except Failure Instruction := do
  let raw ← (List.range (min wordCount maxInstructionRawWords)).mapM fun i => code.word (index + i)
  return { inst with wordCount, raw }

/-- `HasLiteral`. -/
def Instruction.hasLiteral (inst : Instruction) : Bool :=
  inst.src0.kind = .literalConstant || inst.src1.kind = .literalConstant ||
    inst.src2.kind = .literalConstant || inst.src3.kind = .literalConstant

/-- `ApplyLiteral`. -/
def Operand.applyLiteral (operand : Operand) (literal : ℕ) : Operand :=
  if operand.kind = .literalConstant then { operand with value := literal } else operand

/-- `ReadLiteralOperands`. -/
def readLiteralOperands (code : Code) (index : ℕ) (inst : Instruction) :
    Except Failure Instruction :=
  if !inst.hasLiteral then .ok inst
  else if code.length ≤ index + inst.wordCount then .error (.missingLiteral inst.pc)
  else do
    let literal ← code.word (index + inst.wordCount)
    setRawWords code index (inst.wordCount + 1)
      { inst with
        src0 := inst.src0.applyLiteral literal
        src1 := inst.src1.applyLiteral literal
        src2 := inst.src2.applyLiteral literal
        src3 := inst.src3.applyLiteral literal }

/-- `SetUnsupported`. -/
def Instruction.unsupported (inst : Instruction) : Instruction :=
  { inst with opcode := .unsupported }

/-- `Lookup`: the first entry of a table with the number. -/
def lookup (ops : List (ℕ × Opcode)) (opcode : ℕ) : Opcode :=
  (ops.lookup opcode).getD .unsupported

end Prosperismo.Decoder
