import Prosperismo.Decoder.Model

/-!
# Vector ALU opcodes

The tables of `VectorAluOps.cpp`, and what its decoders ask of an opcode.
-/

namespace Prosperismo.Decoder

/-! ### Tables -/

/-- `VOP2_OPS`. -/
def vop2Ops : List (ℕ × Opcode) := [
    (0x01, .vCndmaskB32), (0x02, .vDot2cF32F16), (0x03, .vAddF32), (0x04, .vSubF32),
    (0x05, .vSubrevF32), (0x08, .vMulF32), (0x09, .vMulI32I24), (0x0b, .vMulU32U24),
    (0x0f, .vMinF32), (0x10, .vMaxF32), (0x11, .vMinI32), (0x12, .vMaxI32), (0x13, .vMinU32),
    (0x14, .vMaxU32), (0x15, .vLshrB32), (0x16, .vLshrrevB32), (0x17, .vAshrI32),
    (0x18, .vAshrrevI32), (0x19, .vLshlB32), (0x1a, .vLshlrevB32), (0x1b, .vAndB32),
    (0x1c, .vOrB32), (0x1d, .vXorB32), (0x1e, .vXnorB32), (0x1f, .vMacF32), (0x20, .vMadmkF32),
    (0x21, .vMadakF32), (0x22, .vBcntU32B32), (0x23, .vMbcntLoU32B32), (0x24, .vMbcntHiU32B32),
    (0x25, .vAddNcU32), (0x28, .vAddcU32), (0x26, .vSubNcU32), (0x27, .vSubrevNcU32),
    (0x2a, .vSubrevCoCiU32), (0x2b, .vMacF32), (0x2c, .vMadmkF32), (0x2d, .vMadakF32),
    (0x2f, .vCvtPkrtzF16F32), (0x32, .vAddF16), (0x33, .vSubF16), (0x34, .vSubrevF16),
    (0x35, .vMulF16), (0x36, .vFmacF16), (0x37, .vFmamkF16), (0x38, .vFmaakF16), (0x39, .vMaxF16),
    (0x3a, .vMinF16), (0x3c, .vPkFmacF16)]

/-- `VOP1_OPS`. -/
def vop1Ops : List (ℕ × Opcode) := [
    (0x00, .vNop), (0x01, .vMovB32), (0x02, .vReadfirstlaneB32), (0x05, .vCvtF32I32),
    (0x06, .vCvtF32U32), (0x07, .vCvtU32F32), (0x08, .vCvtI32F32), (0x0a, .vCvtF16F32),
    (0x0b, .vCvtF32F16), (0x0c, .vCvtRpiI32F32), (0x0d, .vCvtFlrI32F32), (0x0e, .vCvtOffF32I4),
    (0x11, .vCvtF32Ubyte0), (0x12, .vCvtF32Ubyte1), (0x13, .vCvtF32Ubyte2),
    (0x14, .vCvtF32Ubyte3), (0x2a, .vRcpF32), (0x20, .vFractF32), (0x21, .vTruncF32),
    (0x22, .vCeilF32), (0x23, .vRndneF32), (0x24, .vFloorF32), (0x25, .vExpF32), (0x27, .vLogF32),
    (0x2b, .vRcpF32), (0x2e, .vRsqF32), (0x33, .vSqrtF32), (0x35, .vSinF32), (0x36, .vCosF32),
    (0x37, .vNotB32), (0x38, .vBfrevB32), (0x39, .vFfbhU32), (0x3a, .vFfblB32),
    (0x42, .vMovreldB32), (0x43, .vMovrelsB32), (0x50, .vCvtF16U16), (0x51, .vCvtF16I16),
    (0x52, .vCvtU16F16), (0x53, .vCvtI16F16), (0x54, .vRcpF16), (0x55, .vSqrtF16),
    (0x56, .vRsqF16), (0x57, .vLogF16), (0x58, .vExpF16), (0x5b, .vFloorF16), (0x5c, .vCeilF16),
    (0x5d, .vTruncF16), (0x5e, .vRndneF16)]

/-- `VOP3_ENCODED_VOP1_OPS`. -/
def vop3EncodedVop1Ops : List (ℕ × Opcode) := [
    (0x00, .vNop), (0x01, .vMovB32), (0x02, .vReadfirstlaneB32), (0x05, .vCvtF32I32),
    (0x06, .vCvtF32U32), (0x07, .vCvtU32F32), (0x08, .vCvtI32F32), (0x0a, .vCvtF16F32),
    (0x0c, .vCvtRpiI32F32), (0x0d, .vCvtFlrI32F32), (0x0e, .vCvtOffF32I4), (0x2a, .vRcpF32),
    (0x20, .vFractF32), (0x21, .vTruncF32), (0x22, .vCeilF32), (0x23, .vRndneF32),
    (0x24, .vFloorF32), (0x25, .vExpF32), (0x27, .vLogF32), (0x2b, .vRcpF32), (0x2e, .vRsqF32),
    (0x33, .vSqrtF32), (0x35, .vSinF32), (0x36, .vCosF32), (0x37, .vNotB32), (0x38, .vBfrevB32),
    (0x39, .vFfbhU32), (0x3a, .vFfblB32), (0x42, .vMovreldB32), (0x43, .vMovrelsB32),
    (0x50, .vCvtF16U16), (0x51, .vCvtF16I16), (0x52, .vCvtU16F16), (0x53, .vCvtI16F16),
    (0x54, .vRcpF16), (0x55, .vSqrtF16), (0x56, .vRsqF16), (0x57, .vLogF16), (0x58, .vExpF16),
    (0x5b, .vFloorF16), (0x5c, .vCeilF16), (0x5d, .vTruncF16), (0x5e, .vRndneF16)]

/-- `VOPC_OPS`. -/
def vopcOps : List (ℕ × Opcode) := [
    (0x00, .vCmpFF32), (0x01, .vCmpLtF32), (0x02, .vCmpEqF32), (0x03, .vCmpLeF32),
    (0x04, .vCmpGtF32), (0x05, .vCmpLgF32), (0x06, .vCmpGeF32), (0x07, .vCmpOF32),
    (0x08, .vCmpUF32), (0x09, .vCmpNgeF32), (0x0a, .vCmpNlgF32), (0x0b, .vCmpNgtF32),
    (0x0c, .vCmpNleF32), (0x0d, .vCmpNeqF32), (0x0e, .vCmpNltF32), (0x0f, .vCmpTruF32),
    (0x11, .vCmpxLtF32), (0x12, .vCmpxEqF32), (0x13, .vCmpxLeF32), (0x14, .vCmpxGtF32),
    (0x15, .vCmpxLgF32), (0x16, .vCmpxGeF32), (0x19, .vCmpxNgeF32), (0x1a, .vCmpxNlgF32),
    (0x1b, .vCmpxNgtF32), (0x1c, .vCmpxNleF32), (0x1d, .vCmpxNeqF32), (0x1e, .vCmpxNltF32),
    (0x80, .vCmpFI32), (0x81, .vCmpLtI32), (0x82, .vCmpEqI32), (0x83, .vCmpLeI32),
    (0x84, .vCmpGtI32), (0x85, .vCmpNeI32), (0x86, .vCmpGeI32), (0x87, .vCmpTI32),
    (0x88, .vCmpClassF32), (0x89, .vCmpLtI16), (0x8a, .vCmpEqI16), (0x8b, .vCmpLeI16),
    (0x8c, .vCmpGtI16), (0x8d, .vCmpNeI16), (0x8e, .vCmpGeI16), (0x91, .vCmpxLtI32),
    (0x92, .vCmpxEqI32), (0x93, .vCmpxLeI32), (0x94, .vCmpxGtI32), (0x95, .vCmpxNeI32),
    (0x96, .vCmpxGeI32), (0xa9, .vCmpLtU16), (0xaa, .vCmpEqU16), (0xab, .vCmpLeU16),
    (0xac, .vCmpGtU16), (0xad, .vCmpNeU16), (0xae, .vCmpGeU16), (0xc0, .vCmpFU32),
    (0xc1, .vCmpLtU32), (0xc2, .vCmpEqU32), (0xc3, .vCmpLeU32), (0xc4, .vCmpGtU32),
    (0xc5, .vCmpNeU32), (0xc6, .vCmpGeU32), (0xc7, .vCmpTU32), (0xd1, .vCmpxLtU32),
    (0xd2, .vCmpxEqU32), (0xd3, .vCmpxLeU32), (0xd4, .vCmpxGtU32), (0xd5, .vCmpxNeU32),
    (0xd6, .vCmpxGeU32), (0xe4, .vCmpGtU64), (0xe5, .vCmpNeU64), (0xc9, .vCmpLtF16),
    (0xca, .vCmpEqF16), (0xcb, .vCmpLeF16), (0xcc, .vCmpGtF16), (0xcd, .vCmpLgF16),
    (0xce, .vCmpGeF16), (0xed, .vCmpNeqF16), (0xd9, .vCmpxLtF16), (0xda, .vCmpxEqF16),
    (0xdb, .vCmpxLeF16), (0xdc, .vCmpxGtF16), (0xde, .vCmpxGeF16), (0xfd, .vCmpxNeqF16),
    (0xfe, .vCmpxNltF16)]

/-- `VOP3_OPS`. -/
def vop3Ops : List (ℕ × Opcode) := [
    (0x141, .vMadF32), (0x142, .vMadI32I24), (0x143, .vMadU32U24), (0x176, .vMadU64U32),
    (0x144, .vCubeidF32), (0x145, .vCubescF32), (0x146, .vCubetcF32), (0x147, .vCubemaF32),
    (0x14b, .vFmaF32), (0x148, .vBfeU32), (0x149, .vBfeI32), (0x14a, .vBfiB32),
    (0x14e, .vAlignbitB32), (0x151, .vMin3F32), (0x152, .vMin3I32), (0x153, .vMin3U32),
    (0x351, .vMin3F16), (0x154, .vMax3F32), (0x155, .vMax3I32), (0x156, .vMax3U32),
    (0x354, .vMax3F16), (0x157, .vMed3F32), (0x158, .vMed3I32), (0x159, .vMed3U32),
    (0x357, .vMed3F16), (0x15d, .vSadU32), (0x15e, .vCvtPkU8F32), (0x178, .vXor3B32),
    (0x12f, .vCvtPkrtzF16F32), (0x169, .vMulLoU32), (0x16a, .vMulHiU32), (0x16b, .vMulLoI32),
    (0x16c, .vMulHiI32), (0x303, .vAddNcU16), (0x304, .vSubNcU16), (0x307, .vLshrrevB16),
    (0x308, .vAshrrevI16), (0x309, .vMaxU16), (0x30a, .vMaxI16), (0x30b, .vMinU16),
    (0x30c, .vMinI16), (0x30d, .vAddNcI16), (0x30e, .vSubNcI16), (0x30f, .vAddI32),
    (0x310, .vSubI32), (0x311, .vPackB32F16), (0x314, .vLshlrevB16), (0x319, .vSubrevI32),
    (0x345, .vXadU32), (0x346, .vLshlAddU32), (0x347, .vAddLshlU32), (0x360, .vReadlaneB32),
    (0x361, .vWritelaneB32), (0x362, .vLdexpF32), (0x363, .vBfmB32), (0x364, .vBcntU32B32),
    (0x365, .vMbcntLoU32B32), (0x366, .vMbcntHiU32B32), (0x368, .vCvtPknormI16F32),
    (0x369, .vCvtPknormU16F32), (0x36a, .vCvtPkU16U32), (0x36f, .vLshlOrB32), (0x371, .vAndOrB32),
    (0x372, .vOr3B32), (0x377, .vPermlane16B32), (0x378, .vPermlanex16B32), (0x34b, .vFmaF16),
    (0x36d, .vAdd3U32)]

/-- `VOP3P_OPS`. -/
def vop3pOps : List (ℕ × Opcode) := [
    (0x00, .vPkMadI16), (0x01, .vPkMulLoU16), (0x02, .vPkAddI16), (0x03, .vPkSubI16),
    (0x04, .vPkLshlrevB16), (0x05, .vPkLshrrevB16), (0x06, .vPkAshrrevI16), (0x07, .vPkMaxI16),
    (0x08, .vPkMinI16), (0x09, .vPkMadU16), (0x0a, .vPkAddU16), (0x0b, .vPkSubU16),
    (0x0c, .vPkMaxU16), (0x0d, .vPkMinU16), (0x0e, .vPkFmaF16), (0x0f, .vPkAddF16),
    (0x10, .vPkMulF16), (0x11, .vPkMinF16), (0x12, .vPkMaxF16), (0x20, .vFmaF32),
    (0x21, .vMadMixloF16), (0x22, .vMadMixhiF16)]

/-- `IsVop2LiteralMadOpcode`. -/
def isVop2LiteralMadOpcode (opcode : ℕ) : Bool :=
  opcode = 0x20 || opcode = 0x21 || opcode = 0x2c || opcode = 0x2d

/-- `IsUnsupportedVop3EncodedVop2Alias`. -/
def isUnsupportedVop3EncodedVop2Alias (opcode : ℕ) : Bool :=
  isVop2LiteralMadOpcode opcode || opcode = 0x02 || opcode = 0x2b || opcode = 0x39 || opcode = 0x3a

/-- `LookupVop3Opcode`. -/
def lookupVop3Opcode (opcode : ℕ) : Opcode :=
  let direct := lookup vop3Ops opcode
  if direct ≠ .unsupported then direct
  else if opcode ≤ 0xff then lookup vopcOps opcode
  else if 0x100 ≤ opcode ∧ opcode ≤ 0x13f then
    if isUnsupportedVop3EncodedVop2Alias (opcode - 0x100) then .unsupported
    else lookup vop2Ops (opcode - 0x100)
  else if 0x180 ≤ opcode ∧ opcode ≤ 0x1ff then lookup vop3EncodedVop1Ops (opcode - 0x180)
  else lookup vop3Ops opcode

/-- `IsVop3EncodedVopc`. -/
def isVop3EncodedVopc (opcode : ℕ) : Bool := opcode ≤ 0xff

/-- `IsVop3EncodedVop2`. -/
def isVop3EncodedVop2 (opcode : ℕ) : Bool := 0x100 ≤ opcode && opcode ≤ 0x13f

/-- `IsVop3EncodedVop1`. -/
def isVop3EncodedVop1 (opcode : ℕ) : Bool := 0x180 ≤ opcode && opcode ≤ 0x1ff

/-- `LookupVintrpOpcode`. -/
def lookupVintrpOpcode (opcode : ℕ) : Opcode :=
  match opcode with
  | 0 => .vInterpP1F32
  | 1 => .vInterpP2F32
  | 2 => .vInterpMovF32
  | _ => .unsupported

/-! ### Classes of opcodes -/

/-- `UsesScalarDestination`. -/
def usesScalarDestination (opcode : Opcode) : Bool := opcode ∈ [.vReadfirstlaneB32, .vReadlaneB32]

/-- `IsVop3BCarryOutOpcode`. -/
def isVop3BCarryOutOpcode (opcode : Opcode) : Bool := opcode ∈ [.vAddI32, .vSubI32, .vSubrevI32]

/-- `IsVop3BMadU64Opcode`. -/
def isVop3BMadU64Opcode (opcode : Opcode) : Bool := opcode ∈ [.vMadU64U32]

/-- `IsPermlaneOpcode`. -/
def isPermlaneOpcode (opcode : Opcode) : Bool := opcode ∈ [.vPermlane16B32, .vPermlanex16B32]

/-- `IsNativeVop3F16TernaryOpcode`. -/
def isNativeVop3F16TernaryOpcode (opcode : Opcode) : Bool :=
  opcode ∈ [.vMin3F16, .vMax3F16, .vMed3F16, .vFmaF16]

/-- `IsNativeVop3B16BinaryOpcode`. -/
def isNativeVop3B16BinaryOpcode (opcode : Opcode) : Bool := opcode ∈ [
    .vAddNcU16, .vSubNcU16, .vMaxU16, .vMaxI16, .vMinU16, .vMinI16, .vAddNcI16, .vSubNcI16,
    .vLshlrevB16, .vLshrrevB16, .vAshrrevI16]

/-- `IsVop1FloatSourceOpcode`. -/
def isVop1FloatSourceOpcode (opcode : Opcode) : Bool := opcode ∈ [
    .vMovB32, .vCvtF32F16, .vCvtU32F32, .vCvtI32F32, .vCvtRpiI32F32, .vCvtFlrI32F32, .vCvtF16F32,
    .vRcpF32, .vFractF32, .vTruncF32, .vCeilF32, .vRndneF32, .vFloorF32, .vExpF32, .vLogF32,
    .vRsqF32, .vSqrtF32, .vSqrtF16, .vFloorF16, .vCeilF16, .vTruncF16, .vRndneF16, .vSinF32,
    .vCosF32]

/-- `IsVop1FloatResultOpcode`. -/
def isVop1FloatResultOpcode (opcode : Opcode) : Bool := opcode ∈ [
    .vCvtF32I32, .vCvtF32U32, .vCvtF32F16, .vCvtOffF32I4, .vCvtF32Ubyte0, .vCvtF32Ubyte1,
    .vCvtF32Ubyte2, .vCvtF32Ubyte3, .vRcpF32, .vFractF32, .vTruncF32, .vCeilF32, .vRndneF32,
    .vFloorF32, .vExpF32, .vLogF32, .vRsqF32, .vSqrtF32, .vRcpF16, .vRsqF16, .vLogF16, .vExpF16,
    .vSinF32, .vCosF32]

/-- `IsVop2FloatSourceOpcode`. -/
def isVop2FloatSourceOpcode (opcode : Opcode) : Bool := opcode ∈ [
    .vAddF32, .vSubF32, .vSubrevF32, .vMulF32, .vMinF32, .vMaxF32, .vMacF32, .vMadmkF32,
    .vMadakF32, .vAddF16, .vSubF16, .vSubrevF16, .vMulF16, .vFmacF16, .vFmamkF16, .vFmaakF16,
    .vMaxF16, .vMinF16]

/-- `IsVop2FloatResultOpcode`. -/
def isVop2FloatResultOpcode (opcode : Opcode) : Bool := opcode ∈ [
    .vAddF32, .vSubF32, .vSubrevF32, .vMulF32, .vMinF32, .vMaxF32, .vMacF32, .vMadmkF32,
    .vMadakF32, .vAddF16, .vSubF16, .vSubrevF16, .vMulF16, .vFmacF16, .vFmamkF16, .vFmaakF16,
    .vMaxF16, .vMinF16]

/-- `IsVopcFloatCompareOpcode`. -/
def isVopcFloatCompareOpcode (opcode : Opcode) : Bool := opcode ∈ [
    .vCmpFF32, .vCmpLtF32, .vCmpEqF32, .vCmpLeF32, .vCmpGtF32, .vCmpLgF32, .vCmpGeF32, .vCmpOF32,
    .vCmpUF32, .vCmpNgeF32, .vCmpNlgF32, .vCmpNgtF32, .vCmpNleF32, .vCmpNeqF32, .vCmpNltF32,
    .vCmpTruF32, .vCmpxLtF32, .vCmpxEqF32, .vCmpxLeF32, .vCmpxGtF32, .vCmpxLgF32, .vCmpxGeF32,
    .vCmpxNgeF32, .vCmpxNlgF32, .vCmpxNgtF32, .vCmpxNleF32, .vCmpxNeqF32, .vCmpxNltF32,
    .vCmpLtF16, .vCmpEqF16, .vCmpLeF16, .vCmpGtF16, .vCmpLgF16, .vCmpGeF16, .vCmpNeqF16,
    .vCmpxLtF16, .vCmpxEqF16, .vCmpxLeF16, .vCmpxGtF16, .vCmpxGeF16, .vCmpxNeqF16, .vCmpxNltF16,
    .vCmpClassF32]

/-- `IsVopcCompareExec`. -/
def isVopcCompareExec (opcode : Opcode) : Bool := opcode ∈ [
    .vCmpxLtF32, .vCmpxEqF32, .vCmpxLeF32, .vCmpxGtF32, .vCmpxLgF32, .vCmpxGeF32, .vCmpxNgeF32,
    .vCmpxNlgF32, .vCmpxNgtF32, .vCmpxNleF32, .vCmpxNeqF32, .vCmpxNltF32, .vCmpxLtI32,
    .vCmpxEqI32, .vCmpxLeI32, .vCmpxGtI32, .vCmpxNeI32, .vCmpxGeI32, .vCmpxLtU32, .vCmpxEqU32,
    .vCmpxLeU32, .vCmpxGtU32, .vCmpxNeU32, .vCmpxGeU32, .vCmpxLtF16, .vCmpxEqF16, .vCmpxLeF16,
    .vCmpxGtF16, .vCmpxGeF16, .vCmpxNeqF16, .vCmpxNltF16]

/-- `IsPackedVop3p`. -/
def isPackedVop3p (opcode : Opcode) : Bool :=
  opcode ∈ [.vPkAddF16, .vPkMulF16, .vPkMinF16, .vPkMaxF16, .vPkFmaF16]

/-- `IsMadMixF16`. -/
def isMadMixF16 (opcode : Opcode) : Bool := opcode ∈ [.vMadMixloF16, .vMadMixhiF16]

/-- `NativeVop3SourceCount`. -/
def nativeVop3SourceCount (opcode : Opcode) : ℕ :=
  if opcode ∈ [
    .vMulLoU32, .vMulHiU32, .vMulLoI32, .vMulHiI32, .vMulI32I24, .vAddNcU16, .vSubNcU16, .vMaxU16,
    .vMaxI16, .vMinU16, .vMinI16, .vAddNcI16, .vSubNcI16, .vLshlrevB16, .vLshrrevB16,
    .vAshrrevI16, .vAddI32, .vSubI32, .vSubrevI32, .vPackB32F16, .vReadlaneB32, .vWritelaneB32,
    .vCvtPkrtzF16F32, .vLdexpF32, .vBfmB32, .vBcntU32B32, .vCvtPknormI16F32, .vCvtPknormU16F32,
    .vCvtPkU16U32]
  then 2 else 3

/-- `Vop3pSourceCount`. -/
def vop3pSourceCount (opcode : Opcode) : ℕ :=
  if opcode ∈ [
    .vPkMulLoU16, .vPkAddI16, .vPkSubI16, .vPkLshlrevB16, .vPkLshrrevB16, .vPkAshrrevI16,
    .vPkMaxI16, .vPkMinI16, .vPkAddU16, .vPkSubU16, .vPkMaxU16, .vPkMinU16, .vPkAddF16,
    .vPkMulF16, .vPkMinF16, .vPkMaxF16]
  then 2 else 3

/-- `SupportsNativeVop3SourceModifiers`. -/
def supportsNativeVop3SourceModifiers (opcode : Opcode) : Bool :=
  isVop1FloatSourceOpcode opcode || isVopcFloatCompareOpcode opcode ||
    isNativeVop3F16TernaryOpcode opcode || decide (opcode ∈ [
    .vCndmaskB32, .vAddF32, .vSubF32, .vSubrevF32, .vMulF32, .vMinF32, .vMaxF32, .vMacF32,
    .vMadF32, .vFmaF32, .vPackB32F16, .vCubeidF32, .vCubescF32, .vCubetcF32, .vCubemaF32,
    .vCvtPkrtzF16F32, .vCvtPknormI16F32, .vCvtPknormU16F32, .vMin3F32, .vMax3F32, .vMed3F32,
    .vLdexpF32])

/-- `SupportsNativeVop3ResultModifiers`. -/
def supportsNativeVop3ResultModifiers (opcode : Opcode) : Bool :=
  isVop1FloatResultOpcode opcode || decide (opcode ∈ [
    .vAddF32, .vSubF32, .vSubrevF32, .vMulF32, .vMinF32, .vMaxF32, .vMacF32, .vMadF32, .vFmaF32,
    .vFmaF16, .vLdexpF32, .vMin3F32, .vMax3F32, .vMed3F32])

/-- `HasUnsupportedNativeVop3Modifiers`; `x &&& (0xf - m)` is `x & ~m` of a field of up to four
bits. -/
def hasUnsupportedNativeVop3Modifiers (opcode : Opcode) (permlane madMix addc scalarDst : Bool)
    (abs opSel clamp omod neg : ℕ) : Bool :=
  let sourceModifiers := supportsNativeVop3SourceModifiers opcode
  let resultModifiers := supportsNativeVop3ResultModifiers opcode
  if permlane then
    abs ≠ 0 ∨ opSel &&& (0xf - 0x3) ≠ 0 ∨ clamp ≠ 0 ∨ omod ≠ 0 ∨ neg ≠ 0
  else if madMix then clamp ≠ 0 ∨ omod ≠ 0
  else if isNativeVop3F16TernaryOpcode opcode then opcode ≠ .vFmaF16 ∧ (clamp ≠ 0 ∨ omod ≠ 0)
  else if isNativeVop3B16BinaryOpcode opcode then abs ≠ 0 ∨ clamp ≠ 0 ∨ omod ≠ 0 ∨ neg ≠ 0
  else if addc || scalarDst then clamp ≠ 0 ∨ omod ≠ 0 ∨ neg ≠ 0
  else if opcode = .vLdexpF32 then
    abs &&& (0xf - 0x1) ≠ 0 ∨ opSel ≠ 0 ∨ neg &&& (0xf - 0x1) ≠ 0
  else if opcode = .vCndmaskB32 then
    abs &&& (0xf - 0x3) ≠ 0 ∨ opSel ≠ 0 ∨ clamp ≠ 0 ∨ omod ≠ 0 ∨ neg &&& (0xf - 0x3) ≠ 0
  else if opcode = .vPackB32F16 then
    abs &&& (0xf - 0x3) ≠ 0 ∨ opSel &&& (0xf - 0x3) ≠ 0 ∨ clamp ≠ 0 ∨ omod ≠ 0 ∨
      neg &&& (0xf - 0x3) ≠ 0
  else if sourceModifiers then
    opSel ≠ 0 ∨ omod ≠ 0 ∧ resultModifiers = false ∨ clamp ≠ 0 ∧ resultModifiers = false
  else if resultModifiers then abs ≠ 0 ∨ opSel ≠ 0 ∨ neg ≠ 0
  else abs ≠ 0 ∨ opSel ≠ 0 ∨ clamp ≠ 0 ∨ omod ≠ 0 ∨ neg ≠ 0

/-! ### SDWA -/

/-- `SdwaSelBytes`. -/
def sdwaSelBytes : ℕ := 1 <<< 0 ||| 1 <<< 1 ||| 1 <<< 2 ||| 1 <<< 3

/-- `SdwaSelWords`. -/
def sdwaSelWords : ℕ := 1 <<< 4 ||| 1 <<< 5

/-- `SdwaSelFull`. -/
def sdwaSelFull : ℕ := 1 <<< 6

/-- `SdwaSelAll`. -/
def sdwaSelAll : ℕ := sdwaSelBytes ||| sdwaSelWords ||| sdwaSelFull

/-- `HasSdwaSelector`. -/
def hasSdwaSelector (mask selector : ℕ) : Bool :=
  decide (selector ≤ 6) && decide (mask &&& 1 <<< selector ≠ 0)

/-- `IsValidFullSdwaDestinationUnused`. -/
def isValidFullSdwaDestinationUnused (dstU : ℕ) : Bool := dstU ≠ 3

/-- `Vop1SdwaRule`. -/
structure Vop1SdwaRule where
  opcode : Opcode
  sourceSelectors : ℕ
  partialDstSelectors : ℕ
  partialDstSourceSelectors : ℕ
  sourceModifiers : Bool

/-- `VOP1_SDWA_RULES`. -/
def vop1SdwaRules : List Vop1SdwaRule := [
    ⟨.vMovB32, sdwaSelBytes ||| sdwaSelWords ||| sdwaSelFull, sdwaSelWords,
      sdwaSelWords ||| sdwaSelFull, false⟩,
    ⟨.vCvtF32U32, sdwaSelBytes ||| sdwaSelWords ||| sdwaSelFull, 0, 0, false⟩,
    ⟨.vCvtF32I32, sdwaSelBytes ||| sdwaSelWords ||| sdwaSelFull, 0, 0, false⟩,
    ⟨.vCvtF32F16, sdwaSelWords ||| sdwaSelFull, 0, 0, true⟩,
    ⟨.vCvtF16F32, sdwaSelFull, sdwaSelWords, sdwaSelFull, false⟩,
    ⟨.vCvtF16U16, sdwaSelWords ||| sdwaSelFull, sdwaSelWords, sdwaSelWords ||| sdwaSelFull, false⟩,
    ⟨.vCvtU16F16, sdwaSelWords ||| sdwaSelFull, sdwaSelWords, sdwaSelWords ||| sdwaSelFull, false⟩,
    ⟨.vCvtF16I16, sdwaSelWords ||| sdwaSelFull, sdwaSelWords, sdwaSelWords ||| sdwaSelFull, false⟩,
    ⟨.vCvtI16F16, sdwaSelWords ||| sdwaSelFull, sdwaSelWords, sdwaSelWords ||| sdwaSelFull, false⟩,
    ⟨.vRcpF16, sdwaSelWords ||| sdwaSelFull, sdwaSelWords, sdwaSelWords ||| sdwaSelFull, true⟩,
    ⟨.vSqrtF16, sdwaSelWords ||| sdwaSelFull, sdwaSelWords, sdwaSelWords ||| sdwaSelFull, false⟩,
    ⟨.vRsqF16, sdwaSelWords ||| sdwaSelFull, sdwaSelWords, sdwaSelWords ||| sdwaSelFull, false⟩,
    ⟨.vLogF16, sdwaSelWords ||| sdwaSelFull, sdwaSelWords, sdwaSelWords ||| sdwaSelFull, true⟩,
    ⟨.vExpF16, sdwaSelWords ||| sdwaSelFull, sdwaSelWords, sdwaSelWords ||| sdwaSelFull, true⟩,
    ⟨.vFloorF16, sdwaSelWords ||| sdwaSelFull, sdwaSelWords, sdwaSelWords ||| sdwaSelFull, false⟩,
    ⟨.vCeilF16, sdwaSelWords ||| sdwaSelFull, sdwaSelWords, sdwaSelWords ||| sdwaSelFull, false⟩,
    ⟨.vTruncF16, sdwaSelWords ||| sdwaSelFull, sdwaSelWords, sdwaSelWords ||| sdwaSelFull, false⟩,
    ⟨.vRndneF16, sdwaSelWords ||| sdwaSelFull, sdwaSelWords, sdwaSelWords ||| sdwaSelFull, false⟩,
    ⟨.vCvtU32F32, sdwaSelFull, sdwaSelBytes ||| sdwaSelWords, sdwaSelFull, false⟩,
    ⟨.vCvtI32F32, sdwaSelFull, sdwaSelBytes ||| sdwaSelWords, sdwaSelFull, false⟩,
    ⟨.vCvtRpiI32F32, sdwaSelFull, sdwaSelBytes ||| sdwaSelWords, sdwaSelFull, false⟩,
    ⟨.vCvtFlrI32F32, sdwaSelFull, sdwaSelBytes ||| sdwaSelWords, sdwaSelFull, false⟩]

/-- `FindVop1SdwaRule`. -/
def findVop1SdwaRule (opcode : Opcode) : Option Vop1SdwaRule :=
  vop1SdwaRules.find? (·.opcode = opcode)

/-- `IsVop1SdwaSourceSupported`. -/
def isVop1SdwaSourceSupported (opcode : Opcode) (srcSel : ℕ) (srcNeg srcAbs : Bool) : Bool :=
  if srcSel = 6 then true
  else
    match findVop1SdwaRule opcode with
    | none => false
    | some rule =>
      hasSdwaSelector rule.sourceSelectors srcSel && (rule.sourceModifiers || (!srcNeg && !srcAbs))

/-- `IsVop1SdwaDestinationSupported`. -/
def isVop1SdwaDestinationSupported (opcode : Opcode) (dstSel dstU srcSel : ℕ) : Bool :=
  if (opcode = .vCvtU16F16 ∨ opcode = .vCvtI16F16) ∧ dstSel = 6 then false
  else if dstSel = 6 then isValidFullSdwaDestinationUnused dstU
  else
    match findVop1SdwaRule opcode with
    | none => false
    | some rule =>
      decide (dstU = 2) && hasSdwaSelector rule.partialDstSelectors dstSel &&
        hasSdwaSelector rule.partialDstSourceSelectors srcSel

/-- `HasUnsupportedVop1SdwaSourceModifiers`. -/
def hasUnsupportedVop1SdwaSourceModifiers (opcode : Opcode) (srcNeg srcAbs : Bool) : Bool :=
  if opcode ∈ [.vCvtU16F16, .vCvtI16F16, .vSqrtF16, .vRsqF16] then srcNeg || srcAbs
  else if opcode = .vLogF16 then srcNeg else false

/-- `ValidateVop1Sdwa`. -/
def validateVop1Sdwa (opcode : Opcode) (modifier : ℕ) : Bool :=
  let dstSel := modifier >>> 8 &&& 0x7
  let dstU := modifier >>> 11 &&& 0x3
  let clamp := modifier >>> 13 &&& 0x1
  let omod := modifier >>> 14 &&& 0x3
  let src0Sel := modifier >>> 16 &&& 0x7
  let src0Neg := bit modifier 20
  let src0Abs := bit modifier 21
  if 6 < src0Sel ∨ 6 < dstSel then false
  else if (clamp ≠ 0 ∨ omod ≠ 0) ∧ isVop1FloatResultOpcode opcode = false then false
  else if !isVop1SdwaDestinationSupported opcode dstSel dstU src0Sel then false
  else if hasUnsupportedVop1SdwaSourceModifiers opcode src0Neg src0Abs then false
  else isVop1SdwaSourceSupported opcode src0Sel src0Neg src0Abs

/-- `Vop2SdwaFields`. -/
structure Vop2SdwaFields where
  src0 : ℕ
  dstSel : ℕ
  dstU : ℕ
  clamp : ℕ
  omod : ℕ
  src0Sel : ℕ
  src0Neg : Bool
  src0Abs : Bool
  s0 : Bool
  src1Sel : ℕ
  src1Neg : Bool
  src1Abs : Bool
  s1 : Bool

/-- `DecodeVop2SdwaFields`. -/
def decodeVop2SdwaFields (modifier : ℕ) : Vop2SdwaFields where
  src0 := modifier &&& 0xff
  dstSel := modifier >>> 8 &&& 0x7
  dstU := modifier >>> 11 &&& 0x3
  clamp := modifier >>> 13 &&& 0x1
  omod := modifier >>> 14 &&& 0x3
  src0Sel := modifier >>> 16 &&& 0x7
  src0Neg := bit modifier 20
  src0Abs := bit modifier 21
  s0 := bit modifier 23
  src1Sel := modifier >>> 24 &&& 0x7
  src1Neg := bit modifier 28
  src1Abs := bit modifier 29
  s1 := bit modifier 31

/-- `Vop2SdwaRule`. -/
structure Vop2SdwaRule where
  opcode : Opcode
  dstSelectors : ℕ
  src0Selectors : ℕ
  src1Selectors : ℕ
  partialDst : Bool
  sourceModifiers : Bool

/-- `VOP2_SDWA_RULES`. -/
def vop2SdwaRules : List Vop2SdwaRule := [
    ⟨.vCndmaskB32, sdwaSelWords, sdwaSelWords ||| sdwaSelFull, sdwaSelWords ||| sdwaSelFull,
      true, false⟩,
    ⟨.vAddF32, sdwaSelFull, sdwaSelFull, sdwaSelFull, false, true⟩,
    ⟨.vSubF32, sdwaSelFull, sdwaSelFull, sdwaSelFull, false, true⟩,
    ⟨.vMulF32, sdwaSelFull, sdwaSelFull, sdwaSelFull, false, true⟩,
    ⟨.vAddF16, sdwaSelWords ||| sdwaSelFull, sdwaSelWords ||| sdwaSelFull,
      sdwaSelWords ||| sdwaSelFull, true, true⟩,
    ⟨.vSubF16, sdwaSelWords ||| sdwaSelFull, sdwaSelWords ||| sdwaSelFull,
      sdwaSelWords ||| sdwaSelFull, true, true⟩,
    ⟨.vSubrevF16, sdwaSelWords ||| sdwaSelFull, sdwaSelWords ||| sdwaSelFull,
      sdwaSelWords ||| sdwaSelFull, true, true⟩,
    ⟨.vMulF16, sdwaSelWords ||| sdwaSelFull, sdwaSelWords ||| sdwaSelFull,
      sdwaSelWords ||| sdwaSelFull, true, true⟩,
    ⟨.vMaxF16, sdwaSelWords ||| sdwaSelFull, sdwaSelWords ||| sdwaSelFull,
      sdwaSelWords ||| sdwaSelFull, true, true⟩,
    ⟨.vMinF16, sdwaSelWords ||| sdwaSelFull, sdwaSelWords ||| sdwaSelFull,
      sdwaSelWords ||| sdwaSelFull, true, true⟩,
    ⟨.vMulI32I24, sdwaSelFull, sdwaSelAll, sdwaSelAll, false, false⟩,
    ⟨.vMulU32U24, sdwaSelFull, sdwaSelAll, sdwaSelAll, false, false⟩,
    ⟨.vMinU32, sdwaSelFull, sdwaSelAll, sdwaSelAll, false, false⟩,
    ⟨.vMaxU32, sdwaSelFull, sdwaSelAll, sdwaSelAll, false, false⟩,
    ⟨.vLshrrevB32, sdwaSelFull, sdwaSelFull, sdwaSelWords ||| sdwaSelFull, false, false⟩,
    ⟨.vLshlrevB32, sdwaSelFull, sdwaSelFull, sdwaSelAll, false, false⟩,
    ⟨.vAndB32, sdwaSelWords ||| sdwaSelFull, sdwaSelAll, sdwaSelAll, true, false⟩,
    ⟨.vOrB32, sdwaSelWords ||| sdwaSelFull, sdwaSelAll, sdwaSelAll, true, false⟩,
    ⟨.vXorB32, sdwaSelWords ||| sdwaSelFull, sdwaSelAll, sdwaSelAll, true, false⟩,
    ⟨.vXnorB32, sdwaSelWords ||| sdwaSelFull, sdwaSelAll, sdwaSelAll, true, false⟩,
    ⟨.vAddNcU32, sdwaSelFull, sdwaSelAll, sdwaSelAll, false, false⟩,
    ⟨.vSubNcU32, sdwaSelFull, sdwaSelAll, sdwaSelAll, false, false⟩,
    ⟨.vSubrevNcU32, sdwaSelFull, sdwaSelAll, sdwaSelAll, false, false⟩]

/-- `FindVop2SdwaRule`. -/
def findVop2SdwaRule (opcode : Opcode) : Option Vop2SdwaRule :=
  vop2SdwaRules.find? (·.opcode = opcode)

/-- `IsVop2SdwaDestinationSupported`. -/
def isVop2SdwaDestinationSupported (rule : Vop2SdwaRule) (fields : Vop2SdwaFields) : Bool :=
  if !hasSdwaSelector rule.dstSelectors fields.dstSel then false
  else if fields.dstSel = 6 then isValidFullSdwaDestinationUnused fields.dstU
  else decide (fields.dstU = 2) && rule.partialDst

/-- `IsFullWidthVop2Sdwa`. -/
def isFullWidthVop2Sdwa (fields : Vop2SdwaFields) : Bool :=
  fields.dstSel = 6 && fields.dstU = 0 && fields.src0Sel = 6 && fields.src1Sel = 6

/-- `ValidateVop2Sdwa`. -/
def validateVop2Sdwa (opcode : Opcode) (fields : Vop2SdwaFields) : Bool :=
  let hasSourceModifiers :=
    fields.src0Neg || fields.src0Abs || fields.src1Neg || fields.src1Abs
  if 6 < fields.src0Sel ∨ 6 < fields.src1Sel ∨ 6 < fields.dstSel then false
  else if (fields.clamp ≠ 0 ∨ fields.omod ≠ 0) ∧ isVop2FloatResultOpcode opcode = false then false
  else if isFullWidthVop2Sdwa fields then
    isVop2FloatSourceOpcode opcode || opcode = .vCndmaskB32 || !hasSourceModifiers
  else
    match findVop2SdwaRule opcode with
    | none => false
    | some rule =>
      if !isVop2SdwaDestinationSupported rule fields then false
      else if !hasSdwaSelector rule.src0Selectors fields.src0Sel ||
          !hasSdwaSelector rule.src1Selectors fields.src1Sel then false
      else
        let cndmaskFloatModifiers :=
          opcode = .vCndmaskB32 && fields.src0Sel = 6 && fields.src1Sel = 6
        rule.sourceModifiers || !hasSourceModifiers || cndmaskFloatModifiers

/-- `VopcSdwaFields`. -/
structure VopcSdwaFields where
  src0 : ℕ
  sdst : ℕ
  sd : Bool
  src0Sel : ℕ
  s0 : Bool
  src1Sel : ℕ
  s1 : Bool

/-- `DecodeVopcSdwaFields`. -/
def decodeVopcSdwaFields (modifier : ℕ) : VopcSdwaFields where
  src0 := modifier &&& 0xff
  sdst := modifier >>> 8 &&& 0x7f
  sd := bit modifier 15
  src0Sel := modifier >>> 16 &&& 0x7
  s0 := bit modifier 23
  src1Sel := modifier >>> 24 &&& 0x7
  s1 := bit modifier 31

end Prosperismo.Decoder
