import Prosperismo.Decoder.Model

/-!
# Memory instructions

`MemoryOps.cpp`: the families SMEM, MUBUF, MTBUF, FLAT and DS. An instruction of them is
two words. Operands that cannot be decoded are left out without an error (`orNone`).
-/

namespace Prosperismo.Decoder

open Prosperismo.Cfg (u32)

/-! ### Opcodes -/

/-- `MemoryOpcodeInfo`. -/
structure MemoryOpcodeInfo where
  opcode : ℕ
  decoded : Opcode
  dataDwords : ℕ
  dataBits : ℕ
  dataSigned : Bool
  typed : Bool
  formatted : Bool

/-- `SMEM_OPS`. -/
def smemOps : List MemoryOpcodeInfo := [
    ⟨0x00, .sLoadDword, 1, 32, false, false, false⟩,
    ⟨0x01, .sLoadDwordx2, 2, 32, false, false, false⟩,
    ⟨0x02, .sLoadDwordx4, 4, 32, false, false, false⟩,
    ⟨0x03, .sLoadDwordx8, 8, 32, false, false, false⟩,
    ⟨0x04, .sLoadDwordx16, 16, 32, false, false, false⟩,
    ⟨0x08, .sBufferLoadDword, 1, 32, false, false, false⟩,
    ⟨0x09, .sBufferLoadDwordx2, 2, 32, false, false, false⟩,
    ⟨0x0a, .sBufferLoadDwordx4, 4, 32, false, false, false⟩,
    ⟨0x0b, .sBufferLoadDwordx8, 8, 32, false, false, false⟩,
    ⟨0x0c, .sBufferLoadDwordx16, 16, 32, false, false, false⟩]

/-- `MUBUF_OPS`. -/
def mubufOps : List MemoryOpcodeInfo := [
    ⟨0x00, .bufferLoadFormatX, 1, 32, false, false, true⟩,
    ⟨0x01, .bufferLoadFormatXy, 2, 32, false, false, true⟩,
    ⟨0x02, .bufferLoadFormatXyz, 3, 32, false, false, true⟩,
    ⟨0x03, .bufferLoadFormatXyzw, 4, 32, false, false, true⟩,
    ⟨0x04, .bufferStoreFormatX, 1, 32, false, false, true⟩,
    ⟨0x05, .bufferStoreFormatXy, 2, 32, false, false, true⟩,
    ⟨0x06, .bufferStoreFormatXyz, 3, 32, false, false, true⟩,
    ⟨0x07, .bufferStoreFormatXyzw, 4, 32, false, false, true⟩,
    ⟨0x08, .bufferLoadUbyte, 1, 8, false, false, false⟩,
    ⟨0x09, .bufferLoadSbyte, 1, 8, true, false, false⟩,
    ⟨0x0a, .bufferLoadUshort, 1, 16, false, false, false⟩,
    ⟨0x0b, .bufferLoadSshort, 1, 16, true, false, false⟩,
    ⟨0x0c, .bufferLoadDword, 1, 32, false, false, false⟩,
    ⟨0x0d, .bufferLoadDwordx2, 2, 32, false, false, false⟩,
    ⟨0x0e, .bufferLoadDwordx4, 4, 32, false, false, false⟩,
    ⟨0x0f, .bufferLoadDwordx3, 3, 32, false, false, false⟩,
    ⟨0x18, .bufferStoreByte, 1, 8, false, false, false⟩,
    ⟨0x1a, .bufferStoreShort, 1, 16, false, false, false⟩,
    ⟨0x1c, .bufferStoreDword, 1, 32, false, false, false⟩,
    ⟨0x1d, .bufferStoreDwordx2, 2, 32, false, false, false⟩,
    ⟨0x1e, .bufferStoreDwordx4, 4, 32, false, false, false⟩,
    ⟨0x1f, .bufferStoreDwordx3, 3, 32, false, false, false⟩,
    ⟨0x30, .bufferAtomicSwap, 1, 32, false, false, false⟩,
    ⟨0x32, .bufferAtomicAdd, 1, 32, false, false, false⟩,
    ⟨0x33, .bufferAtomicSub, 1, 32, false, false, false⟩,
    ⟨0x35, .bufferAtomicSMin, 1, 32, false, false, false⟩,
    ⟨0x36, .bufferAtomicUMin, 1, 32, false, false, false⟩,
    ⟨0x37, .bufferAtomicSMax, 1, 32, false, false, false⟩,
    ⟨0x38, .bufferAtomicUMax, 1, 32, false, false, false⟩,
    ⟨0x39, .bufferAtomicAnd, 1, 32, false, false, false⟩,
    ⟨0x3a, .bufferAtomicOr, 1, 32, false, false, false⟩,
    ⟨0x3b, .bufferAtomicXor, 1, 32, false, false, false⟩]

/-- `MTBUF_OPS`. -/
def mtbufOps : List MemoryOpcodeInfo := [
    ⟨0x00, .tBufferLoadFormatX, 1, 32, false, true, true⟩,
    ⟨0x01, .tBufferLoadFormatXy, 2, 32, false, true, true⟩,
    ⟨0x02, .tBufferLoadFormatXyz, 3, 32, false, true, true⟩,
    ⟨0x03, .tBufferLoadFormatXyzw, 4, 32, false, true, true⟩,
    ⟨0x04, .tBufferStoreFormatX, 1, 32, false, true, true⟩,
    ⟨0x05, .tBufferStoreFormatXy, 2, 32, false, true, true⟩,
    ⟨0x06, .tBufferStoreFormatXyz, 3, 32, false, true, true⟩,
    ⟨0x07, .tBufferStoreFormatXyzw, 4, 32, false, true, true⟩]

/-- `FLAT_OPS`. -/
def flatOps : List MemoryOpcodeInfo := [
    ⟨0x08, .flatLoadUbyte, 1, 8, false, false, false⟩,
    ⟨0x09, .flatLoadSbyte, 1, 8, true, false, false⟩,
    ⟨0x0a, .flatLoadUshort, 1, 16, false, false, false⟩,
    ⟨0x0b, .flatLoadSshort, 1, 16, true, false, false⟩,
    ⟨0x0c, .flatLoadDword, 1, 32, false, false, false⟩,
    ⟨0x0d, .flatLoadDwordx2, 2, 32, false, false, false⟩,
    ⟨0x0e, .flatLoadDwordx4, 4, 32, false, false, false⟩,
    ⟨0x0f, .flatLoadDwordx3, 3, 32, false, false, false⟩,
    ⟨0x18, .flatStoreByte, 1, 8, false, false, false⟩,
    ⟨0x1a, .flatStoreShort, 1, 16, false, false, false⟩,
    ⟨0x1c, .flatStoreDword, 1, 32, false, false, false⟩,
    ⟨0x1d, .flatStoreDwordx2, 2, 32, false, false, false⟩,
    ⟨0x1e, .flatStoreDwordx4, 4, 32, false, false, false⟩,
    ⟨0x1f, .flatStoreDwordx3, 3, 32, false, false, false⟩]

/-- `DS_OPS`. -/
def dsOps : List MemoryOpcodeInfo := [
    ⟨0x00, .dsAddU32, 1, 32, false, false, false⟩, ⟨0x01, .dsSubU32, 1, 32, false, false, false⟩,
    ⟨0x05, .dsMinI32, 1, 32, false, false, false⟩, ⟨0x06, .dsMaxI32, 1, 32, false, false, false⟩,
    ⟨0x07, .dsMinU32, 1, 32, false, false, false⟩, ⟨0x08, .dsMaxU32, 1, 32, false, false, false⟩,
    ⟨0x09, .dsAndB32, 1, 32, false, false, false⟩, ⟨0x0a, .dsOrB32, 1, 32, false, false, false⟩,
    ⟨0x0b, .dsXorB32, 1, 32, false, false, false⟩,
    ⟨0x0d, .dsWriteB32, 1, 32, false, false, false⟩,
    ⟨0x0e, .dsWrite2B32, 2, 32, false, false, false⟩,
    ⟨0x0f, .dsWrite2St64B32, 2, 32, false, false, false⟩,
    ⟨0x12, .dsMinF32, 1, 32, false, false, false⟩, ⟨0x13, .dsMaxF32, 1, 32, false, false, false⟩,
    ⟨0x1e, .dsWriteByte, 1, 8, false, false, false⟩,
    ⟨0x1f, .dsWriteShort, 1, 16, false, false, false⟩,
    ⟨0x20, .dsAddRtnU32, 1, 32, false, false, false⟩,
    ⟨0x21, .dsSubRtnU32, 1, 32, false, false, false⟩,
    ⟨0x25, .dsMinRtnI32, 1, 32, false, false, false⟩,
    ⟨0x26, .dsMaxRtnI32, 1, 32, false, false, false⟩,
    ⟨0x27, .dsMinRtnU32, 1, 32, false, false, false⟩,
    ⟨0x28, .dsMaxRtnU32, 1, 32, false, false, false⟩,
    ⟨0x29, .dsAndRtnB32, 1, 32, false, false, false⟩,
    ⟨0x2a, .dsOrRtnB32, 1, 32, false, false, false⟩,
    ⟨0x2b, .dsXorRtnB32, 1, 32, false, false, false⟩,
    ⟨0x2d, .dsWrxchgRtnB32, 1, 32, false, false, false⟩,
    ⟨0x35, .dsSwizzleB32, 1, 32, false, false, false⟩,
    ⟨0x36, .dsReadB32, 1, 32, false, false, false⟩,
    ⟨0x37, .dsRead2B32, 2, 32, false, false, false⟩,
    ⟨0x38, .dsRead2B32, 2, 32, false, false, false⟩,
    ⟨0x39, .dsReadSbyte, 1, 8, true, false, false⟩,
    ⟨0x3a, .dsReadUbyte, 1, 8, false, false, false⟩,
    ⟨0x3b, .dsReadSshort, 1, 16, true, false, false⟩,
    ⟨0x3c, .dsReadUshort, 1, 16, false, false, false⟩,
    ⟨0x3d, .dsConsume, 1, 32, false, false, false⟩, ⟨0x3e, .dsAppend, 1, 32, false, false, false⟩,
    ⟨0x4d, .dsWriteB64, 2, 32, false, false, false⟩,
    ⟨0x4e, .dsWrite2B64, 4, 32, false, false, false⟩,
    ⟨0x4f, .dsWrite2St64B64, 4, 32, false, false, false⟩,
    ⟨0x76, .dsReadB64, 2, 32, false, false, false⟩,
    ⟨0x77, .dsRead2B64, 4, 32, false, false, false⟩,
    ⟨0x78, .dsRead2St64B64, 4, 32, false, false, false⟩,
    ⟨0xb0, .dsWriteAddtidB32, 1, 32, false, false, false⟩,
    ⟨0xb1, .dsReadAddtidB32, 1, 32, false, false, false⟩,
    ⟨0xde, .dsWriteB96, 3, 32, false, false, false⟩,
    ⟨0xdf, .dsWriteB128, 4, 32, false, false, false⟩,
    ⟨0xfe, .dsReadB96, 3, 32, false, false, false⟩,
    ⟨0xff, .dsReadB128, 4, 32, false, false, false⟩]

/-- `SignExtendU32`. -/
def signExtendU32 (value bits : ℕ) : ℕ :=
  if bits = 0 ∨ 32 ≤ bits then value
  else
    let sign := 1 <<< (bits - 1)
    u32 ((value ^^^ sign) + (2 ^ 32 - sign))

/-- `ApplyMemoryInfo` of what `LookupMemoryOpcode` finds. -/
def applyMemoryInfo (ops : List MemoryOpcodeInfo) (opcode : ℕ) (inst : Instruction) : Instruction :=
  match ops.find? (·.opcode = opcode) with
  | none => { inst with opcode := .unsupported }
  | some info =>
    { inst with
      opcode := info.decoded
      dataDwords := info.dataDwords
      dataBits := info.dataBits
      dataSigned := info.dataSigned
      typed := info.typed
      formatted := info.formatted }

/-- `IsDsWriteOpcode`. -/
def isDsWriteOpcode (opcode : Opcode) : Bool := opcode ∈ [
    .dsWriteByte, .dsWriteShort, .dsWrite2B32, .dsWrite2St64B32, .dsWrite2B64, .dsWrite2St64B64,
    .dsWriteB32, .dsWriteB64, .dsWriteB96, .dsWriteB128]

/-- `IsDsAtomicOpcode`. -/
def isDsAtomicOpcode (opcode : Opcode) : Bool := opcode ∈ [
    .dsAddU32, .dsAddRtnU32, .dsSubU32, .dsSubRtnU32, .dsMinI32, .dsMinRtnI32, .dsMaxI32,
    .dsMaxRtnI32, .dsMinU32, .dsMinRtnU32, .dsMaxU32, .dsMaxRtnU32, .dsAndB32, .dsAndRtnB32,
    .dsOrB32, .dsOrRtnB32, .dsXorB32, .dsXorRtnB32, .dsWrxchgRtnB32]

/-- `DsSourceCount`. -/
def dsSourceCount (opcode : Opcode) : ℕ :=
  if opcode ∈ [.dsWrite2B32, .dsWrite2St64B32, .dsWrite2B64, .dsWrite2St64B64, .dsMinF32, .dsMaxF32]
  then 3
  else if opcode ∈ [.dsReadAddtidB32, .dsConsume, .dsAppend] then 0
  else if isDsWriteOpcode opcode || isDsAtomicOpcode opcode then 2 else 1

/-- `IsFlatStoreOpcode`. -/
def isFlatStoreOpcode (opcode : Opcode) : Bool := opcode ∈ [
    .flatStoreByte, .flatStoreShort, .flatStoreDword, .flatStoreDwordx2, .flatStoreDwordx3,
    .flatStoreDwordx4]

/-! ### Decoders -/

section Decode

variable (pc : ℕ) (code : Code) (index : ℕ)

/-- The start of a decoder of two words: none is read when the second is missing. -/
def twoWords (encoding : Encoding) : Except Failure (ℕ × ℕ) :=
  if code.length ≤ index + 1 then .error (.truncated encoding pc)
  else do
    let word0 ← code.word index
    let word1 ← code.word (index + 1)
    return (word0, word1)

/-- `DecodeSmem`. -/
def decodeSmem : Except Failure Instruction := do
  let (word0, word1) ← twoWords pc code index .smem
  let opcode := word0 >>> 18 &&& 0xff
  let sdst := word0 >>> 6 &&& 0x7f
  let sbase := word0 &&& 0x3f
  let soffset := word1 >>> 25 &&& 0x7f
  let inst ← setRawWords code index 2 (applyMemoryInfo smemOps opcode {
    pc
    offset := signExtendU32 (word1 &&& 0x1fffff) 21
    glc := bit word0 16 })
  return { inst with
    dst := orNone (decodeScalarDestination sdst pc)
    src0 := orNone (decodeScalarSource (sbase * 2) pc)
    src1 := orNone (decodeScalarSource soffset pc)
    srcCount := 2 }

/-- `DecodeMubuf`. -/
def decodeMubuf : Except Failure Instruction := do
  let (word0, word1) ← twoWords pc code index .mubuf
  let opcode := (word0 >>> 18 &&& 0x7f) ||| (word0 >>> 25 &&& 1) <<< 7
  let vdata := word1 >>> 8 &&& 0xff
  let vaddr := word1 &&& 0xff
  let srsrc := word1 >>> 16 &&& 0x1f
  let soffset := word1 >>> 24 &&& 0xff
  let inst ← setRawWords code index 2 (applyMemoryInfo mubufOps opcode {
    pc
    offset := word0 &&& 0xfff
    idxen := bit word0 13
    offen := bit word0 12
    glc := bit word0 14
    slc := bit word1 22 })
  return { inst with
    dst := orNone (decodeVectorGpr vdata)
    src0 := orNone (decodeVectorGpr vaddr)
    src1 := orNone (decodeScalarSource (srsrc * 4) pc)
    src2 := orNone (decodeScalarSource soffset pc)
    srcCount := 3 }

/-- `DecodeMtbuf`. -/
def decodeMtbuf : Except Failure Instruction := do
  let (word0, word1) ← twoWords pc code index .mtbuf
  let opcode := (word0 >>> 16 &&& 0x7) ||| (word1 >>> 21 &&& 1) <<< 3
  let vdata := word1 >>> 8 &&& 0xff
  let vaddr := word1 &&& 0xff
  let srsrc := word1 >>> 16 &&& 0x1f
  let soffset := word1 >>> 24 &&& 0xff
  let inst ← setRawWords code index 2 (applyMemoryInfo mtbufOps opcode {
    pc
    offset := word0 &&& 0xfff
    idxen := bit word0 13
    offen := bit word0 12
    glc := bit word0 14
    slc := bit word1 22
    dataFormat := word0 >>> 19 &&& 0xf
    numberFormat := word0 >>> 23 &&& 0x7 })
  return { inst with
    dst := orNone (decodeVectorGpr vdata)
    src0 := orNone (decodeVectorGpr vaddr)
    src1 := orNone (decodeScalarSource (srsrc * 4) pc)
    src2 := orNone (decodeScalarSource soffset pc)
    srcCount := 3 }

/-- `DecodeFlat`. -/
def decodeFlat : Except Failure Instruction := do
  let (word0, word1) ← twoWords pc code index .flat
  let offset := word0 &&& 0xfff
  let dlc := word0 >>> 12 &&& 1
  let lds := word0 >>> 13 &&& 1
  let seg := word0 >>> 14 &&& 0x3
  let opcode := word0 >>> 18 &&& 0x7f
  let vdst := word1 >>> 24 &&& 0xff
  let saddr := word1 >>> 16 &&& 0x7f
  let data := word1 >>> 8 &&& 0xff
  let addr := word1 &&& 0xff
  let inst ← setRawWords code index 2 (applyMemoryInfo flatOps opcode {
    pc
    offset := if seg = 0 then offset &&& 0x7ff else signExtendU32 offset 12
    glc := bit word0 16
    slc := bit word0 17
    memorySegment := seg })
  if dlc ≠ 0 ∨ lds ≠ 0 ∨ inst.glc = true ∨ inst.slc = true ∨ seg = 3 then return inst.unsupported
  else if inst.opcode = .unsupported then return inst.unsupported
  else
    return { inst with
      dst := orNone (decodeVectorGpr (if isFlatStoreOpcode inst.opcode then data else vdst))
      src0 := orNone (decodeVectorGpr addr)
      src1 :=
        if seg = 0 ∨ saddr = 0x7d ∨ saddr = 0x7f then orNone (decodeVectorGpr (addr + 1))
        else orNone (decodeScalarSource saddr pc)
      srcCount := 2 }

/-- The checks of `DecodeDs` that an instruction does not pass. -/
def dsUnsupported (inst : Instruction) (data0 data1 : ℕ) : Bool :=
  inst.opcode = .dsSwizzleB32 && decide (0xe000 ≤ inst.offset) ||
    inst.gds && decide (inst.opcode ∈ [.dsSwizzleB32, .dsWriteAddtidB32, .dsReadAddtidB32]) ||
    inst.opcode = .dsWriteAddtidB32 && decide (data1 ≠ 0) ||
    inst.opcode = .dsReadAddtidB32 && decide (data0 ≠ 0 ∨ data1 ≠ 0)

/-- The offsets of `DecodeDs`, scaled for the instructions with two of them. -/
def dsOffsets (inst : Instruction) (opcode offset0 offset1 : ℕ) : Instruction :=
  let scaled (scale : ℕ) : Instruction :=
    { inst with offset := offset0 * scale, secondaryOffset := offset1 * scale }
  if inst.opcode = .dsWrite2B32 ∨ opcode = 0x37 then scaled 4
  else if inst.opcode = .dsWrite2St64B32 ∨ opcode = 0x38 then scaled 256
  else if inst.opcode = .dsWrite2B64 ∨ inst.opcode = .dsRead2B64 then scaled 8
  else if inst.opcode = .dsWrite2St64B64 ∨ inst.opcode = .dsRead2St64B64 then scaled 512
  else inst

/-- `DecodeDs`. -/
def decodeDs : Except Failure Instruction := do
  let (word0, word1) ← twoWords pc code index .ds
  let opcode := word0 >>> 18 &&& 0xff
  let offset0 := word0 &&& 0xff
  let offset1 := word0 >>> 8 &&& 0xff
  let vdst := word1 >>> 24 &&& 0xff
  let data1 := word1 >>> 16 &&& 0xff
  let data0 := word1 >>> 8 &&& 0xff
  let addr := word1 &&& 0xff
  let inst ← setRawWords code index 2 (applyMemoryInfo dsOps opcode {
    pc
    offset := offset0 ||| offset1 <<< 8
    gds := bit word0 17 })
  let inst := if dsUnsupported inst data0 data1 then inst.unsupported else inst
  let inst := dsOffsets inst opcode offset0 offset1
  return { inst with
    dst := orNone (decodeVectorGpr vdst)
    src0 := orNone (decodeVectorGpr addr)
    src1 := orNone (decodeVectorGpr data0)
    src2 := orNone (decodeVectorGpr data1)
    srcCount := dsSourceCount inst.opcode }

end Decode

end Prosperismo.Decoder
