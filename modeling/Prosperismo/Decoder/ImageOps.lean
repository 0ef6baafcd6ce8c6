import Prosperismo.Decoder.MemoryOps

/-!
# Image instructions and exports

`ImageOps.cpp` and `ExportOps.cpp`: the families MIMG and EXP. An image instruction is two
words, and up to three words of addresses.

The names, the flags and the dimensions of images are left out, and so are the fields of
an export.
-/

namespace Prosperismo.Decoder

/-! ### Opcodes -/

/-- The opcodes of `MIMG_SAMPLE_OPS`. -/
def mimgSampleOps : List ℕ := [
    0x20, 0x21, 0x22, 0x23, 0x24, 0x25, 0x26, 0x27, 0x28, 0x29, 0x2a, 0x2b, 0x2c, 0x2d, 0x2e,
    0x2f, 0x30, 0x31, 0x32, 0x33, 0x34, 0x35, 0x36, 0x37, 0x38, 0x39, 0x3a, 0x3b, 0x3c, 0x3d,
    0x3e, 0x3f, 0x68, 0x69, 0x6a, 0x6b, 0x6c, 0x6d, 0x6e, 0x6f, 0xa0, 0xa1, 0xa5, 0xa6, 0xa8,
    0xa9, 0xad, 0xae, 0xb0, 0xb1, 0xb5, 0xb6, 0xb8, 0xb9, 0xbd, 0xbe]

/-- The opcodes of `MIMG_GATHER_OPS`. -/
def mimgGatherOps : List (ℕ × Opcode) := [
    (0x47, .imageGather4Lz), (0x48, .imageGather4C), (0x4f, .imageGather4CLz),
    (0x57, .imageGather4LzO), (0x58, .imageGather4CO), (0x5f, .imageGather4CLzO),
    (0x61, .imageGather4H)]

/-- The opcodes of `MIMG_ATOMIC_OPS`. -/
def mimgAtomicOps : List (ℕ × Opcode) := [
    (0x11, .imageAtomicAdd), (0x15, .imageAtomicUMin), (0x17, .imageAtomicUMax),
    (0x18, .imageAtomicAnd), (0x19, .imageAtomicOr), (0x1a, .imageAtomicXor)]

/-- `MaxImageNsaAddressComponents`. -/
def maxImageNsaAddressComponents : ℕ := 12

/-- `DecodeMimgOpcode`. -/
def decodeMimgOpcode (opcode : ℕ) : Opcode :=
  if opcode ∈ mimgSampleOps then .imageSample
  else
    match mimgGatherOps.lookup opcode, mimgAtomicOps.lookup opcode with
    | some decoded, _ => decoded
    | none, some decoded => decoded
    | none, none =>
      match opcode with
      | 0x00 => .imageLoad
      | 0x01 => .imageLoadMip
      | 0x08 => .imageStore
      | 0x09 => .imageStoreMip
      | 0x0e => .imageGetResinfo
      | 0x60 => .imageGetLod
      | 0xe6 => .imageBvhIntersectRay
      | _ => .unsupported

/-- `CountDmaskComponents`. -/
def countDmaskComponents (dmask : ℕ) : ℕ :=
  let count := ((List.range 4).map fun i => dmask >>> i &&& 1).sum
  if count ≠ 0 then count else 1

/-- `IsSingleDmaskBit`. -/
def isSingleDmaskBit (dmask : ℕ) : Bool := decide (dmask ≠ 0) && decide (dmask &&& (dmask - 1) = 0)

/-! ### Decoders -/

section Decode

variable (pc : ℕ) (code : Code) (index : ℕ)

/-- `DecodeMimg`. -/
def decodeMimg : Except Failure Instruction := do
  let (word0, word1) ← twoWords pc code index .mimg
  let opcode := (word0 >>> 18 &&& 0x7f) ||| (word0 &&& 1) <<< 7
  let nsaDwords := word0 >>> 1 &&& 0x3
  let wordCount := 2 + nsaDwords
  if code.length < index + wordCount then .error (.truncated .mimgNsa pc)
  else
    let vdata := word1 >>> 8 &&& 0xff
    let vaddr := word1 &&& 0xff
    let srsrc := word1 >>> 16 &&& 0x1f
    let ssamp := word1 >>> 21 &&& 0x1f
    let a16 := bit word1 30
    let gather := (mimgGatherOps.lookup opcode).isSome
    let dmask := word0 >>> 8 &&& 0xf
    let imageNsaAddr ←
      (List.range (min (nsaDwords * 4) maxImageNsaAddressComponents)).mapM fun i => do
        let word ← code.word (index + 2 + i / 4)
        return word >>> (i % 4 * 8) &&& 0xff
    let inst ← setRawWords code index wordCount {
      pc
      opcode := decodeMimgOpcode opcode
      dmask
      dataDwords := if opcode = 0xe6 ∨ gather then 4 else countDmaskComponents dmask
      glc := bit word0 13
      slc := bit word0 25
      imageNsaAddr }
    let inst := if gather && !isSingleDmaskBit inst.dmask then inst.unsupported else inst
    let inst :=
      if opcode = 0xe6 ∧ (a16 = true ∨ inst.dmask ≠ 0xf) then inst.unsupported else inst
    return { inst with
      dst := orNone (decodeVectorGpr vdata)
      src0 := orNone (decodeVectorGpr vaddr)
      src1 := orNone (decodeScalarSource (srsrc * 4) pc)
      src2 := if opcode = 0xe6 then {} else orNone (decodeScalarSource (ssamp * 4) pc)
      srcCount := if opcode = 0xe6 then 2 else 3 }

/-- `DecodeExp`. -/
def decodeExp : Except Failure Instruction := do
  let (word0, word1) ← twoWords pc code index .exp
  let target := word0 >>> 4 &&& 0x3f
  let en := word0 &&& 0xf
  let compr := bit word0 10
  let done := bit word0 11
  let inst ← setRawWords code index 2 { pc, opcode := .exp }
  let src0 ← decodeVectorGpr (word1 &&& 0xff)
  let src1 ← decodeVectorGpr (word1 >>> 8 &&& 0xff)
  let src2 ← decodeVectorGpr (word1 >>> 16 &&& 0xff)
  let src3 ← decodeVectorGpr (word1 >>> 24 &&& 0xff)
  return { inst with
    src0, src1, src2, src3
    srcCount :=
      if en = 0 then 0
      else if target = 0x14 ∧ done = true ∧ en = 1 then 1
      else if compr then 2 else 4 }

end Decode

end Prosperismo.Decoder
