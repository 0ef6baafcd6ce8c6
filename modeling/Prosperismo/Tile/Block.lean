import Prosperismo.Base.XorLinear

/-!
# Blocks of tiled surfaces

A tiled surface is stored block by block, and the elements of a block are stored at offsets
that mix the bits of their coordinates. This module has the layouts of the blocks
(`tileGetBlockLayout`), the offset of an element in its block (`tileGetBlockOffset`), and what
some families change the offsets of a block by (`tileGetBlockXor`).

The tables of words that `tile.cpp` builds are functions of their index here: an index is
checked against the extent of the block before a table is read.
-/

namespace Prosperismo.Tile

/-! ### Layouts -/

/-- The numbers of bytes of an element that have a single bit and are at most 16. -/
inductive ElementSize
  | b1
  | b2
  | b4
  | b8
  | b16
  deriving DecidableEq

namespace ElementSize

/-- The number of bytes. -/
def bytes : ElementSize → ℕ
  | b1 => 1
  | b2 => 2
  | b4 => 4
  | b8 => 8
  | b16 => 16

/-- `std::has_single_bit(bytes_per_element) && bytes_per_element <= 16`. -/
def ofBytes : ℕ → Option ElementSize
  | 1 => some b1
  | 2 => some b2
  | 4 => some b4
  | 8 => some b8
  | 16 => some b16
  | _ => none

/-- The row of a table that is indexed by `std::countr_zero(bytes_per_element)`. -/
def select {α : Type} (row1 row2 row4 row8 row16 : α) : ElementSize → α
  | b1 => row1
  | b2 => row2
  | b4 => row4
  | b8 => row8
  | b16 => row16

end ElementSize

/-- `TileBlockFamily`. -/
inductive TileBlockFamily
  | standard256B
  | standard4KB
  | standard4KB3D
  | standard64KB
  | standard64KB3D
  | prt64KB
  | prt64KB3D
  | renderTarget64KB
  | depth64KB
  | count
  deriving DecidableEq

/-- `TileBlockLayout`. -/
structure TileBlockLayout where
  family : TileBlockFamily
  bytesPerElement : ElementSize
  blockSize : ℕ
  blockWidth : ℕ
  blockHeight : ℕ
  blockDepth : ℕ
  deriving DecidableEq

/-- `Gen5Thin64KBBlockSizeFromElementBytes`. -/
def gen5Thin64KBBlockSizeFromElementBytes : ElementSize → ℕ × ℕ :=
  ElementSize.select (256, 256) (256, 128) (128, 128) (128, 64) (64, 64)

/-- The layout whose block has 64 KiB and the thin dimensions. -/
def thin (family : TileBlockFamily) (bytes : ElementSize) : TileBlockLayout where
  family := family
  bytesPerElement := bytes
  blockSize := 65536
  blockWidth := (gen5Thin64KBBlockSizeFromElementBytes bytes).1
  blockHeight := (gen5Thin64KBBlockSizeFromElementBytes bytes).2
  blockDepth := 1

/-- The layout of `size` bytes whose block has the dimensions with these logarithms. -/
def thick (family : TileBlockFamily) (bytes : ElementSize) (size : ℕ) (log2Dims : ℕ × ℕ × ℕ) :
    TileBlockLayout where
  family := family
  bytesPerElement := bytes
  blockSize := size
  blockWidth := 1 <<< log2Dims.1
  blockHeight := 1 <<< log2Dims.2.1
  blockDepth := 1 <<< log2Dims.2.2

/-- The layout of `size` bytes with one of three widths. -/
def square (family : TileBlockFamily) (bytes : ElementSize) (size width2 width8 width16 : ℕ) :
    TileBlockLayout :=
  let width := if bytes.bytes ≤ 2 then width2 else if bytes.bytes ≤ 8 then width8 else width16
  { family := family
    bytesPerElement := bytes
    blockSize := size
    blockWidth := width
    blockHeight := size / (width * bytes.bytes)
    blockDepth := 1 }

/-- The layout of a family, before it is checked. -/
def familyLayout (family : TileBlockFamily) (bytes : ElementSize) : Option TileBlockLayout :=
  match family with
  | .standard256B => some (square family bytes 256 16 8 4)
  | .standard4KB => some (square family bytes 4096 64 32 16)
  | .standard4KB3D =>
    some (thick family bytes 4096
      (ElementSize.select (4, 4, 4) (3, 4, 4) (3, 4, 3) (3, 3, 3) (2, 3, 3) bytes))
  | .standard64KB | .prt64KB | .renderTarget64KB => some (thin family bytes)
  | .standard64KB3D | .prt64KB3D =>
    some (thick family bytes 65536
      (ElementSize.select (6, 5, 5) (5, 5, 5) (5, 5, 4) (5, 4, 4) (4, 4, 4) bytes))
  | .depth64KB => if bytes.bytes > 8 then none else some (thin family bytes)
  | .count => none

/-- `TileGetBlockLayout`. -/
def tileGetBlockLayout (family : TileBlockFamily) (bytesPerElement : ℕ) :
    Option TileBlockLayout := do
  let bytes ← ElementSize.ofBytes bytesPerElement
  let result ← familyLayout family bytes
  guard (result.blockWidth * result.blockHeight * result.blockDepth * bytesPerElement =
    result.blockSize)
  return result

/-! ### Offsets in a block -/

section Offsets

variable (x y z : BitVec 32)

/-- `Gen5Standard4KBOffsetInBlock`. -/
def gen5Standard4KBOffsetInBlock : ElementSize → BitVec 32
  | .b1 =>
    ((y <<< 4) &&& 0x1f0) ^^^ ((y <<< 5) &&& 0x400) ^^^ (x &&& 0x00f) ^^^
      ((x <<< 5) &&& 0x200) ^^^ ((x <<< 6) &&& 0x800)
  | .b2 =>
    ((y <<< 4) &&& 0x070) ^^^ ((y <<< 5) &&& 0x100) ^^^ ((y <<< 6) &&& 0x400) ^^^
      ((x <<< 1) &&& 0x00e) ^^^ ((x <<< 4) &&& 0x080) ^^^ ((x <<< 5) &&& 0x200) ^^^
      ((x <<< 6) &&& 0x800)
  | .b4 =>
    ((y <<< 4) &&& 0x070) ^^^ ((y <<< 5) &&& 0x100) ^^^ ((y <<< 6) &&& 0x400) ^^^
      ((x <<< 2) &&& 0x00c) ^^^ ((x <<< 5) &&& 0x080) ^^^ ((x <<< 6) &&& 0x200) ^^^
      ((x <<< 7) &&& 0x800)
  | .b8 =>
    ((y <<< 4) &&& 0x030) ^^^ ((y <<< 6) &&& 0x100) ^^^ ((y <<< 7) &&& 0x400) ^^^
      ((x <<< 3) &&& 0x008) ^^^ ((x <<< 5) &&& 0x0c0) ^^^ ((x <<< 6) &&& 0x200) ^^^
      ((x <<< 7) &&& 0x800)
  | .b16 =>
    ((y <<< 4) &&& 0x030) ^^^ ((y <<< 6) &&& 0x100) ^^^ ((y <<< 7) &&& 0x400) ^^^
      ((x <<< 6) &&& 0x0c0) ^^^ ((x <<< 7) &&& 0x200) ^^^ ((x <<< 8) &&& 0x800)

/-- `Gen5Standard256BOffsetInBlock`. -/
def gen5Standard256BOffsetInBlock (bytes : ElementSize) : BitVec 32 :=
  gen5Standard4KBOffsetInBlock x y bytes &&& 0xff

/-- `Gen5Standard4KBVolumeOffsetInBlock`. -/
def gen5Standard4KBVolumeOffsetInBlock : ElementSize → BitVec 32
  | .b1 =>
    (x &&& 0x3) ^^^ ((x <<< 4) &&& 0x40) ^^^ ((x <<< 6) &&& 0x200) ^^^ ((y <<< 3) &&& 0x8) ^^^
      ((y <<< 4) &&& 0x20) ^^^ ((y <<< 6) &&& 0x100) ^^^ ((y <<< 8) &&& 0x800) ^^^
      ((z <<< 2) &&& 0x4) ^^^ ((z <<< 3) &&& 0x10) ^^^ ((z <<< 5) &&& 0x80) ^^^
      ((z <<< 7) &&& 0x400)
  | .b2 =>
    ((x <<< 1) &&& 0x2) ^^^ ((x <<< 5) &&& 0x40) ^^^ ((x <<< 7) &&& 0x200) ^^^
      ((y <<< 3) &&& 0x8) ^^^ ((y <<< 4) &&& 0x20) ^^^ ((y <<< 6) &&& 0x100) ^^^
      ((y <<< 8) &&& 0x800) ^^^ ((z <<< 2) &&& 0x4) ^^^ ((z <<< 3) &&& 0x10) ^^^
      ((z <<< 5) &&& 0x80) ^^^ ((z <<< 7) &&& 0x400)
  | .b4 =>
    ((x <<< 2) &&& 0x4) ^^^ ((x <<< 5) &&& 0x40) ^^^ ((x <<< 7) &&& 0x200) ^^^
      ((y <<< 3) &&& 0x8) ^^^ ((y <<< 4) &&& 0x20) ^^^ ((y <<< 6) &&& 0x100) ^^^
      ((y <<< 8) &&& 0x800) ^^^ ((z <<< 4) &&& 0x10) ^^^ ((z <<< 6) &&& 0x80) ^^^
      ((z <<< 8) &&& 0x400)
  | .b8 =>
    ((x <<< 3) &&& 0x8) ^^^ ((x <<< 5) &&& 0x40) ^^^ ((x <<< 7) &&& 0x200) ^^^
      ((y <<< 5) &&& 0x20) ^^^ ((y <<< 7) &&& 0x100) ^^^ ((y <<< 9) &&& 0x800) ^^^
      ((z <<< 4) &&& 0x10) ^^^ ((z <<< 6) &&& 0x80) ^^^ ((z <<< 8) &&& 0x400)
  | .b16 =>
    ((x <<< 6) &&& 0x40) ^^^ ((x <<< 8) &&& 0x200) ^^^ ((y <<< 5) &&& 0x20) ^^^
      ((y <<< 7) &&& 0x100) ^^^ ((y <<< 9) &&& 0x800) ^^^ ((z <<< 4) &&& 0x10) ^^^
      ((z <<< 6) &&& 0x80) ^^^ ((z <<< 8) &&& 0x400)

end Offsets

/-- `Bit`. -/
def bit (value : BitVec 32) (source destination : ℕ) : BitVec 32 :=
  ((value >>> source) &&& 1) <<< destination

section Offsets

variable (x y z : BitVec 32)

/-- `Gen5Standard64KBVolumeOffsetInBlock`. -/
def gen5Standard64KBVolumeOffsetInBlock (bytes : ElementSize) : BitVec 32 :=
  let bits : ℕ × ℕ × ℕ × ℕ :=
    ElementSize.select (4, 4, 4, 5) (3, 4, 4, 4) (3, 3, 4, 4) (3, 3, 3, 4) (2, 3, 3, 3) bytes
  gen5Standard4KBVolumeOffsetInBlock x y z bytes ^^^ bit x bits.1 12 ^^^ bit z bits.2.1 13 ^^^
    bit y bits.2.2.1 14 ^^^ bit x bits.2.2.2 15

/-- What `Prt64KB3D` adds. -/
def prt64KB3DDelta (bytes : ElementSize) : BitVec 32 :=
  let bits : ℕ × ℕ × ℕ × ℕ :=
    ElementSize.select (4, 5, 4, 4) (4, 4, 3, 4) (4, 4, 3, 3) (3, 4, 3, 3) (3, 3, 2, 3) bytes
  bit y bits.1 10 ^^^ bit x bits.2.1 10 ^^^ bit x bits.2.2.1 11 ^^^ bit z bits.2.2.2 11

/-- What `Prt64KB` adds. -/
def prt64KBDelta (bytes : ElementSize) : BitVec 32 :=
  let bits : ℕ × ℕ × ℕ × ℕ :=
    ElementSize.select (7, 7, 6, 6) (7, 6, 6, 5) (6, 6, 5, 5) (6, 5, 5, 4) (5, 5, 4, 4) bytes
  bit x bits.1 8 ^^^ bit y bits.2.1 9 ^^^ bit x bits.2.2.1 10 ^^^ bit y bits.2.2.2 11

/-- `Standard64KB8Tables::x_words` to `Standard64KB128Tables::x_words`. -/
def standard64KBXWords : ElementSize → BitVec 32
  | .b1 =>
    (x &&& 0x000f) ^^^ ((x <<< 5) &&& 0x0200) ^^^ ((x <<< 6) &&& 0x0800) ^^^
      ((x <<< 7) &&& 0x2000) ^^^ ((x <<< 8) &&& 0x8000)
  | .b2 =>
    (((x <<< 1) &&& 0x000e) ^^^ ((x <<< 4) &&& 0x0080) ^^^ ((x <<< 5) &&& 0x0200) ^^^
      ((x <<< 6) &&& 0x0800) ^^^ ((x <<< 7) &&& 0x2000) ^^^ ((x <<< 8) &&& 0x8000)) >>> 1
  | .b4 =>
    (((x <<< 2) &&& 0x0c) ^^^ ((x <<< 5) &&& 0x80) ^^^ ((x <<< 6) &&& 0x200) ^^^
      ((x <<< 7) &&& 0x800) ^^^ ((x <<< 8) &&& 0x2000) ^^^ ((x <<< 9) &&& 0x8000)) >>> 2
  | .b8 =>
    (((x <<< 3) &&& 0x0008) ^^^ ((x <<< 5) &&& 0x00c0) ^^^ ((x <<< 6) &&& 0x0200) ^^^
      ((x <<< 7) &&& 0x0800) ^^^ ((x <<< 8) &&& 0x2000) ^^^ ((x <<< 9) &&& 0x8000)) >>> 3
  | .b16 =>
    (((x <<< 6) &&& 0x00c0) ^^^ ((x <<< 7) &&& 0x0200) ^^^ ((x <<< 8) &&& 0x0800) ^^^
      ((x <<< 9) &&& 0x2000) ^^^ ((x <<< 10) &&& 0x8000)) >>> 4

/-- `Standard64KB8Tables::y_words` to `Standard64KB128Tables::y_words`. -/
def standard64KBYWords : ElementSize → BitVec 32
  | .b1 =>
    ((y <<< 4) &&& 0x01f0) ^^^ ((y <<< 5) &&& 0x0400) ^^^ ((y <<< 6) &&& 0x1000) ^^^
      ((y <<< 7) &&& 0x4000)
  | .b2 =>
    (((y <<< 4) &&& 0x0070) ^^^ ((y <<< 5) &&& 0x0100) ^^^ ((y <<< 6) &&& 0x0400) ^^^
      ((y <<< 7) &&& 0x1000) ^^^ ((y <<< 8) &&& 0x4000)) >>> 1
  | .b4 =>
    (((y <<< 4) &&& 0x70) ^^^ ((y <<< 5) &&& 0x100) ^^^ ((y <<< 6) &&& 0x400) ^^^
      ((y <<< 7) &&& 0x1000) ^^^ ((y <<< 8) &&& 0x4000)) >>> 2
  | .b8 =>
    (((y <<< 4) &&& 0x0030) ^^^ ((y <<< 6) &&& 0x0100) ^^^ ((y <<< 7) &&& 0x0400) ^^^
      ((y <<< 8) &&& 0x1000) ^^^ ((y <<< 9) &&& 0x4000)) >>> 3
  | .b16 =>
    (((y <<< 4) &&& 0x0030) ^^^ ((y <<< 6) &&& 0x0100) ^^^ ((y <<< 7) &&& 0x0400) ^^^
      ((y <<< 8) &&& 0x1000) ^^^ ((y <<< 9) &&& 0x4000)) >>> 4

/-- `Gen5RenderTargetOffsetInBlock`. -/
def gen5RenderTargetOffsetInBlock : ElementSize → BitVec 32
  | .b1 =>
    ((y <<< 2) &&& 0x0008) ^^^ ((y <<< 4) &&& 0x0010) ^^^ ((y <<< 3) &&& 0x00a0) ^^^
      ((y <<< 5) &&& 0x0f00) ^^^ ((y <<< 6) &&& 0x1000) ^^^ ((y <<< 7) &&& 0x4000) ^^^
      (x &&& 0x0007) ^^^ ((x <<< 3) &&& 0x0040) ^^^ ((x <<< 5) &&& 0x0300) ^^^
      ((x <<< 4) &&& 0x0400) ^^^ ((x <<< 6) &&& 0x0800) ^^^ ((x <<< 7) &&& 0x2000) ^^^
      ((x <<< 8) &&& 0x8000)
  | .b2 =>
    ((y <<< 4) &&& 0x0070) ^^^ ((y <<< 5) &&& 0x0f00) ^^^ ((y <<< 8) &&& 0x5000) ^^^
      ((x <<< 1) &&& 0x000e) ^^^ ((x <<< 4) &&& 0x0480) ^^^ ((x <<< 5) &&& 0x0300) ^^^
      ((x <<< 6) &&& 0x0800) ^^^ ((x <<< 7) &&& 0x2000) ^^^ ((x <<< 8) &&& 0x8000)
  | .b4 =>
    ((y <<< 4) &&& 0x0070) ^^^ ((y <<< 5) &&& 0x0f00) ^^^ ((y <<< 9) &&& 0x1000) ^^^
      ((y <<< 8) &&& 0x4000) ^^^ ((x <<< 2) &&& 0x000c) ^^^ ((x <<< 5) &&& 0x0380) ^^^
      ((x <<< 4) &&& 0x0400) ^^^ ((x <<< 6) &&& 0x0800) ^^^ ((x <<< 9) &&& 0xa000)
  | .b8 =>
    ((y <<< 4) &&& 0x0010) ^^^ ((y <<< 6) &&& 0x0080) ^^^ ((y <<< 5) &&& 0x0f00) ^^^
      ((y <<< 10) &&& 0x5000) ^^^ ((x <<< 3) &&& 0x0008) ^^^ ((x <<< 4) &&& 0x0460) ^^^
      ((x <<< 5) &&& 0x0300) ^^^ ((x <<< 6) &&& 0x0800) ^^^ ((x <<< 10) &&& 0x2000) ^^^
      ((x <<< 9) &&& 0x8000)
  | .b16 =>
    ((x <<< 4) &&& 0x0410) ^^^ ((x <<< 5) &&& 0x0340) ^^^ ((x <<< 6) &&& 0x0800) ^^^
      ((x <<< 11) &&& 0xa000) ^^^ ((y <<< 5) &&& 0x0f20) ^^^ ((y <<< 6) &&& 0x0080) ^^^
      ((y <<< 10) &&& 0x1000) ^^^ ((y <<< 11) &&& 0x4000)

/-- `Depth64KB8XOffsetBytes`. -/
def depth64KB8XOffsetBytes : BitVec 32 :=
  (x &&& 0x0001) ^^^ ((x <<< 1) &&& 0x0004) ^^^ ((x <<< 2) &&& 0x0010) ^^^
    ((x <<< 3) &&& 0x0040) ^^^ ((x <<< 5) &&& 0x0300) ^^^ ((x <<< 4) &&& 0x0400) ^^^
    ((x <<< 6) &&& 0x0800) ^^^ ((x <<< 7) &&& 0x2000) ^^^ ((x <<< 8) &&& 0x8000)

/-- `Depth64KB8YOffsetBytes`. -/
def depth64KB8YOffsetBytes : BitVec 32 :=
  ((y <<< 1) &&& 0x0002) ^^^ ((y <<< 2) &&& 0x0008) ^^^ ((y <<< 3) &&& 0x00a0) ^^^
    ((y <<< 5) &&& 0x0f00) ^^^ ((y <<< 6) &&& 0x1000) ^^^ ((y <<< 7) &&& 0x4000)

/-- `Depth64KB16XOffsetBytes`. -/
def depth64KB16XOffsetBytes : BitVec 32 :=
  ((x <<< 1) &&& 0x0002) ^^^ ((x <<< 2) &&& 0x0008) ^^^ ((x <<< 3) &&& 0x0020) ^^^
    ((x <<< 4) &&& 0x0480) ^^^ ((x <<< 5) &&& 0x0300) ^^^ ((x <<< 6) &&& 0x0800) ^^^
    ((x <<< 7) &&& 0x2000) ^^^ ((x <<< 8) &&& 0x8000)

/-- `Depth64KB16YOffsetBytes`. -/
def depth64KB16YOffsetBytes : BitVec 32 :=
  ((y <<< 2) &&& 0x0004) ^^^ ((y <<< 3) &&& 0x0010) ^^^ ((y <<< 4) &&& 0x0040) ^^^
    ((y <<< 5) &&& 0x0f00) ^^^ ((y <<< 8) &&& 0x5000)

/-- `Depth64KB32XOffsetBytes`. -/
def depth64KB32XOffsetBytes : BitVec 32 :=
  ((x <<< 2) &&& 0x0004) ^^^ ((x <<< 3) &&& 0x0010) ^^^ ((x <<< 4) &&& 0x0440) ^^^
    ((x <<< 5) &&& 0x0300) ^^^ ((x <<< 6) &&& 0x0800) ^^^ ((x <<< 9) &&& 0xa000)

/-- `Depth64KB32YOffsetBytes`. -/
def depth64KB32YOffsetBytes : BitVec 32 :=
  ((y <<< 3) &&& 0x0008) ^^^ ((y <<< 4) &&& 0x0020) ^^^ ((y <<< 5) &&& 0x0f80) ^^^
    ((y <<< 9) &&& 0x1000) ^^^ ((y <<< 8) &&& 0x4000)

/-- `Depth64KB64XOffsetBytes`. -/
def depth64KB64XOffsetBytes : BitVec 32 :=
  ((x <<< 3) &&& 0x0008) ^^^ ((x <<< 4) &&& 0x0420) ^^^ ((x <<< 5) &&& 0x0380) ^^^
    ((x <<< 6) &&& 0x0800) ^^^ ((x <<< 10) &&& 0x2000) ^^^ ((x <<< 9) &&& 0x8000)

/-- `Depth64KB64YOffsetBytes`. -/
def depth64KB64YOffsetBytes : BitVec 32 :=
  ((y <<< 4) &&& 0x0010) ^^^ ((y <<< 5) &&& 0x0f40) ^^^ ((y <<< 10) &&& 0x5000)

/-- The offset that `TileGetBlockOffset` computes, before it is checked. -/
def offsetInBlock (family : TileBlockFamily) (bytes : ElementSize) : Option (BitVec 32) :=
  match family with
  | .standard256B => some (gen5Standard256BOffsetInBlock x y bytes)
  | .standard4KB => some (gen5Standard4KBOffsetInBlock x y bytes)
  | .standard4KB3D => some (gen5Standard4KBVolumeOffsetInBlock x y z bytes)
  | .standard64KB3D => some (gen5Standard64KBVolumeOffsetInBlock x y z bytes)
  | .prt64KB3D =>
    some (gen5Standard64KBVolumeOffsetInBlock x y z bytes ^^^ prt64KB3DDelta x y z bytes)
  | .standard64KB =>
    some ((standard64KBXWords x bytes ^^^ standard64KBYWords y bytes) *
      BitVec.ofNat 32 bytes.bytes)
  | .prt64KB =>
    some ((standard64KBXWords x bytes ^^^ standard64KBYWords y bytes) *
      BitVec.ofNat 32 bytes.bytes ^^^ prt64KBDelta x y bytes)
  | .renderTarget64KB => some (gen5RenderTargetOffsetInBlock x y bytes)
  | .depth64KB =>
    match bytes with
    | .b1 => some (depth64KB8XOffsetBytes x ^^^ depth64KB8YOffsetBytes y)
    | .b2 => some (depth64KB16XOffsetBytes x ^^^ depth64KB16YOffsetBytes y)
    | .b4 => some (depth64KB32XOffsetBytes x ^^^ depth64KB32YOffsetBytes y)
    | .b8 => some (depth64KB64XOffsetBytes x ^^^ depth64KB64YOffsetBytes y)
    | .b16 => none
  | .count => none

end Offsets

/-- The layout is the one of its family. -/
def TileBlockLayout.Expected (layout : TileBlockLayout) : Prop :=
  tileGetBlockLayout layout.family layout.bytesPerElement.bytes = some layout

instance (layout : TileBlockLayout) : Decidable layout.Expected :=
  inferInstanceAs (Decidable (_ = _))

/-- `TileGetBlockOffset`. -/
def tileGetBlockOffset (layout : TileBlockLayout) (x y z : BitVec 32) : Option (BitVec 32) := do
  guard layout.Expected
  guard (x.toNat < layout.blockWidth ∧ y.toNat < layout.blockHeight ∧ z.toNat < layout.blockDepth)
  let offset ← offsetInBlock x y z layout.family layout.bytesPerElement
  guard (offset.toNat < layout.blockSize ∧ offset.toNat % layout.bytesPerElement.bytes = 0)
  return offset

/-- What the block in the slice `blockZ` changes its offsets by. -/
def volumeXor (blockZ : BitVec 32) : BitVec 32 :=
  ((blockZ &&& 8) <<< 5) ^^^ ((blockZ &&& 4) <<< 7) ^^^ ((blockZ &&& 2) <<< 9) ^^^
    ((blockZ &&& 1) <<< 11)

/-- `TileGetBlockXor`. -/
def tileGetBlockXor (layout : TileBlockLayout) (blockX blockY blockZ : BitVec 32) :
    Option (BitVec 32) := do
  guard layout.Expected
  let width := BitVec.ofNat 32 layout.blockWidth
  let height := BitVec.ofNat 32 layout.blockHeight
  let byteOffset ←
    if layout.family = .depth64KB ∧ layout.bytesPerElement = .b8 then do
      guard (¬ (0xffffffff / layout.blockWidth < blockX.toNat ∨
        0xffffffff / layout.blockHeight < blockY.toNat))
      some (depth64KB64XOffsetBytes (blockX * width) ^^^ depth64KB64YOffsetBytes (blockY * height))
    else if layout.family = .renderTarget64KB then do
      guard (¬ (0xffffffff / layout.blockWidth < blockX.toNat ∨
        0xffffffff / layout.blockHeight < blockY.toNat))
      some (gen5RenderTargetOffsetInBlock (blockX * width) (blockY * height)
        layout.bytesPerElement)
    else some 0
  let byteOffset :=
    if layout.family = .renderTarget64KB ∨ layout.family = .depth64KB then
      byteOffset ^^^ volumeXor blockZ
    else byteOffset
  guard (byteOffset.toNat < layout.blockSize ∧
    byteOffset.toNat % layout.bytesPerElement.bytes = 0)
  return byteOffset

end Prosperismo.Tile
