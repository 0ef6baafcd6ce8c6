import Prosperismo.Tile.Block

/-!
# The tiler shaders

The compute shaders that copy a surface between its tiled and its linear form have the offsets
of the elements written out a second time, in GLSL, for the full coordinates of an element.
The size of the elements is a specialization constant, and each family of blocks has its own
shader (`blockOffset`); `main` is shared (`tiledAddress`).
-/

namespace Prosperismo.Tile.Shader

section Offsets

variable (elementBytes : ElementSize) (x y z : BitVec 32)

/-- `standard_offset`. -/
def standardOffset : BitVec 32 :=
  match elementBytes with
  | .b1 =>
    ((y <<< 4) &&& 0x1f0) ^^^ ((y <<< 5) &&& 0x400) ^^^ (x &&& 0x00f) ^^^
      ((x <<< 5) &&& 0x200) ^^^ ((x <<< 6) &&& 0x800)
  | .b2 =>
    ((y <<< 4) &&& 0x070) ^^^ ((y <<< 5) &&& 0x100) ^^^ ((y <<< 6) &&& 0x400) ^^^
      ((x <<< 1) &&& 0x00e) ^^^ ((x <<< 4) &&& 0x080) ^^^ ((x <<< 5) &&& 0x200) ^^^
      ((x <<< 6) &&& 0x800)
  | .b4 =>
    ((y <<< 4) &&& 0x070) ^^^ ((y <<< 5) &&& 0x100) ^^^ ((y <<< 6) &&& 0x400) ^^^
      ((x <<< 2) &&& 0x00c) ^^^ ((x <<< 5) &&& 0x080) ^^^ ((x <<< 6) &&& 0x200) ^^^
      ((x <<< 7) &&& 0x800)
  | .b8 =>
    ((y <<< 4) &&& 0x030) ^^^ ((y <<< 6) &&& 0x100) ^^^ ((y <<< 7) &&& 0x400) ^^^
      ((x <<< 3) &&& 0x008) ^^^ ((x <<< 5) &&& 0x0c0) ^^^ ((x <<< 6) &&& 0x200) ^^^
      ((x <<< 7) &&& 0x800)
  | .b16 =>
    ((y <<< 4) &&& 0x030) ^^^ ((y <<< 6) &&& 0x100) ^^^ ((y <<< 7) &&& 0x400) ^^^
      ((x <<< 6) &&& 0x0c0) ^^^ ((x <<< 7) &&& 0x200) ^^^ ((x <<< 8) &&& 0x800)

/-- `standard3d_offset`. -/
def standard3dOffset : BitVec 32 :=
  let zPart := ((z <<< 4) &&& 0x10) ^^^ ((z <<< 6) &&& 0x80) ^^^ ((z <<< 8) &&& 0x400)
  let yPart := ((y <<< 5) &&& 0x20) ^^^ ((y <<< 7) &&& 0x100) ^^^ ((y <<< 9) &&& 0x800)
  match elementBytes with
  | .b1 =>
    (x &&& 3) ^^^ ((x <<< 4) &&& 0x40) ^^^ ((x <<< 6) &&& 0x200) ^^^ ((y <<< 3) &&& 8) ^^^
      ((y <<< 4) &&& 0x20) ^^^ ((y <<< 6) &&& 0x100) ^^^ ((y <<< 8) &&& 0x800) ^^^
      ((z <<< 2) &&& 4) ^^^ ((z <<< 3) &&& 0x10) ^^^ ((z <<< 5) &&& 0x80) ^^^
      ((z <<< 7) &&& 0x400)
  | .b2 =>
    ((x <<< 1) &&& 2) ^^^ ((x <<< 5) &&& 0x40) ^^^ ((x <<< 7) &&& 0x200) ^^^
      ((y <<< 3) &&& 8) ^^^ ((y <<< 4) &&& 0x20) ^^^ ((y <<< 6) &&& 0x100) ^^^
      ((y <<< 8) &&& 0x800) ^^^ ((z <<< 2) &&& 4) ^^^ ((z <<< 3) &&& 0x10) ^^^
      ((z <<< 5) &&& 0x80) ^^^ ((z <<< 7) &&& 0x400)
  | .b4 =>
    ((x <<< 2) &&& 4) ^^^ ((x <<< 5) &&& 0x40) ^^^ ((x <<< 7) &&& 0x200) ^^^
      ((y <<< 3) &&& 8) ^^^ ((y <<< 4) &&& 0x20) ^^^ ((y <<< 6) &&& 0x100) ^^^
      ((y <<< 8) &&& 0x800) ^^^ zPart
  | .b8 =>
    ((x <<< 3) &&& 8) ^^^ ((x <<< 5) &&& 0x40) ^^^ ((x <<< 7) &&& 0x200) ^^^ yPart ^^^ zPart
  | .b16 => ((x <<< 6) &&& 0x40) ^^^ ((x <<< 8) &&& 0x200) ^^^ yPart ^^^ zPart

/-- `standard64_offset`. -/
def standard64Offset : BitVec 32 :=
  match elementBytes with
  | .b1 =>
    (x &&& 0x0f) ^^^ ((x <<< 5) &&& 0x200) ^^^ ((x <<< 6) &&& 0x800) ^^^
      ((x <<< 7) &&& 0x2000) ^^^ ((x <<< 8) &&& 0x8000) ^^^ ((y <<< 4) &&& 0x1f0) ^^^
      ((y <<< 5) &&& 0x400) ^^^ ((y <<< 6) &&& 0x1000) ^^^ ((y <<< 7) &&& 0x4000)
  | .b2 =>
    ((x <<< 1) &&& 0x00e) ^^^ ((x <<< 4) &&& 0x080) ^^^ ((x <<< 5) &&& 0x200) ^^^
      ((x <<< 6) &&& 0x800) ^^^ ((x <<< 7) &&& 0x2000) ^^^ ((x <<< 8) &&& 0x8000) ^^^
      ((y <<< 4) &&& 0x070) ^^^ ((y <<< 5) &&& 0x100) ^^^ ((y <<< 6) &&& 0x400) ^^^
      ((y <<< 7) &&& 0x1000) ^^^ ((y <<< 8) &&& 0x4000)
  | .b4 =>
    ((x <<< 2) &&& 0x00c) ^^^ ((x <<< 5) &&& 0x080) ^^^ ((x <<< 6) &&& 0x200) ^^^
      ((x <<< 7) &&& 0x800) ^^^ ((x <<< 8) &&& 0x2000) ^^^ ((x <<< 9) &&& 0x8000) ^^^
      ((y <<< 4) &&& 0x070) ^^^ ((y <<< 5) &&& 0x100) ^^^ ((y <<< 6) &&& 0x400) ^^^
      ((y <<< 7) &&& 0x1000) ^^^ ((y <<< 8) &&& 0x4000)
  | .b8 =>
    ((x <<< 3) &&& 0x008) ^^^ ((x <<< 5) &&& 0x0c0) ^^^ ((x <<< 6) &&& 0x200) ^^^
      ((x <<< 7) &&& 0x800) ^^^ ((x <<< 8) &&& 0x2000) ^^^ ((x <<< 9) &&& 0x8000) ^^^
      ((y <<< 4) &&& 0x030) ^^^ ((y <<< 6) &&& 0x100) ^^^ ((y <<< 7) &&& 0x400) ^^^
      ((y <<< 8) &&& 0x1000) ^^^ ((y <<< 9) &&& 0x4000)
  | .b16 =>
    ((x <<< 6) &&& 0x0c0) ^^^ ((x <<< 7) &&& 0x200) ^^^ ((x <<< 8) &&& 0x800) ^^^
      ((x <<< 9) &&& 0x2000) ^^^ ((x <<< 10) &&& 0x8000) ^^^ ((y <<< 4) &&& 0x030) ^^^
      ((y <<< 6) &&& 0x100) ^^^ ((y <<< 7) &&& 0x400) ^^^ ((y <<< 8) &&& 0x1000) ^^^
      ((y <<< 9) &&& 0x4000)

/-- `standard64_3d_offset`. -/
def standard643dOffset : BitVec 32 :=
  let s : ℕ × ℕ × ℕ × ℕ :=
    ElementSize.select (4, 4, 4, 5) (3, 4, 4, 4) (3, 3, 4, 4) (3, 3, 3, 4) (2, 3, 3, 3)
      elementBytes
  standard3dOffset elementBytes x y z ^^^ (((x >>> s.1) &&& 1) <<< 12) ^^^
    (((z >>> s.2.1) &&& 1) <<< 13) ^^^ (((y >>> s.2.2.1) &&& 1) <<< 14) ^^^
    (((x >>> s.2.2.2) &&& 1) <<< 15)

/-- `block_offset` of `gpu_tiler_prt.comp`. -/
def prtBlockOffset : BitVec 32 :=
  let s : ℕ × ℕ × ℕ × ℕ :=
    ElementSize.select (7, 7, 6, 6) (7, 6, 6, 5) (6, 6, 5, 5) (6, 5, 5, 4) (5, 5, 4, 4)
      elementBytes
  standard64Offset elementBytes x y ^^^ ((((x >>> s.1) &&& 1) <<< 8) ^^^
    (((y >>> s.2.1) &&& 1) <<< 9) ^^^ (((x >>> s.2.2.1) &&& 1) <<< 10) ^^^
    (((y >>> s.2.2.2) &&& 1) <<< 11))

/-- `block_offset` of `gpu_tiler_prt_3d.comp`. -/
def prt3dBlockOffset : BitVec 32 :=
  let s : ℕ × ℕ × ℕ × ℕ :=
    ElementSize.select (4, 5, 4, 4) (4, 4, 3, 4) (4, 4, 3, 3) (3, 4, 3, 3) (3, 3, 2, 3)
      elementBytes
  standard643dOffset elementBytes x y z ^^^ ((((y >>> s.1) &&& 1) <<< 10) ^^^
    (((x >>> s.2.1) &&& 1) <<< 10) ^^^ (((x >>> s.2.2.1) &&& 1) <<< 11) ^^^
    (((z >>> s.2.2.2) &&& 1) <<< 11))

/-- `rt_offset`. -/
def rtOffset : BitVec 32 :=
  match elementBytes with
  | .b1 =>
    ((y <<< 2) &&& 0x008) ^^^ ((y <<< 4) &&& 0x010) ^^^ ((y <<< 3) &&& 0x0a0) ^^^
      ((y <<< 5) &&& 0xf00) ^^^ ((y <<< 6) &&& 0x1000) ^^^ ((y <<< 7) &&& 0x4000) ^^^
      (x &&& 7) ^^^ ((x <<< 3) &&& 0x040) ^^^ ((x <<< 5) &&& 0x300) ^^^
      ((x <<< 4) &&& 0x400) ^^^ ((x <<< 6) &&& 0x800) ^^^ ((x <<< 7) &&& 0x2000) ^^^
      ((x <<< 8) &&& 0x8000)
  | .b2 =>
    ((y <<< 4) &&& 0x070) ^^^ ((y <<< 5) &&& 0xf00) ^^^ ((y <<< 8) &&& 0x5000) ^^^
      ((x <<< 1) &&& 0x00e) ^^^ ((x <<< 4) &&& 0x480) ^^^ ((x <<< 5) &&& 0x300) ^^^
      ((x <<< 6) &&& 0x800) ^^^ ((x <<< 7) &&& 0x2000) ^^^ ((x <<< 8) &&& 0x8000)
  | .b4 =>
    ((y <<< 4) &&& 0x070) ^^^ ((y <<< 5) &&& 0xf00) ^^^ ((y <<< 9) &&& 0x1000) ^^^
      ((y <<< 8) &&& 0x4000) ^^^ ((x <<< 2) &&& 0x00c) ^^^ ((x <<< 5) &&& 0x380) ^^^
      ((x <<< 4) &&& 0x400) ^^^ ((x <<< 6) &&& 0x800) ^^^ ((x <<< 9) &&& 0xa000)
  | .b8 =>
    ((y <<< 4) &&& 0x010) ^^^ ((y <<< 6) &&& 0x080) ^^^ ((y <<< 5) &&& 0xf00) ^^^
      ((y <<< 10) &&& 0x5000) ^^^ ((x <<< 3) &&& 0x008) ^^^ ((x <<< 4) &&& 0x460) ^^^
      ((x <<< 5) &&& 0x300) ^^^ ((x <<< 6) &&& 0x800) ^^^ ((x <<< 10) &&& 0x2000) ^^^
      ((x <<< 9) &&& 0x8000)
  | .b16 =>
    ((x <<< 4) &&& 0x410) ^^^ ((x <<< 5) &&& 0x340) ^^^ ((x <<< 6) &&& 0x800) ^^^
      ((x <<< 11) &&& 0xa000) ^^^ ((y <<< 5) &&& 0xf20) ^^^ ((y <<< 6) &&& 0x080) ^^^
      ((y <<< 10) &&& 0x1000) ^^^ ((y <<< 11) &&& 0x4000)

/-- `volume_z`. -/
def volumeZ : BitVec 32 :=
  ((z &&& 8) <<< 5) ^^^ ((z &&& 4) <<< 7) ^^^ ((z &&& 2) <<< 9) ^^^ ((z &&& 1) <<< 11)

/-- `block_offset` of `gpu_tiler_depth.comp`; the last case is the `default` one. -/
def depthBlockOffset : BitVec 32 :=
  let z := ((z &&& 8) <<< 5) ^^^ ((z &&& 4) <<< 7) ^^^ ((z &&& 2) <<< 9) ^^^ ((z &&& 1) <<< 11)
  match elementBytes with
  | .b1 =>
    z ^^^ (x &&& 1) ^^^ ((x <<< 1) &&& 0x004) ^^^ ((x <<< 2) &&& 0x010) ^^^
      ((x <<< 3) &&& 0x040) ^^^ ((x <<< 5) &&& 0x300) ^^^ ((x <<< 4) &&& 0x400) ^^^
      ((x <<< 6) &&& 0x800) ^^^ ((x <<< 7) &&& 0x2000) ^^^ ((x <<< 8) &&& 0x8000) ^^^
      ((y <<< 1) &&& 0x002) ^^^ ((y <<< 2) &&& 0x008) ^^^ ((y <<< 3) &&& 0x0a0) ^^^
      ((y <<< 5) &&& 0xf00) ^^^ ((y <<< 6) &&& 0x1000) ^^^ ((y <<< 7) &&& 0x4000)
  | .b2 =>
    z ^^^ ((x <<< 1) &&& 0x002) ^^^ ((x <<< 2) &&& 0x008) ^^^ ((x <<< 3) &&& 0x020) ^^^
      ((x <<< 4) &&& 0x480) ^^^ ((x <<< 5) &&& 0x300) ^^^ ((x <<< 6) &&& 0x800) ^^^
      ((x <<< 7) &&& 0x2000) ^^^ ((x <<< 8) &&& 0x8000) ^^^ ((y <<< 2) &&& 0x004) ^^^
      ((y <<< 3) &&& 0x010) ^^^ ((y <<< 4) &&& 0x040) ^^^ ((y <<< 5) &&& 0xf00) ^^^
      ((y <<< 8) &&& 0x5000)
  | .b4 =>
    z ^^^ ((x <<< 2) &&& 0x004) ^^^ ((x <<< 3) &&& 0x010) ^^^ ((x <<< 4) &&& 0x440) ^^^
      ((x <<< 5) &&& 0x300) ^^^ ((x <<< 6) &&& 0x800) ^^^ ((x <<< 9) &&& 0xa000) ^^^
      ((y <<< 3) &&& 0x008) ^^^ ((y <<< 4) &&& 0x020) ^^^ ((y <<< 5) &&& 0xf80) ^^^
      ((y <<< 9) &&& 0x1000) ^^^ ((y <<< 8) &&& 0x4000)
  | .b8 | .b16 =>
    z ^^^ ((x <<< 3) &&& 0x008) ^^^ ((x <<< 4) &&& 0x420) ^^^ ((x <<< 5) &&& 0x380) ^^^
      ((x <<< 6) &&& 0x800) ^^^ ((x <<< 10) &&& 0x2000) ^^^ ((x <<< 9) &&& 0x8000) ^^^
      ((y <<< 4) &&& 0x010) ^^^ ((y <<< 5) &&& 0xf40) ^^^ ((y <<< 10) &&& 0x5000)

/-- `block_offset` of the shader of a family. -/
def blockOffset (family : TileBlockFamily) : BitVec 32 :=
  match family with
  | .standard256B => standardOffset elementBytes x y &&& 0xff
  | .standard4KB => standardOffset elementBytes x y
  | .standard4KB3D => standard3dOffset elementBytes x y z
  | .standard64KB => standard64Offset elementBytes x y
  | .standard64KB3D => standard643dOffset elementBytes x y z
  | .prt64KB => prtBlockOffset elementBytes x y
  | .prt64KB3D => prt3dBlockOffset elementBytes x y z
  | .renderTarget64KB => rtOffset elementBytes x y ^^^ volumeZ z
  | .depth64KB => depthBlockOffset elementBytes x y z
  -- there is no shader
  | .count => 0

end Offsets

/-- `BLOCK_BYTES`. -/
def blockBytes : TileBlockFamily → BitVec 32
  | .standard256B => 256
  | .standard4KB | .standard4KB3D => 4096
  | _ => 65536

/-- An extent whose height follows from the bytes of the block. -/
def flatExtent (family : TileBlockFamily) (elementBytes : ElementSize) (width : BitVec 32) :
    BitVec 32 × BitVec 32 × BitVec 32 :=
  (width, blockBytes family / (width * BitVec.ofNat 32 elementBytes.bytes), 1)

/-- `block_extent` of the shader of a family. -/
def blockExtent (family : TileBlockFamily) (elementBytes : ElementSize) :
    BitVec 32 × BitVec 32 × BitVec 32 :=
  let bytes := elementBytes.bytes
  match family with
  | .standard256B =>
    flatExtent family elementBytes (if bytes ≤ 2 then 16 else if bytes ≤ 8 then 8 else 4)
  | .standard4KB =>
    flatExtent family elementBytes (if bytes ≤ 2 then 64 else if bytes ≤ 8 then 32 else 16)
  | .standard4KB3D =>
    ElementSize.select (16, 16, 16) (8, 16, 16) (8, 16, 8) (8, 8, 8) (4, 8, 8) elementBytes
  | .standard64KB3D | .prt64KB3D =>
    ElementSize.select (64, 32, 32) (32, 32, 32) (32, 32, 16) (32, 16, 16) (16, 16, 16)
      elementBytes
  | .depth64KB => flatExtent family elementBytes (if bytes ≤ 2 then 256 else 128)
  | .standard64KB | .prt64KB | .renderTarget64KB | .count =>
    flatExtent family elementBytes (if bytes ≤ 2 then 256 else if bytes ≤ 8 then 128 else 64)

/-- The parameters of `main` that place an element in the tiled surface. -/
structure Params where
  surfaceZ : BitVec 32
  blocksPerRow : BitVec 32
  blocksPerSlice : BitVec 32
  tailX : BitVec 32
  tailY : BitVec 32
  tail : Bool

/-- `tiled` of `main`, for the invocation of the element `(x, y, z)`. -/
def tiledAddress (family : TileBlockFamily) (elementBytes : ElementSize) (params : Params)
    (x y z : BitVec 32) : BitVec 32 :=
  let extent := blockExtent family elementBytes
  let swizzleX := if params.tail then x + params.tailX else x
  let swizzleY := if params.tail then y + params.tailY else y
  let block : BitVec 32 × BitVec 32 × BitVec 32 :=
    if params.tail then (0, 0, 0) else (x / extent.1, y / extent.2.1, z / extent.2.2)
  let blockIndex :=
    block.2.2 * params.blocksPerSlice + block.2.1 * params.blocksPerRow + block.1
  blockIndex * blockBytes family +
    blockOffset elementBytes swizzleX swizzleY (z + params.surfaceZ) family

end Prosperismo.Tile.Shader
