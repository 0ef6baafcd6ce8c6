import Mathlib.Data.Fintype.Card
import Mathlib.Data.Fintype.Prod
import Prosperismo.Base.Stores
import Prosperismo.Tile.Swizzle

/-!
# Addresses in a tiled surface

A surface is an array of blocks (`Surface`), and the address of an element is the place of its
block and the swizzled offset in it (`Surface.elementAddress`). Offsets within one block are a
**bijection** between the elements of the block and the aligned offsets
(`exists_element_of_offset`), because the columns of the family are independent and there are
as many of both; so addresses are one between the elements of the surface and its bytes, and
the copies of a surface to its linear form and back restore it.
-/

namespace Prosperismo.Tile

/-! ### Coordinates -/

section Coordinates

variable {bits : ℕ} (hbits : bits ≤ 8) (v : BitVec 32)
include hbits

theorem toNat_ofNat_two_pow : (BitVec.ofNat 32 (2 ^ bits)).toNat = 2 ^ bits := by
  rw [BitVec.toNat_ofNat, Nat.mod_eq_of_lt]
  exact Nat.pow_lt_pow_right (by decide) (by omega)

theorem umod_eq_inBlock : v % BitVec.ofNat 32 (2 ^ bits) = inBlock bits v := by
  apply BitVec.eq_of_toNat_eq
  rw [BitVec.toNat_umod, toNat_ofNat_two_pow hbits, inBlock, BitVec.toNat_ushiftRight,
    BitVec.toNat_shiftLeft, Nat.shiftLeft_eq, Nat.shiftRight_eq_div_pow]
  have hword : 2 ^ 32 = 2 ^ bits * 2 ^ (32 - bits) := by
    rw [← Nat.pow_add]
    congr 1
    omega
  rw [hword, Nat.mul_mod_mul_right, Nat.mul_div_cancel _ (Nat.two_pow_pos _)]

theorem toNat_inBlock : (inBlock bits v).toNat = v.toNat % 2 ^ bits := by
  rw [← umod_eq_inBlock hbits, BitVec.toNat_umod, toNat_ofNat_two_pow hbits]

theorem toNat_udiv_two_pow : (v / BitVec.ofNat 32 (2 ^ bits)).toNat = v.toNat / 2 ^ bits := by
  rw [BitVec.toNat_udiv, toNat_ofNat_two_pow hbits]

theorem toNat_ofBlock : (ofBlock bits v).toNat = v.toNat / 2 ^ bits * 2 ^ bits := by
  rw [ofBlock, BitVec.toNat_shiftLeft, BitVec.toNat_ushiftRight, Nat.shiftLeft_eq,
    Nat.shiftRight_eq_div_pow, Nat.mod_eq_of_lt]
  exact (Nat.div_mul_le_self _ _).trans_lt v.isLt

theorem udiv_mul_eq_ofBlock :
    v / BitVec.ofNat 32 (2 ^ bits) * BitVec.ofNat 32 (2 ^ bits) = ofBlock bits v := by
  apply BitVec.eq_of_toNat_eq
  rw [BitVec.toNat_mul, toNat_udiv_two_pow hbits, toNat_ofNat_two_pow hbits,
    toNat_ofBlock hbits, Nat.mod_eq_of_lt]
  exact (Nat.div_mul_le_self _ _).trans_lt v.isLt

/-- A coordinate in its block has no high bits. -/
theorem inBlock_high : ∀ i, bits ≤ i → (inBlock bits v).getLsbD i = false := by
  intro i hi
  have hlt : (inBlock bits v).toNat < 2 ^ bits := by
    rw [toNat_inBlock hbits]
    exact Nat.mod_lt _ (Nat.two_pow_pos _)
  exact Nat.testBit_lt_two_pow (hlt.trans_le (Nat.pow_le_pow_right (by decide) hi))

/-- A coordinate is given by its block and its place there. -/
theorem coordinate_ext {v v' : BitVec 32} (hblock : v.toNat / 2 ^ bits = v'.toNat / 2 ^ bits)
    (hplace : inBlock bits v = inBlock bits v') : v = v' := by
  apply BitVec.eq_of_toNat_eq
  have hmod := congrArg BitVec.toNat hplace
  rw [toNat_inBlock hbits, toNat_inBlock hbits] at hmod
  rw [← Nat.div_add_mod v.toNat (2 ^ bits), ← Nat.div_add_mod v'.toNat (2 ^ bits), hblock, hmod]

end Coordinates

/-! ### Offsets -/

theorem guard_eq_some {p : Prop} [Decidable p] (h : p) : (guard p : Option Unit) = some () :=
  if_pos h

namespace TileBlockLayout

variable {layout : TileBlockLayout}

/-- An accepted family has an offset. -/
theorem offsetInBlock_eq (h : layout.Expected) (x y z : BitVec 32) :
    offsetInBlock x y z layout.family layout.bytesPerElement =
      some (localOffset layout x y z) := by
  obtain ⟨family, bytes, size, width, height, depth⟩ := layout
  cases family
  case count => cases bytes <;> cases h
  case depth64KB =>
    cases bytes
    case b16 => cases h
    all_goals rfl
  all_goals rfl

/-- **The offset of an element in its block.** -/
theorem tileGetBlockOffset_eq (h : layout.Expected) {x y z : BitVec 32}
    (hx : x.toNat < layout.blockWidth) (hy : y.toNat < layout.blockHeight)
    (hz : z.toNat < layout.blockDepth) :
    tileGetBlockOffset layout x y z = some (localOffset layout x y z) := by
  obtain ⟨hwidth, hheight, hdepth⟩ := layouts_extent layout (mem_layouts h)
  have hhigh : ∀ {v : BitVec 32} {bits : ℕ}, v.toNat < 2 ^ bits →
      ∀ i, bits ≤ i → v.getLsbD i = false := fun hv i hi =>
    Nat.testBit_lt_two_pow (hv.trans_le (Nat.pow_le_pow_right (by decide) hi))
  have haligned := (localOffset_aligned h (hhigh (hwidth ▸ hx)) (hhigh (hheight ▸ hy))
    (hhigh (hdepth ▸ hz))).bounds h
  simp [tileGetBlockOffset, h, hx, hy, hz, offsetInBlock_eq h, haligned, guard]

/-- The slice of a block is the coordinate where it matters: the families whose offsets it
changes have thin blocks. -/
theorem blockXor_slice (h : layout.Expected) (x y z : BitVec 32) :
    blockXor layout x y (z / BitVec.ofNat 32 layout.blockDepth) =
      blockXor layout x y (ofBlock layout.depthBits z) := by
  have hthin : layout.family = .renderTarget64KB ∨ layout.family = .depth64KB →
      layout.blockDepth = 1 := by
    revert h layout
    suffices hall : ∀ layout ∈ layouts, layout.family = .renderTarget64KB ∨
        layout.family = .depth64KB → layout.blockDepth = 1 from
      fun {layout} h => hall layout (mem_layouts h)
    decide +kernel
  by_cases hfamily : layout.family = .renderTarget64KB ∨ layout.family = .depth64KB
  · have hdepth := hthin hfamily
    have hbits : layout.depthBits = 0 := by
      rw [depthBits, hdepth]
      rfl
    have hone : z / BitVec.ofNat 32 layout.blockDepth = z := by
      rw [hdepth]
      exact BitVec.udiv_one
    rw [hone, hbits]
    simp [ofBlock]
  · unfold blockXor
    split
    · exact absurd (.inl ‹_›) hfamily
    · exact absurd (.inr ‹_›) hfamily
    · rfl

/-- **What a block changes its offsets by**, at the coordinates of its first element. -/
theorem tileGetBlockXor_eq (h : layout.Expected) (x y z : BitVec 32) :
    tileGetBlockXor layout (x / BitVec.ofNat 32 layout.blockWidth)
        (y / BitVec.ofNat 32 layout.blockHeight) (z / BitVec.ofNat 32 layout.blockDepth) =
      some (blockXor layout (ofBlock layout.widthBits x) (ofBlock layout.heightBits y)
        (ofBlock layout.depthBits z)) := by
  obtain ⟨hwidth, hheight, -⟩ := layouts_extent layout (mem_layouts h)
  obtain ⟨-, -, hw, hh, -, -, -, -⟩ := layouts_size layout (mem_layouts h)
  -- the coordinates of a block never overflow
  have hfits : ∀ {v : BitVec 32} {bits : ℕ}, bits ≤ 8 →
      ¬ 0xffffffff / 2 ^ bits < (v / BitVec.ofNat 32 (2 ^ bits)).toNat := by
    intro v bits hbits
    rw [toNat_udiv_two_pow hbits, Nat.not_lt]
    exact Nat.div_le_div_right (Nat.le_of_lt_succ v.isLt)
  have haligned := (blockXor_aligned h (ofBlock layout.widthBits x)
    (ofBlock layout.heightBits y) (z / BitVec.ofNat 32 layout.blockDepth)).bounds h
  rw [← blockXor_slice h]
  rw [← udiv_mul_eq_ofBlock hw x, ← udiv_mul_eq_ofBlock hh y, ← hwidth, ← hheight] at haligned ⊢
  have hbound : ¬ (0xffffffff / layout.blockWidth <
      (x / BitVec.ofNat 32 layout.blockWidth).toNat ∨ 0xffffffff / layout.blockHeight <
      (y / BitVec.ofNat 32 layout.blockHeight).toNat) := by
    rw [hwidth, hheight]
    exact not_or.2 ⟨hfits hw, hfits hh⟩
  unfold tileGetBlockXor
  rw [guard_eq_some h]
  -- one case for each of the three ways the offsets are changed
  by_cases hrt : layout.family = .renderTarget64KB
  · simp only [blockXor, hrt] at haligned ⊢
    simp only [guard_eq_some hbound, guard_eq_some haligned, Option.bind_eq_bind,
      Option.bind_some, reduceCtorEq, false_and, if_false, if_true, true_or]
    rfl
  · by_cases hdepth : layout.family = .depth64KB
    · by_cases hbytes : layout.bytesPerElement = .b8
      · simp only [blockXor, hdepth, hbytes] at haligned ⊢
        simp only [guard_eq_some hbound, guard_eq_some haligned, Option.bind_eq_bind,
          Option.bind_some, and_self, if_true, or_true]
        rfl
      · have hxor : ∀ a b c, blockXor layout a b c = volumeXor c := by
          intro a b c
          unfold blockXor
          rw [hdepth]
          cases hsize : layout.bytesPerElement <;> first | rfl | exact absurd hsize hbytes
        rw [hxor] at haligned ⊢
        simp only [hdepth, hbytes, and_false, if_false, reduceCtorEq, or_true, if_true,
          Option.bind_eq_bind, Option.bind_some]
        rw [show (0 : BitVec 32) ^^^ volumeXor (z / BitVec.ofNat 32 layout.blockDepth) = _ from
          BitVec.zero_xor, guard_eq_some haligned]
        rfl
    · have hxor : ∀ a b c, blockXor layout a b c = 0 := by
        intro a b c
        unfold blockXor
        split
        · exact absurd ‹_› hrt
        · exact absurd ‹_› hdepth
        · rfl
      rw [hxor] at haligned ⊢
      simp only [hrt, hdepth, false_and, if_false, or_self, Option.bind_eq_bind,
        Option.bind_some, guard_eq_some haligned]
      rfl

end TileBlockLayout

/-! ### Surfaces -/

/-- A surface of whole blocks whose coordinates are words. -/
structure Surface where
  layout : TileBlockLayout
  expected : layout.Expected
  columns : ℕ
  rows : ℕ
  slices : ℕ
  columns_le : columns * layout.blockWidth ≤ 0x100000000
  rows_le : rows * layout.blockHeight ≤ 0x100000000
  slices_le : slices * layout.blockDepth ≤ 0x100000000

namespace Surface

variable (s : Surface)

/-- The number of bytes of the surface. -/
def size : ℕ := s.columns * s.rows * s.slices * s.layout.blockSize

/-- The coordinates of an element of the surface. -/
@[ext]
structure Element where
  x : BitVec 32
  y : BitVec 32
  z : BitVec 32
  x_lt : x.toNat < s.columns * s.layout.blockWidth
  y_lt : y.toNat < s.rows * s.layout.blockHeight
  z_lt : z.toNat < s.slices * s.layout.blockDepth

variable {s}

/-- The place of the element's block in the surface. -/
def blockIndex (e : s.Element) : ℕ :=
  e.z.toNat / s.layout.blockDepth * (s.columns * s.rows) +
    e.y.toNat / s.layout.blockHeight * s.columns + e.x.toNat / s.layout.blockWidth

/-- The address of an element: its block, and its offset there with the block's exclusive or. -/
def elementAddress (e : s.Element) : Option ℕ := do
  let width := BitVec.ofNat 32 s.layout.blockWidth
  let height := BitVec.ofNat 32 s.layout.blockHeight
  let depth := BitVec.ofNat 32 s.layout.blockDepth
  let offset ← tileGetBlockOffset s.layout (e.x % width) (e.y % height) (e.z % depth)
  let xor ← tileGetBlockXor s.layout (e.x / width) (e.y / height) (e.z / depth)
  return blockIndex e * s.layout.blockSize + (offset ^^^ xor).toNat

/-- The offset of an element in its block. -/
def offset (e : s.Element) : ℕ := (swizzle s.layout e.x e.y e.z).toNat

/-- **The address of an element** is its block's and the formula of the shader. -/
theorem elementAddress_eq (e : s.Element) :
    elementAddress e = some (blockIndex e * s.layout.blockSize + offset e) := by
  obtain ⟨hwidth, hheight, hdepth⟩ := layouts_extent s.layout (mem_layouts s.expected)
  obtain ⟨-, -, hw, hh, hd, -, -, -⟩ := layouts_size s.layout (mem_layouts s.expected)
  have hin : ∀ {v : BitVec 32} {bits : ℕ}, bits ≤ 8 → (inBlock bits v).toNat < 2 ^ bits := by
    intro v bits hbits
    rw [toNat_inBlock hbits]
    exact Nat.mod_lt _ (Nat.two_pow_pos _)
  have hoffset : tileGetBlockOffset s.layout (e.x % BitVec.ofNat 32 s.layout.blockWidth)
      (e.y % BitVec.ofNat 32 s.layout.blockHeight) (e.z % BitVec.ofNat 32 s.layout.blockDepth) =
      some (localOffset s.layout (inBlock s.layout.widthBits e.x)
        (inBlock s.layout.heightBits e.y) (inBlock s.layout.depthBits e.z)) := by
    rw [hwidth, hheight, hdepth, umod_eq_inBlock hw, umod_eq_inBlock hh, umod_eq_inBlock hd]
    exact TileBlockLayout.tileGetBlockOffset_eq s.expected (hwidth ▸ hin hw) (hheight ▸ hin hh)
      (hdepth ▸ hin hd)
  show (tileGetBlockOffset s.layout _ _ _ >>= fun _ => tileGetBlockXor s.layout _ _ _ >>= _) = _
  rw [hoffset, TileBlockLayout.tileGetBlockXor_eq s.expected]
  show some _ = some _
  rw [offset, TileBlockLayout.swizzle_eq s.expected]

/-- The formula gives offsets of elements. -/
theorem swizzle_aligned (e : s.Element) : s.layout.Aligned (swizzle s.layout e.x e.y e.z) := by
  obtain ⟨-, -, hw, hh, hd, -, -, -⟩ := layouts_size s.layout (mem_layouts s.expected)
  rw [TileBlockLayout.swizzle_eq s.expected]
  exact (TileBlockLayout.localOffset_aligned s.expected (inBlock_high hw _) (inBlock_high hh _)
    (inBlock_high hd _)).xor (TileBlockLayout.blockXor_aligned s.expected _ _ _)

theorem offset_bounds (e : s.Element) :
    offset e < s.layout.blockSize ∧ offset e % s.layout.bytesPerElement.bytes = 0 :=
  (swizzle_aligned e).bounds s.expected

/-- Elements of one block with one offset are one element. -/
theorem element_ext {e e' : s.Element}
    (hx : e.x.toNat / s.layout.blockWidth = e'.x.toNat / s.layout.blockWidth)
    (hy : e.y.toNat / s.layout.blockHeight = e'.y.toNat / s.layout.blockHeight)
    (hz : e.z.toNat / s.layout.blockDepth = e'.z.toNat / s.layout.blockDepth)
    (hoffset : offset e = offset e') : e = e' := by
  obtain ⟨hwidth, hheight, hdepth⟩ := layouts_extent s.layout (mem_layouts s.expected)
  obtain ⟨-, -, hw, hh, hd, -, -, -⟩ := layouts_size s.layout (mem_layouts s.expected)
  have hblock : ∀ {v v' : BitVec 32} {bits : ℕ}, bits ≤ 8 →
      v.toNat / 2 ^ bits = v'.toNat / 2 ^ bits → ofBlock bits v = ofBlock bits v' := by
    intro v v' bits hbits h
    apply BitVec.eq_of_toNat_eq
    rw [toNat_ofBlock hbits, toNat_ofBlock hbits, h]
  rw [hwidth] at hx
  rw [hheight] at hy
  rw [hdepth] at hz
  -- the block's exclusive or is the same, and what remains has independent columns
  have hswizzle : swizzle s.layout e.x e.y e.z = swizzle s.layout e'.x e'.y e'.z :=
    BitVec.eq_of_toNat_eq hoffset
  rw [TileBlockLayout.swizzle_eq s.expected, TileBlockLayout.swizzle_eq s.expected,
    hblock hw hx, hblock hh hy, hblock hd hz, BitVec.xor_left_inj] at hswizzle
  obtain ⟨hx', hy', hz'⟩ := (localOffset_linear s.layout).injective
    (layouts_independent s.layout (mem_layouts s.expected)) (inBlock_high hw _)
    (inBlock_high hw _) (inBlock_high hh _) (inBlock_high hh _) (inBlock_high hd _)
    (inBlock_high hd _) hswizzle
  exact Element.ext (coordinate_ext hw hx hx') (coordinate_ext hh hy hy')
    (coordinate_ext hd hz hz')

/-- The coordinates of the block of an element, from the place of the block. -/
theorem blockIndex_coordinates (e : s.Element) :
    e.x.toNat / s.layout.blockWidth = blockIndex e % s.columns ∧
      e.y.toNat / s.layout.blockHeight = blockIndex e / s.columns % s.rows ∧
      e.z.toNat / s.layout.blockDepth = blockIndex e / s.columns / s.rows := by
  have hx : e.x.toNat / s.layout.blockWidth < s.columns :=
    Nat.div_lt_of_lt_mul (Nat.mul_comm _ _ ▸ e.x_lt)
  have hy : e.y.toNat / s.layout.blockHeight < s.rows :=
    Nat.div_lt_of_lt_mul (Nat.mul_comm _ _ ▸ e.y_lt)
  have hrow : blockIndex e = (e.z.toNat / s.layout.blockDepth * s.rows +
      e.y.toNat / s.layout.blockHeight) * s.columns + e.x.toNat / s.layout.blockWidth := by
    show _ * (s.columns * s.rows) + _ * s.columns + _ = _
    rw [Nat.mul_comm s.columns, ← Nat.mul_assoc, ← Nat.add_mul]
  have hdiv : blockIndex e / s.columns = e.z.toNat / s.layout.blockDepth * s.rows +
      e.y.toNat / s.layout.blockHeight := by
    rw [hrow, Nat.add_comm, Nat.add_mul_div_right _ _ (Nat.zero_lt_of_lt hx),
      Nat.div_eq_of_lt hx, Nat.zero_add]
  refine ⟨?_, ?_, ?_⟩
  · rw [hrow, Nat.add_comm, Nat.add_mul_mod_self_right, Nat.mod_eq_of_lt hx]
  · rw [hdiv, Nat.add_comm, Nat.add_mul_mod_self_right, Nat.mod_eq_of_lt hy]
  · rw [hdiv, Nat.add_comm, Nat.add_mul_div_right _ _ (Nat.zero_lt_of_lt hy),
      Nat.div_eq_of_lt hy, Nat.zero_add]

theorem blockIndex_lt (e : s.Element) : blockIndex e < s.columns * s.rows * s.slices := by
  obtain ⟨hx, hy, hz⟩ := blockIndex_coordinates e
  have hslice : e.z.toNat / s.layout.blockDepth < s.slices :=
    Nat.div_lt_of_lt_mul (Nat.mul_comm _ _ ▸ e.z_lt)
  have hcolumn : e.x.toNat / s.layout.blockWidth < s.columns :=
    Nat.div_lt_of_lt_mul (Nat.mul_comm _ _ ▸ e.x_lt)
  have hrow : e.y.toNat / s.layout.blockHeight < s.rows :=
    Nat.div_lt_of_lt_mul (Nat.mul_comm _ _ ▸ e.y_lt)
  rw [hz, Nat.div_div_eq_div_mul, Nat.div_lt_iff_lt_mul
    (Nat.mul_pos (Nat.zero_lt_of_lt hcolumn) (Nat.zero_lt_of_lt hrow)), Nat.mul_comm] at hslice
  exact hslice

theorem place_lt {b count extent i : ℕ} (hb : b < count) (hi : i < extent)
    (hle : count * extent ≤ 0x100000000) :
    b * extent + i < count * extent ∧ (BitVec.ofNat 32 (b * extent + i)).toNat = b * extent + i := by
  have hmul : (b + 1) * extent ≤ count * extent := Nat.mul_le_mul_right _ hb
  rw [Nat.succ_mul] at hmul
  refine ⟨by omega, ?_⟩
  rw [BitVec.toNat_ofNat, Nat.mod_eq_of_lt (by omega)]

theorem eq_of_div_eq {b m n : ℕ} (hm : m % b = 0) (hn : n % b = 0) (h : m / b = n / b) :
    m = n := by
  rw [← Nat.div_add_mod m b, ← Nat.div_add_mod n b, hm, hn, h]

section Block

variable {blockX blockY blockZ : ℕ} (hx : blockX < s.columns) (hy : blockY < s.rows)
  (hz : blockZ < s.slices)

/-- The element at a place in a block. -/
def elementAt
    (p : Fin s.layout.blockWidth × Fin s.layout.blockHeight × Fin s.layout.blockDepth) :
    s.Element where
  x := BitVec.ofNat 32 (blockX * s.layout.blockWidth + p.1)
  y := BitVec.ofNat 32 (blockY * s.layout.blockHeight + p.2.1)
  z := BitVec.ofNat 32 (blockZ * s.layout.blockDepth + p.2.2)
  x_lt := Nat.lt_of_le_of_lt (place_lt hx p.1.isLt s.columns_le).2.le
    (place_lt hx p.1.isLt s.columns_le).1
  y_lt := Nat.lt_of_le_of_lt (place_lt hy p.2.1.isLt s.rows_le).2.le
    (place_lt hy p.2.1.isLt s.rows_le).1
  z_lt := Nat.lt_of_le_of_lt (place_lt hz p.2.2.isLt s.slices_le).2.le
    (place_lt hz p.2.2.isLt s.slices_le).1

theorem elementAt_coordinates
    (p : Fin s.layout.blockWidth × Fin s.layout.blockHeight × Fin s.layout.blockDepth) :
    (elementAt hx hy hz p).x.toNat = blockX * s.layout.blockWidth + p.1 ∧
      (elementAt hx hy hz p).y.toNat = blockY * s.layout.blockHeight + p.2.1 ∧
      (elementAt hx hy hz p).z.toNat = blockZ * s.layout.blockDepth + p.2.2 :=
  ⟨(place_lt hx p.1.isLt s.columns_le).2, (place_lt hy p.2.1.isLt s.rows_le).2,
    (place_lt hz p.2.2.isLt s.slices_le).2⟩

theorem div_of_place {b extent : ℕ} (i : Fin extent) : (b * extent + i) / extent = b := by
  rw [Nat.add_comm, Nat.add_mul_div_right _ _ (Nat.zero_lt_of_lt i.isLt),
    Nat.div_eq_of_lt i.isLt, Nat.zero_add]

theorem blockIndex_elementAt
    (p : Fin s.layout.blockWidth × Fin s.layout.blockHeight × Fin s.layout.blockDepth) :
    blockIndex (elementAt hx hy hz p) =
      blockZ * (s.columns * s.rows) + blockY * s.columns + blockX := by
  obtain ⟨hx', hy', hz'⟩ := elementAt_coordinates hx hy hz p
  rw [blockIndex, hx', hy', hz', div_of_place, div_of_place, div_of_place]

/-- **Every offset is one of an element** of the block: the offsets of the block's elements are
different, and there are as many elements as offsets. -/
theorem exists_element_of_offset {o : ℕ} (ho : o < s.layout.blockSize)
    (haligned : o % s.layout.bytesPerElement.bytes = 0) :
    ∃ p, offset (elementAt hx hy hz p) = o := by
  have hpos := TileBlockLayout.bytes_pos s.layout.bytesPerElement
  obtain ⟨-, -, -, -, -, hcard, -, hdvd⟩ := layouts_size s.layout (mem_layouts s.expected)
  let slot : Fin s.layout.blockWidth × Fin s.layout.blockHeight × Fin s.layout.blockDepth →
      Fin (s.layout.blockSize / s.layout.bytesPerElement.bytes) := fun p =>
    ⟨offset (elementAt hx hy hz p) / s.layout.bytesPerElement.bytes,
      Nat.div_lt_div_of_lt_of_dvd hdvd (offset_bounds _).1⟩
  have hinjective : Function.Injective slot := by
    intro p p' heq
    have hoffset : offset (elementAt hx hy hz p) = offset (elementAt hx hy hz p') :=
      eq_of_div_eq (offset_bounds _).2 (offset_bounds _).2 (congrArg Fin.val heq)
    obtain ⟨hx₁, hy₁, hz₁⟩ := elementAt_coordinates hx hy hz p
    obtain ⟨hx₂, hy₂, hz₂⟩ := elementAt_coordinates hx hy hz p'
    have helement := element_ext (by rw [hx₁, hx₂, div_of_place, div_of_place])
      (by rw [hy₁, hy₂, div_of_place, div_of_place])
      (by rw [hz₁, hz₂, div_of_place, div_of_place]) hoffset
    rw [helement] at hx₁ hy₁ hz₁
    refine Prod.ext (Fin.ext ?_) (Prod.ext (Fin.ext ?_) (Fin.ext ?_))
    · exact Nat.add_left_cancel (hx₁.symm.trans hx₂)
    · exact Nat.add_left_cancel (hy₁.symm.trans hy₂)
    · exact Nat.add_left_cancel (hz₁.symm.trans hz₂)
  have hbijective : Function.Bijective slot := by
    refine (Fintype.bijective_iff_injective_and_card slot).2 ⟨hinjective, ?_⟩
    simp only [Fintype.card_prod, Fintype.card_fin]
    rw [← hcard, Nat.mul_div_cancel _ hpos, Nat.mul_assoc]
  obtain ⟨p, hp⟩ := hbijective.2 ⟨o / s.layout.bytesPerElement.bytes,
    Nat.div_lt_div_of_lt_of_dvd hdvd ho⟩
  exact ⟨p, eq_of_div_eq (offset_bounds _).2 haligned (congrArg Fin.val hp)⟩

end Block

/-! ### The surface and its bytes -/

/-- The address of an element, which always exists. -/
def address (e : s.Element) : ℕ := (elementAddress e).getD 0

theorem address_eq (e : s.Element) :
    address e = blockIndex e * s.layout.blockSize + offset e := by
  rw [address, elementAddress_eq]
  rfl

theorem elementAddress_eq_some (e : s.Element) : elementAddress e = some (address e) := by
  rw [address, elementAddress_eq]
  rfl

/-- **Addresses are aligned and lie in the surface.** -/
theorem address_bounds (e : s.Element) :
    s.layout.bytesPerElement.bytes ∣ address e ∧
      address e + s.layout.bytesPerElement.bytes ≤ s.size := by
  obtain ⟨hlt, hmod⟩ := offset_bounds e
  obtain ⟨-, -, -, -, -, -, -, hdvd⟩ := layouts_size s.layout (mem_layouts s.expected)
  have hmul := Nat.mul_le_mul_right s.layout.blockSize (Nat.succ_le_of_lt (blockIndex_lt e))
  rw [Nat.succ_mul] at hmul
  have hnext : offset e + s.layout.bytesPerElement.bytes ≤ s.layout.blockSize := by
    obtain ⟨k, hk⟩ := hdvd
    obtain ⟨l, hl⟩ := Nat.dvd_of_mod_eq_zero hmod
    rw [hk, hl] at hlt
    rw [hk, hl, ← Nat.mul_succ]
    exact Nat.mul_le_mul_left _ (Nat.lt_of_mul_lt_mul_left hlt)
  rw [address_eq]
  exact ⟨Nat.dvd_add (hdvd.mul_left _) (Nat.dvd_of_mod_eq_zero hmod), by
    show _ ≤ s.columns * s.rows * s.slices * s.layout.blockSize
    omega⟩

/-- **Different elements have different addresses.** -/
theorem address_injective : Function.Injective (address (s := s)) := by
  intro e e' h
  have hpos := Nat.zero_lt_of_lt (offset_bounds e).1
  rw [address_eq, address_eq] at h
  have hindex : blockIndex e = blockIndex e' := by
    have := congrArg (· / s.layout.blockSize) h
    simpa [Nat.add_comm (_ * _), Nat.add_mul_div_right _ _ hpos,
      Nat.div_eq_of_lt (offset_bounds _).1] using this
  have hoffset : offset e = offset e' := by
    rw [hindex] at h
    exact Nat.add_left_cancel h
  obtain ⟨hx, hy, hz⟩ := blockIndex_coordinates e
  obtain ⟨hx', hy', hz'⟩ := blockIndex_coordinates e'
  rw [← hindex] at hx' hy' hz'
  exact element_ext (hx.trans hx'.symm) (hy.trans hy'.symm) (hz.trans hz'.symm) hoffset

/-- **Every byte is one of an element.** -/
theorem exists_element_of_byte {b : ℕ} (hb : b < s.size) :
    ∃ e : s.Element, address e ≤ b ∧ b < address e + s.layout.bytesPerElement.bytes := by
  have hpos := TileBlockLayout.bytes_pos s.layout.bytesPerElement
  have hblock : 0 < s.layout.blockSize := by
    rcases Nat.eq_zero_or_pos s.layout.blockSize with h | h
    · rw [size, h, Nat.mul_zero] at hb
      cases hb
    · exact h
  -- the block of the byte and the offset of the element there
  have hindex : b / s.layout.blockSize < s.columns * s.rows * s.slices :=
    (Nat.div_lt_iff_lt_mul hblock).2 hb
  have hcolumns : 0 < s.columns * s.rows := Nat.pos_of_ne_zero fun h => by
    rw [h, Nat.zero_mul] at hindex
    cases hindex
  have hcolumn := Nat.pos_of_mul_pos_right hcolumns
  have hrow := Nat.pos_of_mul_pos_left hcolumns
  have hz : b / s.layout.blockSize / s.columns / s.rows < s.slices := by
    rw [Nat.div_div_eq_div_mul, Nat.div_lt_iff_lt_mul hcolumns, Nat.mul_comm]
    exact hindex
  have hx : b / s.layout.blockSize % s.columns < s.columns := Nat.mod_lt _ hcolumn
  have hy : b / s.layout.blockSize / s.columns % s.rows < s.rows := Nat.mod_lt _ hrow
  obtain ⟨p, hp⟩ := exists_element_of_offset hx hy hz
    (o := b % s.layout.blockSize / s.layout.bytesPerElement.bytes *
      s.layout.bytesPerElement.bytes)
    ((Nat.div_mul_le_self _ _).trans_lt (Nat.mod_lt _ hblock)) (Nat.mul_mod_left _ _)
  refine ⟨elementAt hx hy hz p, ?_⟩
  have hplace : b / s.layout.blockSize / s.columns / s.rows * (s.columns * s.rows) +
      b / s.layout.blockSize / s.columns % s.rows * s.columns +
      b / s.layout.blockSize % s.columns = b / s.layout.blockSize := by
    rw [Nat.mul_comm s.columns, ← Nat.mul_assoc, ← Nat.add_mul, Nat.mul_comm _ s.rows,
      Nat.div_add_mod, Nat.mul_comm _ s.columns, Nat.div_add_mod]
  rw [address_eq, hp, blockIndex_elementAt, hplace]
  have hbyte := Nat.div_add_mod b s.layout.blockSize
  have helement := Nat.div_add_mod (b % s.layout.blockSize) s.layout.bytesPerElement.bytes
  have hrest := Nat.mod_lt (b % s.layout.blockSize) hpos
  rw [Nat.mul_comm] at hbyte helement
  omega

/-- The parameters of the shader for the whole surface. -/
def params (s : Surface) : Shader.Params where
  surfaceZ := 0
  blocksPerRow := BitVec.ofNat 32 s.columns
  blocksPerSlice := BitVec.ofNat 32 (s.columns * s.rows)
  tailX := 0
  tailY := 0
  tail := false

theorem layouts_shader : ∀ layout ∈ layouts,
    Shader.blockExtent layout.family layout.bytesPerElement =
        (BitVec.ofNat 32 layout.blockWidth, BitVec.ofNat 32 layout.blockHeight,
          BitVec.ofNat 32 layout.blockDepth) ∧
      Shader.blockBytes layout.family = BitVec.ofNat 32 layout.blockSize := by
  decide +kernel

/-- **The address of the shader** is the address of the element, as a word. -/
theorem tiledAddress_eq (e : s.Element) :
    Shader.tiledAddress s.layout.family s.layout.bytesPerElement s.params e.x e.y e.z =
      BitVec.ofNat 32 (address e) := by
  obtain ⟨hwidth, hheight, hdepth⟩ := layouts_extent s.layout (mem_layouts s.expected)
  obtain ⟨-, -, hw, hh, hd, -, -, -⟩ := layouts_size s.layout (mem_layouts s.expected)
  obtain ⟨hextent, hbytes⟩ := layouts_shader s.layout (mem_layouts s.expected)
  have hquotient : ∀ {bits : ℕ} (v : BitVec 32), bits ≤ 8 →
      v / BitVec.ofNat 32 (2 ^ bits) = BitVec.ofNat 32 (v.toNat / 2 ^ bits) := by
    intro bits v hbits
    apply BitVec.eq_of_toNat_eq
    rw [toNat_udiv_two_pow hbits, BitVec.toNat_ofNat, Nat.mod_eq_of_lt]
    exact (Nat.div_le_self _ _).trans_lt v.isLt
  show (e.z / (Shader.blockExtent _ _).2.2 * BitVec.ofNat 32 (s.columns * s.rows) +
      e.y / (Shader.blockExtent _ _).2.1 * BitVec.ofNat 32 s.columns +
      e.x / (Shader.blockExtent _ _).1) * Shader.blockBytes _ +
    Shader.blockOffset s.layout.bytesPerElement e.x e.y (e.z + 0#32) s.layout.family = _
  rw [hextent, hbytes, BitVec.add_zero, address_eq, blockIndex, hwidth, hheight, hdepth]
  simp only [BitVec.ofNat_add, BitVec.ofNat_mul]
  rw [← hquotient _ hw, ← hquotient _ hh, ← hquotient _ hd, offset, BitVec.ofNat_toNat,
    BitVec.setWidth_eq]
  rfl

/-! ### Tiling and detiling -/

/-- The linear form of a surface: rows of `pitchBytes` and slices of `sliceBytes`. -/
structure Linear (s : Surface) where
  pitchBytes : ℕ
  sliceBytes : ℕ
  pitch_le : s.columns * s.layout.blockWidth * s.layout.bytesPerElement.bytes ≤ pitchBytes
  slice_le : s.rows * s.layout.blockHeight * pitchBytes ≤ sliceBytes

/-- `linear` of the shader. -/
def linearAddress (l : s.Linear) (e : s.Element) : ℕ :=
  e.z.toNat * l.sliceBytes + e.y.toNat * l.pitchBytes +
    e.x.toNat * s.layout.bytesPerElement.bytes

/-- The shader with `TILE == 0`: each invocation copies its element. -/
def detile (l : s.Linear) (invocations : List s.Element) (tiled linear : ℕ → UInt8) : ℕ → UInt8 :=
  copyObjects s.layout.bytesPerElement.bytes address (linearAddress l) invocations tiled linear

/-- The shader with `TILE == 1`. -/
def tile (l : s.Linear) (invocations : List s.Element) (linear tiled : ℕ → UInt8) : ℕ → UInt8 :=
  copyObjects s.layout.bytesPerElement.bytes (linearAddress l) address invocations linear tiled

/-- A byte of a row lies in one object of it. -/
theorem eq_of_mul_add_lt {size i j a b : ℕ} (ha : a < size) (hb : b < size)
    (h : i * size + a = j * size + b) : i = j ∧ a = b := by
  have hpos := Nat.zero_lt_of_lt ha
  have hdiv := congrArg (· / size) h
  simp only [Nat.add_comm (_ * size), Nat.add_mul_div_right _ _ hpos, Nat.div_eq_of_lt ha,
    Nat.div_eq_of_lt hb, Nat.zero_add] at hdiv
  subst hdiv
  exact ⟨rfl, Nat.add_left_cancel h⟩

/-- Elements do not overlap in the linear form. -/
theorem linearAddress_disjoint (l : s.Linear) (e e' : s.Element) (a : ℕ)
    (h : linearAddress l e ≤ a) (h' : a < linearAddress l e + s.layout.bytesPerElement.bytes)
    (g : linearAddress l e' ≤ a) (g' : a < linearAddress l e' + s.layout.bytesPerElement.bytes) :
    e = e' := by
  -- a byte of an element lies in its row, and the row in its slice
  have hrow : ∀ (e : s.Element) {i : ℕ}, i < s.layout.bytesPerElement.bytes →
      e.x.toNat * s.layout.bytesPerElement.bytes + i < l.pitchBytes := by
    intro e i hi
    have hx := Nat.mul_le_mul_right s.layout.bytesPerElement.bytes (Nat.succ_le_of_lt e.x_lt)
    rw [Nat.succ_mul] at hx
    have := l.pitch_le
    omega
  have hslice : ∀ (e : s.Element) {i : ℕ}, i < s.layout.bytesPerElement.bytes →
      e.y.toNat * l.pitchBytes + (e.x.toNat * s.layout.bytesPerElement.bytes + i) <
        l.sliceBytes := by
    intro e i hi
    have hy := Nat.mul_le_mul_right l.pitchBytes (Nat.succ_le_of_lt e.y_lt)
    rw [Nat.succ_mul] at hy
    have := l.slice_le
    have := hrow e hi
    omega
  obtain ⟨i, rfl⟩ := Nat.exists_eq_add_of_le h
  obtain ⟨j, hj⟩ := Nat.exists_eq_add_of_le g
  have hi : i < s.layout.bytesPerElement.bytes := by omega
  have hj' : j < s.layout.bytesPerElement.bytes := by omega
  simp only [linearAddress, Nat.add_assoc] at hj
  obtain ⟨hz, hj⟩ := eq_of_mul_add_lt (hslice e hi) (hslice e' hj') hj
  obtain ⟨hy, hj⟩ := eq_of_mul_add_lt (hrow e hi) (hrow e' hj') hj
  obtain ⟨hx, -⟩ := eq_of_mul_add_lt hi hj' hj
  exact Element.ext (BitVec.eq_of_toNat_eq hx) (BitVec.eq_of_toNat_eq hy)
    (BitVec.eq_of_toNat_eq hz)

/-- Elements do not overlap in the tiled form. -/
theorem address_disjoint (e e' : s.Element) (a : ℕ) (h : address e ≤ a)
    (h' : a < address e + s.layout.bytesPerElement.bytes) (g : address e' ≤ a)
    (g' : a < address e' + s.layout.bytesPerElement.bytes) : e = e' := by
  obtain ⟨⟨k, hk⟩, -⟩ := address_bounds e
  obtain ⟨⟨k', hk'⟩, -⟩ := address_bounds e'
  obtain ⟨i, rfl⟩ := Nat.exists_eq_add_of_le h
  obtain ⟨j, hj⟩ := Nat.exists_eq_add_of_le g
  apply address_injective
  rw [hk, hk', Nat.mul_comm, Nat.mul_comm _ k'] at *
  rw [(eq_of_mul_add_lt (by omega) (by omega) hj).1]

section RoundTrips

variable (l : s.Linear) {invocations : List s.Element} (hall : ∀ e, e ∈ invocations)
include hall

/-- **Tiling after detiling** restores every byte of the surface. -/
theorem tile_detile (tiled linear tiled' : ℕ → UInt8) {b : ℕ} (hb : b < s.size) :
    tile l invocations (detile l invocations tiled linear) tiled' b = tiled b := by
  obtain ⟨e, hle, hlt⟩ := exists_element_of_byte hb
  obtain ⟨i, rfl⟩ := Nat.exists_eq_add_of_le hle
  have hi : i < s.layout.bytesPerElement.bytes := by omega
  rw [tile, copyObjects_apply address_disjoint (hall e) hi, detile,
    copyObjects_apply (linearAddress_disjoint l) (hall e) hi]

/-- **Detiling after tiling** restores every element of the linear form. -/
theorem detile_tile (linear tiled linear' : ℕ → UInt8) (e : s.Element) {i : ℕ}
    (hi : i < s.layout.bytesPerElement.bytes) :
    detile l invocations (tile l invocations linear tiled) linear' (linearAddress l e + i) =
      linear (linearAddress l e + i) := by
  rw [detile, copyObjects_apply (linearAddress_disjoint l) (hall e) hi, tile,
    copyObjects_apply address_disjoint (hall e) hi]

end RoundTrips

/-- **Surface addressing is a bijection.** Every element of a surface has an address, which is
aligned and in the surface; different elements have different addresses; every byte is one of
an element; the address is the one of the tiler shader; and the shader's copies to the linear
form and back, in any order of its invocations, restore the surface and its elements. -/
theorem addressing_bijective (s : Surface) :
    (∀ e : s.Element, ∃ a, elementAddress e = some a ∧ s.layout.bytesPerElement.bytes ∣ a ∧
      a + s.layout.bytesPerElement.bytes ≤ s.size ∧
      Shader.tiledAddress s.layout.family s.layout.bytesPerElement s.params e.x e.y e.z =
        BitVec.ofNat 32 a) ∧
    (∀ (e e' : s.Element) (a : ℕ), elementAddress e = some a → elementAddress e' = some a →
      e = e') ∧
    (∀ b < s.size, ∃ (e : s.Element) (a : ℕ), elementAddress e = some a ∧ a ≤ b ∧
      b < a + s.layout.bytesPerElement.bytes) ∧
    ∀ (l : s.Linear) (invocations : List s.Element), (∀ e, e ∈ invocations) →
      (∀ (tiled linear tiled' : ℕ → UInt8), ∀ b < s.size,
        tile l invocations (detile l invocations tiled linear) tiled' b = tiled b) ∧
      ∀ (linear tiled linear' : ℕ → UInt8) (e : s.Element),
        ∀ i < s.layout.bytesPerElement.bytes,
          detile l invocations (tile l invocations linear tiled) linear'
            (linearAddress l e + i) = linear (linearAddress l e + i) := by
  refine ⟨fun e => ⟨address e, elementAddress_eq_some e, (address_bounds e).1,
    (address_bounds e).2, tiledAddress_eq e⟩, fun e e' a h h' => ?_, fun b hb => ?_,
    fun l invocations hall => ⟨fun tiled linear tiled' b hb => ?_,
      fun linear tiled linear' e i hi => ?_⟩⟩
  · rw [elementAddress_eq_some] at h h'
    exact address_injective (Option.some.inj (h.trans h'.symm))
  · obtain ⟨e, hle, hlt⟩ := exists_element_of_byte hb
    exact ⟨e, address e, elementAddress_eq_some e, hle, hlt⟩
  · exact tile_detile l hall tiled linear tiled' hb
  · exact detile_tile l hall linear tiled linear' e hi

end Surface

end Prosperismo.Tile
