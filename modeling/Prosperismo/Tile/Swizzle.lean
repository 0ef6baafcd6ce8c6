import Prosperismo.Tile.Shader

/-!
# The bit matrices of the families

All offsets are linear in the bits of the coordinates (`localOffset_linear`,
`blockXor_linear`, `blockOffset_linear`), so a family and an element size are a matrix over
bits. The facts about the 44 matrices that the addresses of surfaces rest on are checked on
their columns:

* the columns within a block are independent (`layouts_independent`);
* every column is a multiple of the element size below the size of the block
  (`layouts_aligned`);
* the matrix of the shader is the matrix of the block on the coordinates in the block and the
  matrix of the exclusive or on the coordinates of the block (`layouts_split`).
-/

namespace Prosperismo.Tile

/-! ### The layouts -/

/-- All layouts that are accepted. -/
def layouts : List TileBlockLayout :=
  [.standard256B, .standard4KB, .standard4KB3D, .standard64KB, .standard64KB3D, .prt64KB,
    .prt64KB3D, .renderTarget64KB, .depth64KB].flatMap fun family =>
    [.b1, .b2, .b4, .b8, .b16].filterMap fun bytes : ElementSize =>
      tileGetBlockLayout family bytes.bytes

theorem mem_layouts {layout : TileBlockLayout} (h : layout.Expected) : layout ∈ layouts := by
  obtain ⟨family, bytes, size, width, height, depth⟩ := layout
  have hmem : tileGetBlockLayout family bytes.bytes =
      some ⟨family, bytes, size, width, height, depth⟩ := h
  refine List.mem_flatMap.2 ⟨family, ?_, List.mem_filterMap.2 ⟨bytes, ?_, hmem⟩⟩
  · cases family
    case count => cases bytes <;> cases hmem
    all_goals decide
  · cases bytes <;> decide

namespace TileBlockLayout

variable (layout : TileBlockLayout)

/-- The numbers of bits of the coordinates in a block. -/
def widthBits : ℕ := layout.blockWidth.log2

@[inherit_doc widthBits] def heightBits : ℕ := layout.blockHeight.log2

@[inherit_doc widthBits] def depthBits : ℕ := layout.blockDepth.log2

end TileBlockLayout

/-! ### Linearity -/

/-- The offset in the block. -/
def localOffset (layout : TileBlockLayout) (x y z : BitVec 32) : BitVec 32 :=
  (offsetInBlock x y z layout.family layout.bytesPerElement).getD 0

/-- What the offsets of a block are changed by, for the coordinates of its first element. -/
def blockXor (layout : TileBlockLayout) (x y z : BitVec 32) : BitVec 32 :=
  match layout.family with
  | .renderTarget64KB =>
    gen5RenderTargetOffsetInBlock x y layout.bytesPerElement ^^^ volumeXor z
  | .depth64KB =>
    match layout.bytesPerElement with
    | .b8 => depth64KB64XOffsetBytes x ^^^ depth64KB64YOffsetBytes y ^^^ volumeXor z
    | _ => volumeXor z
  | _ => 0

/-- The formula of the shader of the family. -/
def swizzle (layout : TileBlockLayout) (x y z : BitVec 32) : BitVec 32 :=
  Shader.blockOffset layout.bytesPerElement x y z layout.family

/-- The words of the tables are counted in elements. -/
theorem mul_bytes (v : BitVec 32) (bytes : ElementSize) :
    v * BitVec.ofNat 32 bytes.bytes = v <<< ElementSize.select 0 1 2 3 4 bytes := by
  cases bytes with
  | b1 => exact BitVec.mul_twoPow_eq_shiftLeft v 0
  | b2 => exact BitVec.mul_twoPow_eq_shiftLeft v 1
  | b4 => exact BitVec.mul_twoPow_eq_shiftLeft v 2
  | b8 => exact BitVec.mul_twoPow_eq_shiftLeft v 3
  | b16 => exact BitVec.mul_twoPow_eq_shiftLeft v 4

theorem swizzle_linear (layout : TileBlockLayout) : XorLinear₃ (swizzle layout) := by
  show XorLinear₃ fun x y z => Shader.blockOffset layout.bytesPerElement x y z layout.family
  cases layout.family <;> cases layout.bytesPerElement <;>
    simp only [Shader.blockOffset, Shader.standardOffset, Shader.standard3dOffset,
      Shader.standard64Offset, Shader.standard643dOffset, Shader.prtBlockOffset,
      Shader.prt3dBlockOffset, Shader.rtOffset, Shader.volumeZ, Shader.depthBlockOffset,
      ElementSize.select]
  all_goals
    repeat' with_reducible first
    | apply XorLinear₃.xor
    | apply XorLinear₃.and
    | apply XorLinear₃.shiftLeft
    | apply XorLinear₃.ushiftRight
    | exact XorLinear₃.fst
    | exact XorLinear₃.snd
    | exact XorLinear₃.thd
  all_goals exact XorLinear₃.zero

theorem localOffset_linear (layout : TileBlockLayout) : XorLinear₃ (localOffset layout) := by
  show XorLinear₃ fun x y z => (offsetInBlock x y z layout.family layout.bytesPerElement).getD 0
  cases layout.family <;> cases layout.bytesPerElement <;>
    simp only [offsetInBlock, gen5Standard256BOffsetInBlock, gen5Standard4KBOffsetInBlock,
      gen5Standard4KBVolumeOffsetInBlock, gen5Standard64KBVolumeOffsetInBlock, prt64KB3DDelta,
      prt64KBDelta, standard64KBXWords, standard64KBYWords, gen5RenderTargetOffsetInBlock,
      depth64KB8XOffsetBytes, depth64KB8YOffsetBytes, depth64KB16XOffsetBytes,
      depth64KB16YOffsetBytes, depth64KB32XOffsetBytes, depth64KB32YOffsetBytes,
      depth64KB64XOffsetBytes, depth64KB64YOffsetBytes, bit, mul_bytes, ElementSize.select,
      Option.getD_some, Option.getD_none]
  all_goals
    repeat' with_reducible first
    | apply XorLinear₃.xor
    | apply XorLinear₃.and
    | apply XorLinear₃.shiftLeft
    | apply XorLinear₃.ushiftRight
    | exact XorLinear₃.fst
    | exact XorLinear₃.snd
    | exact XorLinear₃.thd
  all_goals exact XorLinear₃.zero

theorem blockXor_linear (layout : TileBlockLayout) : XorLinear₃ (blockXor layout) := by
  show XorLinear₃ fun x y z => blockXor layout x y z
  unfold blockXor
  cases layout.family <;> cases layout.bytesPerElement <;>
    simp only [gen5RenderTargetOffsetInBlock, depth64KB64XOffsetBytes, depth64KB64YOffsetBytes,
      volumeXor]
  all_goals
    repeat' with_reducible first
    | apply XorLinear₃.xor
    | apply XorLinear₃.and
    | apply XorLinear₃.shiftLeft
    | exact XorLinear₃.fst
    | exact XorLinear₃.snd
    | exact XorLinear₃.thd
  all_goals exact XorLinear₃.zero

/-! ### The matrices -/

/-- The coordinate in its block. -/
def inBlock (bits : ℕ) (v : BitVec 32) : BitVec 32 :=
  (v <<< (32 - bits)) >>> (32 - bits)

/-- The coordinate of the first element of the block. -/
def ofBlock (bits : ℕ) (v : BitVec 32) : BitVec 32 :=
  (v >>> bits) <<< bits

/-- The offset of an element in its block, changed as its block changes it. -/
def splitSwizzle (layout : TileBlockLayout) (x y z : BitVec 32) : BitVec 32 :=
  localOffset layout (inBlock layout.widthBits x) (inBlock layout.heightBits y)
      (inBlock layout.depthBits z) ^^^
    blockXor layout (ofBlock layout.widthBits x) (ofBlock layout.heightBits y)
      (ofBlock layout.depthBits z)

theorem layouts_extent : ∀ layout ∈ layouts,
    layout.blockWidth = 2 ^ layout.widthBits ∧ layout.blockHeight = 2 ^ layout.heightBits ∧
      layout.blockDepth = 2 ^ layout.depthBits := by
  decide +kernel

/-- **Full rank.** -/
theorem layouts_independent : ∀ layout ∈ layouts,
    independent 16 (columns₃ (localOffset layout) layout.widthBits layout.heightBits
      layout.depthBits) = true := by
  decide +kernel

theorem layouts_split : ∀ layout ∈ layouts,
    columns₃ (splitSwizzle layout) 32 32 32 = columns₃ (swizzle layout) 32 32 32 := by
  decide +kernel

/-- The bits of the offsets of elements. -/
def TileBlockLayout.offsetMask (layout : TileBlockLayout) : BitVec 32 :=
  BitVec.ofNat 32 (layout.blockSize - layout.bytesPerElement.bytes)

/-- The offset is a multiple of the element size below the size of the block. -/
def TileBlockLayout.Aligned (layout : TileBlockLayout) (offset : BitVec 32) : Prop :=
  offset &&& layout.offsetMask = offset

theorem layouts_aligned : ∀ layout ∈ layouts,
    (columns₃ (localOffset layout) layout.widthBits layout.heightBits layout.depthBits).all
        (fun column => column &&& layout.offsetMask == column) = true ∧
      (columns₃ (blockXor layout) 32 32 32).all
        (fun column => column &&& layout.offsetMask == column) = true := by
  decide +kernel

theorem layouts_size : ∀ layout ∈ layouts,
    0 < layout.blockSize ∧ layout.blockSize ≤ 0x10000 ∧ layout.widthBits ≤ 8 ∧ layout.heightBits ≤ 8 ∧
      layout.depthBits ≤ 8 ∧
      layout.blockWidth * layout.blockHeight * layout.blockDepth * layout.bytesPerElement.bytes =
        layout.blockSize ∧
      (layout.blockSize - layout.bytesPerElement.bytes) % layout.bytesPerElement.bytes = 0 ∧
      layout.bytesPerElement.bytes ∣ layout.blockSize := by
  decide +kernel

namespace TileBlockLayout

variable {layout : TileBlockLayout}

theorem Aligned.zero : layout.Aligned 0#32 := BitVec.zero_and

theorem Aligned.xor {a b : BitVec 32} (ha : layout.Aligned a) (hb : layout.Aligned b) :
    layout.Aligned (a ^^^ b) := by
  show (a ^^^ b) &&& layout.offsetMask = a ^^^ b
  rw [XorLinear.and_xor_and, ha, hb]

theorem bytes_pos (bytes : ElementSize) : 0 < bytes.bytes := by
  cases bytes <;> decide

/-- What the checks of an offset ask for. -/
theorem Aligned.bounds (h : layout.Expected) {offset : BitVec 32} (ha : layout.Aligned offset) :
    offset.toNat < layout.blockSize ∧ offset.toNat % layout.bytesPerElement.bytes = 0 := by
  obtain ⟨hblock, hsize, -, -, -, -, hmod, -⟩ := layouts_size layout (mem_layouts h)
  have hpos := bytes_pos layout.bytesPerElement
  have htoNat : offset.toNat &&& (layout.blockSize - layout.bytesPerElement.bytes) =
      offset.toNat := by
    have := congrArg BitVec.toNat ha
    rwa [BitVec.toNat_and, TileBlockLayout.offsetMask, BitVec.toNat_ofNat,
      Nat.mod_eq_of_lt (by omega)] at this
  constructor
  · have := Nat.and_le_right (n := offset.toNat)
      (m := layout.blockSize - layout.bytesPerElement.bytes)
    omega
  · obtain ⟨k, hk⟩ : ∃ k, layout.bytesPerElement.bytes = 2 ^ k := by
      cases layout.bytesPerElement
      exacts [⟨0, rfl⟩, ⟨1, rfl⟩, ⟨2, rfl⟩, ⟨3, rfl⟩, ⟨4, rfl⟩]
    rw [← htoNat, hk, Nat.and_mod_two_pow, ← hk, hmod, Nat.and_zero]

theorem aligned_of_all {columns : List (BitVec 32)}
    (h : columns.all (fun column => column &&& layout.offsetMask == column) = true) :
    ∀ column ∈ columns, layout.Aligned column := by
  intro column hcolumn
  exact beq_iff_eq.1 (List.all_eq_true.1 h column hcolumn)

/-- The offset of an element in its block is one of an element. -/
theorem localOffset_aligned (h : layout.Expected) {x y z : BitVec 32}
    (hx : ∀ i, layout.widthBits ≤ i → x.getLsbD i = false)
    (hy : ∀ i, layout.heightBits ≤ i → y.getLsbD i = false)
    (hz : ∀ i, layout.depthBits ≤ i → z.getLsbD i = false) :
    layout.Aligned (localOffset layout x y z) :=
  (localOffset_linear layout).induction Aligned.zero (fun _ _ => Aligned.xor)
    (aligned_of_all (layouts_aligned layout (mem_layouts h)).1) hx hy hz

theorem blockXor_aligned (h : layout.Expected) (x y z : BitVec 32) :
    layout.Aligned (blockXor layout x y z) :=
  (blockXor_linear layout).induction Aligned.zero (fun _ _ => Aligned.xor)
    (aligned_of_all (layouts_aligned layout (mem_layouts h)).2)
    (fun _ hi => BitVec.getLsbD_of_ge x _ hi) (fun _ hi => BitVec.getLsbD_of_ge y _ hi)
    (fun _ hi => BitVec.getLsbD_of_ge z _ hi)

/-- **The two formulas agree.** The formula of the shader at the full coordinates is the offset
in the block, changed as the block changes it. -/
theorem swizzle_eq (h : layout.Expected) (x y z : BitVec 32) :
    swizzle layout x y z =
      localOffset layout (inBlock layout.widthBits x) (inBlock layout.heightBits y)
          (inBlock layout.depthBits z) ^^^
        blockXor layout (ofBlock layout.widthBits x) (ofBlock layout.heightBits y)
          (ofBlock layout.depthBits z) := by
  have hsplit : XorLinear₃ (splitSwizzle layout) := by
    intro a b c a' b' c'
    simp only [splitSwizzle, inBlock, ofBlock, BitVec.shiftLeft_xor_distrib,
      BitVec.ushiftRight_xor_distrib]
    rw [localOffset_linear, blockXor_linear]
    ac_rfl
  exact ((hsplit.ext (swizzle_linear layout) (layouts_split layout (mem_layouts h))) x y z).symm

end TileBlockLayout

end Prosperismo.Tile
