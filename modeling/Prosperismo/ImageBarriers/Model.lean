import Mathlib.Data.Nat.Notation

/-!
# The barriers of an image

`Image::GetBarriers` and `Image::Transit` of `image.cpp`. An image remembers the layout, access and
stage of its last use, in one state for all of it or, while uses of parts of it are apart, in a
table with a state for every level and layer. A call returns the barriers that bring a range from
what is remembered to where the next use wants it.

Levels, layers and counts are `ℕ` with the wrap of `uint32_t` where the code computes one, flags and
layouts are the words of Vulkan. `none` is a failed `EXIT_IF`.
-/

namespace Prosperismo.ImageBarriers

/-- `vk::ImageLayout`. -/
abbrev ImageLayout := UInt32

/-- `vk::AccessFlags2`. -/
abbrev AccessFlags := UInt64

/-- `vk::PipelineStageFlags2`. -/
abbrev PipelineStageFlags := UInt64

/-- `vk::Format`, as far as the aspects of an image depend on it. -/
inductive Format
  | d16Unorm
  | x8D24UnormPack32
  | d32Sfloat
  | s8Uint
  | d16UnormS8Uint
  | d24UnormS8Uint
  | d32SfloatS8Uint
  | other
deriving DecidableEq

/-- `Image::FullAspectMask`: colour is bit `0`, depth bit `1` and stencil bit `2`. -/
def fullAspectMask : Format → UInt32
  | .d16Unorm | .x8D24UnormPack32 | .d32Sfloat => 2
  | .s8Uint => 4
  | .d16UnormS8Uint | .d24UnormS8Uint | .d32SfloatS8Uint => 2 ||| 4
  | .other => 1

/-! ### Images -/

/-- `VulkanImageState`, by default `eAllCommands`, `eNone` and `eUndefined`. -/
structure VulkanImageState where
  plStage : PipelineStageFlags := 0x10000
  accessMask : AccessFlags := 0
  layout : ImageLayout := 0
deriving DecidableEq

/-- What `ImageInfo` says of the subresources, after `ImageOps::Validate`: levels and layers, at
most `16` levels (`mip_layout.size()`), and one layer if the image is a volume. The guest's
descriptors have at most `13` bits for a layer, hence the last field. -/
structure ImageInfo where
  levels : ℕ
  layers : ℕ
  isVolume : Bool
  levels_pos : 0 < levels
  levels_le : levels ≤ 16
  layers_pos : 0 < layers
  layers_volume : isVolume = true → layers = 1
  subresources_lt : levels * layers < 0x100000000

/-- `ImageSubresourceRange`. -/
structure ImageSubresourceRange where
  baseLevel : ℕ
  levelCount : ℕ
  baseLayer : ℕ
  layerCount : ℕ
deriving DecidableEq

/-- `VulkanImage`: the handle, the format and what is remembered. The table has the levels one after
the other, and in each its layers. -/
structure VulkanImage where
  image : UInt64
  format : Format
  state : VulkanImageState := {}
  subresourceStates : List VulkanImageState := []
deriving DecidableEq

/-- `vk::ImageMemoryBarrier2`, its `subresourceRange` included. -/
structure ImageMemoryBarrier where
  srcStageMask : PipelineStageFlags
  srcAccessMask : AccessFlags
  dstStageMask : PipelineStageFlags
  dstAccessMask : AccessFlags
  oldLayout : ImageLayout
  newLayout : ImageLayout
  srcQueueFamilyIndex : UInt32
  dstQueueFamilyIndex : UInt32
  image : UInt64
  aspectMask : UInt32
  baseMipLevel : ℕ
  levelCount : ℕ
  baseArrayLayer : ℕ
  layerCount : ℕ
deriving DecidableEq

/-- `VK_REMAINING_MIP_LEVELS` and `VK_REMAINING_ARRAY_LAYERS`. -/
def remaining : ℕ := 0xffffffff

/-- `VK_QUEUE_FAMILY_IGNORED`. -/
def queueFamilyIgnored : UInt32 := 0xffffffff

/-- `write_access`: `eTransferWrite`, `eShaderWrite` and `eMemoryWrite`. -/
def writeAccess : AccessFlags := 0x1000 ||| 0x40 ||| 0x10000

/-! ### `GetBarriers` -/

/-- The arguments of a call. -/
structure Call where
  destinationLayout : ImageLayout
  destinationAccess : AccessFlags
  destinationStage : PipelineStageFlags
  range : Option ImageSubresourceRange
deriving DecidableEq

/-- The state the range is in after the call. -/
def Call.destination (call : Call) : VulkanImageState where
  plStage := call.destinationStage
  accessMask := call.destinationAccess
  layout := call.destinationLayout

/-- A state that does not stay as it is: another layout or access is wanted, or a write may still be
under way. -/
def needsBarrier (state : VulkanImageState) (call : Call) : Bool :=
  state.layout != call.destinationLayout || state.accessMask != call.destinationAccess ||
    state.accessMask &&& writeAccess != 0

/-- The barrier from `state` to the destination, on a range. -/
def barrierFrom (backing : VulkanImage) (call : Call) (state : VulkanImageState)
    (baseMipLevel levelCount baseArrayLayer layerCount : ℕ) : ImageMemoryBarrier where
  srcStageMask := state.plStage
  srcAccessMask := state.accessMask
  dstStageMask := call.destinationStage
  dstAccessMask := call.destinationAccess
  oldLayout := state.layout
  newLayout := call.destinationLayout
  srcQueueFamilyIndex := queueFamilyIgnored
  dstQueueFamilyIndex := queueFamilyIgnored
  image := backing.image
  aspectMask := fullAspectMask backing.format
  baseMipLevel := baseMipLevel
  levelCount := levelCount
  baseArrayLayer := baseArrayLayer
  layerCount := layerCount

/-- The range of the call: of a volume, which has no layers, it keeps the levels only. -/
def Call.normalized (info : ImageInfo) (call : Call) : Option ImageSubresourceRange :=
  call.range.map fun range =>
    if info.isVolume then { range with baseLayer := 0, layerCount := 1 } else range

/-- All of the image. -/
def ImageInfo.whole (info : ImageInfo) : ImageSubresourceRange where
  baseLevel := 0
  levelCount := info.levels
  baseLayer := 0
  layerCount := info.layers

/-- `partial`: a range is given that is not all of the image. -/
def isPartial (info : ImageInfo) (range : Option ImageSubresourceRange) : Bool :=
  range.any fun range =>
    range.baseLevel != 0 || range.levelCount != info.levels || range.baseLayer != 0 ||
      range.layerCount != info.layers

/-- The values of a variable of a loop `for (x = base; x < base + count; x++)`. -/
def loopValues (base count : ℕ) : List ℕ :=
  List.range' base ((base + count) % 0x100000000 - base)

/-- The levels and layers of a range, in the order of the two loops. -/
def ImageSubresourceRange.cells (range : ImageSubresourceRange) : List (ℕ × ℕ) :=
  (loopValues range.baseLevel range.levelCount).flatMap fun level =>
    (loopValues range.baseLayer range.layerCount).map fun layer => (level, layer)

/-- The body of the loops: the barriers so far and the table, at one level and layer. -/
def transitCell (info : ImageInfo) (backing : VulkanImage) (call : Call)
    (acc : List ImageMemoryBarrier × List VulkanImageState) (cell : ℕ × ℕ) :
    Option (List ImageMemoryBarrier × List VulkanImageState) :=
  let index := (cell.1 * info.layers + cell.2) % 0x100000000
  match acc.2[index]? with
  | none => none
  | some state =>
    if needsBarrier state call then
      some (acc.1 ++ [barrierFrom backing call state cell.1 1 cell.2 1],
        acc.2.set index call.destination)
    else some acc

/-- `Image::GetBarriers`: the barriers, and the image afterwards. -/
def getBarriers (info : ImageInfo) (backing : VulkanImage) (call : Call) :
    Option (List ImageMemoryBarrier × VulkanImage) :=
  let range := call.normalized info
  let partialRange := isPartial info range
  if partialRange || !backing.subresourceStates.isEmpty then do
    let table :=
      if backing.subresourceStates.isEmpty then
        List.replicate ((info.levels * info.layers) % 0x100000000) backing.state
      else backing.subresourceStates
    let covered := if partialRange then range.getD info.whole else info.whole
    let (barriers, table) ← covered.cells.foldlM (transitCell info backing call) ([], table)
    some (barriers, { backing with
      state := call.destination
      subresourceStates := if partialRange then table else [] })
  else if needsBarrier backing.state call then
    some ([barrierFrom backing call backing.state 0 remaining 0 remaining],
      { backing with state := call.destination })
  else
    -- here the aggregate keeps its stage
    some ([], backing)

/-- `Image::Transit` calls `GetBarriers` so, and records what it returns: the stage is `eTransfer`
for transfers, `eAllGraphics` and `eComputeShader` for all other accesses. -/
def transitCall (layout : ImageLayout) (access : AccessFlags)
    (range : Option ImageSubresourceRange) : Call where
  destinationLayout := layout
  destinationAccess := access
  destinationStage :=
    (if access &&& (0x800 ||| 0x1000) != 0 then 0x1000 else 0) |||
      if access == 0 || access &&& ~~~(0x800 ||| 0x1000) != 0 then 0x8000 ||| 0x800 else 0
  range := range

end Prosperismo.ImageBarriers
