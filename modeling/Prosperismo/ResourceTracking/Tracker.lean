import Prosperismo.ResourceTracking.Model
import Mathlib.Algebra.Ring.Int.Defs

/-!
# The tracker

`Tracker` of `ResourceTracking.cpp`: `collect` is one memory instruction, `trackResources`
the run. The four tables are added to in one way (`KeyedTable.add`); each has its own key,
its own fresh entry and its own merge.

A failed run is an error here. It leaves an instruction that has been given the source of an
earlier load as it is; the tables and the indices have not been written back.
-/

namespace Prosperismo.ResourceTracking

open Prosperismo.Resources (ResourceKind ImageDimension)

/-! ### Descriptor sources -/

section Sources

variable (program : Program)

/-- `GetDescriptorSource`. -/
def getDescriptorSource (source : ℕ) : Option DescriptorValue :=
  if source < 2 then none else program.provenance.descriptors[source - 2]?

/-- `DynamicDescriptorSource`. -/
def dynamicDescriptorSource (source : ℕ) : Bool := program.dynamicSources.contains source

/-- `DescriptorSourceResolved`. -/
def descriptorSourceResolved (source : ℕ) : Bool :=
  match getDescriptorSource program source with
  | none => false
  | some descriptor =>
    (descriptor.values.foldl (fun found id =>
      if found.1 then program.provenance.valueResolved program.provenance.fuel found.2 id
      else found) (true, fun _ => .unvisited)).1

/-- Whether one of the dwords of a descriptor contains an unknown value; the searches are apart. -/
def descriptorContainsUnknown (source : ℕ) : Bool :=
  match getDescriptorSource program source with
  | none => false
  | some descriptor => descriptor.values.any fun id => program.provenance.containsUnknown [id]

/-- `ValidateSource`. -/
def validateSource (source dwords : ℕ) : Except Reason Unit :=
  match getDescriptorSource program source with
  | none => .error (.missingDescriptor source)
  | some descriptor =>
    if descriptor.dwordCount ≠ dwords then .error (.missingDescriptor source)
    else if program.provenance.containsUnknown descriptor.values then .error (.unknownValue source)
    else if dynamicDescriptorSource program source &&
        !program.provenance.loopInvariant descriptor.values then
      .error (.gpuSelection source)
    else if !descriptorSourceResolved program source && !dynamicDescriptorSource program source then
      .error (.unresolved source)
    else .ok ()

end Sources

/-! ### The tables -/

namespace BufferResource

/-- The key of a buffer. -/
def key (buffer : BufferResource) : ℕ := buffer.source

/-- `Merge` of a buffer. -/
def merge (inst : Instruction) (buffer : BufferResource) : BufferResource :=
  { buffer with
    firstUsePc := min buffer.firstUsePc inst.pc
    maxByteExtent := max buffer.maxByteExtent inst.byteExtent
    read := buffer.read || inst.reads
    written := buffer.written || isWrite inst.op
    atomic := buffer.atomic || isAtomic inst.op
    formatted := buffer.formatted || inst.memory.formatted
    scalar := buffer.scalar || inst.memory.kind = .scalarBuffer }

/-- A new buffer, before its first use is merged into it. -/
def blank (inst : Instruction) : BufferResource where
  source := inst.memory.resourceSource
  firstUsePc := inst.pc

/-- `AddBuffer`. -/
def addBuffer (info : ShaderInfo) (inst : Instruction) : Option (ShaderInfo × ℕ) :=
  (KeyedTable.add key ShaderInfo.maxBuffers inst.memory.resourceSource (merge inst)
    (merge inst (blank inst)) info.buffers).map fun (buffers, i) => ({ info with buffers }, i)

end BufferResource

namespace ImageResource

/-- The key of an image. -/
def key (image : ImageResource) : ℕ × ResourceKind × ImageDimension × ImageMipMode × Bool :=
  (image.source, image.kind, image.dimension, image.mipMode, image.depthCompare)

/-- `Merge` of an image. -/
def merge (inst : Instruction) (image : ImageResource) : ImageResource :=
  { image with
    firstUsePc := min image.firstUsePc inst.pc
    read := image.read || inst.reads
    written := image.written || isWrite inst.op
    atomic := image.atomic || isAtomic inst.op }

/-- The key of the image that an instruction accesses. -/
def keyOf (inst : Instruction) : ℕ × ResourceKind × ImageDimension × ImageMipMode × Bool :=
  (inst.memory.resourceSource, inst.memory.kind, inst.memory.imageDimension, inst.mipMode,
    inst.isDepthCompare)

/-- A new image, before its first use is merged into it. -/
def blank (inst : Instruction) : ImageResource where
  source := inst.memory.resourceSource
  firstUsePc := inst.pc
  kind := inst.memory.kind
  dimension := inst.memory.imageDimension
  mipMode := inst.mipMode
  depthCompare := inst.isDepthCompare

/-- `AddImage`. -/
def addImage (info : ShaderInfo) (inst : Instruction) : Option (ShaderInfo × ℕ) :=
  (KeyedTable.add key ShaderInfo.maxImages (keyOf inst) (merge inst) (merge inst (blank inst))
    info.images).map
    fun (images, i) => ({ info with images }, i)

end ImageResource

/-- `static_cast<int32_t>` of a `uint32_t`. -/
def int32 (x : ℕ) : ℤ := if x < 2 ^ 31 then x else (x : ℤ) - 2 ^ 32

namespace AddressResource

/-- The key of an address. -/
def key (address : AddressResource) : ℕ × ResourceKind × ℕ × Bool :=
  (address.source, address.kind, address.baseRegister, address.runtimeAddress)

/-- The key of the address that an instruction accesses. -/
def keyOf (inst : Instruction) : ℕ × ResourceKind × ℕ × Bool :=
  (inst.memory.resourceSource, inst.memory.kind, inst.memory.resource, inst.memory.runtimeAddress)

/-- `min_offset` of `AddAddress`. -/
def minOffsetOf (inst : Instruction) : ℤ :=
  let immediate := if inst.memory.kind = .scalarBuffer then int32 (inst.memory.offset / 4 * 4)
    else int32 inst.memory.offset
  if inst.memory.resourceSource = ScalarProvenance.unknown then 0 else min immediate 0

/-- What `AddAddress` does with an entry it has found. -/
def merge (inst : Instruction) (address : AddressResource) : AddressResource :=
  { address with
    firstUsePc := min address.firstUsePc inst.pc
    minOffset := min address.minOffset (minOffsetOf inst)
    read := address.read || inst.reads
    written := address.written || isWrite inst.op
    atomic := address.atomic || isAtomic inst.op }

/-- A new address. -/
def fresh (inst : Instruction) : AddressResource where
  source := inst.memory.resourceSource
  firstUsePc := inst.pc
  kind := inst.memory.kind
  baseRegister := inst.memory.resource
  minOffset := minOffsetOf inst
  runtimeAddress := inst.memory.runtimeAddress
  read := inst.reads
  written := isWrite inst.op
  atomic := isAtomic inst.op

/-- `AddAddress`. -/
def addAddress (info : ShaderInfo) (inst : Instruction) : Option (ShaderInfo × ℕ) :=
  (KeyedTable.add key ShaderInfo.maxAddresses (keyOf inst) (merge inst) (fresh inst)
    info.addresses).map
    fun (addresses, i) => ({ info with addresses }, i)

end AddressResource

namespace SamplerResource

/-- The key of a sampler. -/
def key (sampler : SamplerResource) : ℕ := sampler.source

/-- What `AddSampler` does with an entry it has found. -/
def merge (inst : Instruction) (sampler : SamplerResource) : SamplerResource :=
  { sampler with firstUsePc := min sampler.firstUsePc inst.pc }

/-- A new sampler. -/
def fresh (inst : Instruction) : SamplerResource where
  source := inst.memory.samplerSource
  firstUsePc := inst.pc

/-- `AddSampler`. -/
def addSampler (info : ShaderInfo) (inst : Instruction) : Option (ShaderInfo × ℕ) :=
  (KeyedTable.add key ShaderInfo.maxSamplers inst.memory.samplerSource (merge inst) (fresh inst)
    info.samplers).map
    fun (samplers, i) => ({ info with samplers }, i)

end SamplerResource

namespace SampledResourcePair

/-- The key of a pair. -/
def key (pair : SampledResourcePair) : ℕ × ℕ := (pair.image, pair.sampler)

/-- What `AddSampledPair` does with an entry it has found. -/
def merge (pc : ℕ) (pair : SampledResourcePair) : SampledResourcePair :=
  { pair with firstUsePc := min pair.firstUsePc pc }

/-- `AddSampledPair`. -/
def addSampledPair (info : ShaderInfo) (image sampler pc : ℕ) : Option ShaderInfo :=
  (KeyedTable.add key ShaderInfo.maxSampledPairs (image, sampler) (merge pc) ⟨image, sampler, pc⟩
    info.sampledPairs).map
    fun (sampledPairs, _) => { info with sampledPairs }

end SampledResourcePair

/-! ### Collecting -/

/-- `Patch`: the indices that an instruction is given. -/
structure Patch where
  resource : ℕ
  sampler : ℕ
  deriving DecidableEq

/-- What `collect` returns: the tables, the instruction as it has been rewritten in place, and its
patch. -/
structure Collected where
  info : ShaderInfo
  inst : Instruction
  patch : Option Patch
  deriving DecidableEq

/-- The instruction with the source of an earlier load. -/
def Instruction.anchored (inst : Instruction) (source : ℕ) : Instruction :=
  { inst with memory := { inst.memory with
      resourceSource := source
      runtimeAddress := true
      runtimeAddressRegister := inst.memory.resource } }

section Collect

variable (program : Program) (info : ShaderInfo) (inst : Instruction)

/-- The closest earlier address of a load through the same register pair. -/
def anchorOfRegister : Option AddressResource :=
  info.addresses.reverse.find? fun address =>
    address.kind = .scalarBuffer && address.baseRegister = inst.memory.resource &&
      decide (ScalarProvenance.unknown < address.source)

/-- The closest earlier address whose descriptor is the base that the one of the instruction has
been read from. -/
def anchorOfParent : Option AddressResource := do
  let descriptor ← getDescriptorSource program inst.memory.resourceSource
  let (low, high) ← descriptor.values.findSome? program.provenance.findMemoryReadBase
  info.addresses.reverse.find? fun address =>
    match getDescriptorSource program address.source with
    | none => false
    | some anchor =>
      address.kind = .scalarBuffer && decide (2 ≤ anchor.dwordCount) &&
        anchor.dwords[0]? = some low && anchor.dwords[1]? = some high

/-- `unbased` at the start of `Collect`: the address is computed on the GPU. -/
def unbased : Bool :=
  inst.memory.resourceSource = ScalarProvenance.unknown ||
    dynamicDescriptorSource program inst.memory.resourceSource ||
    (inst.memory.kind = .scalarBuffer &&
      descriptorContainsUnknown program inst.memory.resourceSource)

/-- The first part of `Collect`: the instruction with its base, and whether it has none. -/
def resolveBase : Except Reason (Instruction × Bool) :=
  if unbased program inst && inst.op = .sLoadDword && inst.memory.kind = .scalarBuffer then
    match anchorOfRegister info inst <|> anchorOfParent program info inst with
    | some anchor => .ok (inst.anchored anchor.source, false)
    | none => .error (.noAnchor inst.memory.resource)
  else .ok (inst, unbased program inst)

/-- `Collect` of a raw address. -/
def collectAddress : Except Reason Collected := do
  let (inst, unbased) ← resolveBase program info inst
  if !unbased then validateSource program inst.memory.resourceSource 2
  else if inst.memory.kind ≠ .flat ∧ inst.memory.kind ≠ .global ∧ inst.memory.kind ≠ .scratch then
    .error .unresolvedBase
  match AddressResource.addAddress info inst with
  | none => .error .addressLimit
  | some (info, resource) => return { info, inst, patch := some ⟨resource, 0⟩ }

/-- `dynamic` of a scalar buffer load. -/
def dynamicBuffer : Bool :=
  (getDescriptorSource program inst.memory.resourceSource).isNone ||
    dynamicDescriptorSource program inst.memory.resourceSource ||
    descriptorContainsUnknown program inst.memory.resourceSource

/-- The last address of a load through the register pair of a scalar buffer load, with a runtime
address. -/
def bufferAnchor : Option ℕ :=
  (List.range info.addresses.length).reverse.find? fun i =>
    match info.addresses[i]? with
    | none => false
    | some address =>
      address.kind = .scalarBuffer && address.baseRegister = inst.memory.resource * 4 % 2 ^ 32 &&
        address.runtimeAddress

/-- `Collect` of a scalar buffer load whose descriptor is computed on the GPU. -/
def collectDynamicBuffer : Except Reason Collected :=
  match bufferAnchor info inst with
  | none => .error (.noBufferAnchor (inst.memory.resource * 4 % 2 ^ 32))
  | some i =>
    .ok {
      info
      inst := { inst with memory := { inst.memory with
        runtimeAddress := true
        runtimeAddressRegister := inst.memory.resource * 4 % 2 ^ 32 } }
      patch := some ⟨i, 0⟩ }

/-- `Collect` of the sampler of an instruction that has been given the resource. -/
def collectSampler (resource : ℕ) : Except Reason (ShaderInfo × ℕ) :=
  if needsSampler inst.op then do
    validateSource program inst.memory.samplerSource 4
    match SamplerResource.addSampler info inst with
    | none => .error .samplerLimit
    | some (info, sampler) =>
      match SampledResourcePair.addSampledPair info resource sampler inst.pc with
      | none => .error .pairLimit
      | some info => return (info, sampler)
  else .ok (info, 0)

/-- `Collect` of a buffer. -/
def collectBuffer : Except Reason Collected := do
  validateSource program inst.memory.resourceSource 4
  match BufferResource.addBuffer info inst with
  | none => .error .bufferLimit
  | some (info, resource) =>
    let (info, sampler) ← collectSampler program info inst resource
    return { info, inst, patch := some ⟨resource, sampler⟩ }

/-- `Collect` of an image. -/
def collectImage : Except Reason Collected := do
  validateSource program inst.memory.resourceSource 8
  match ImageResource.addImage info inst with
  | none => .error .imageLimit
  | some (info, resource) =>
    let (info, sampler) ← collectSampler program info inst resource
    return { info, inst, patch := some ⟨resource, sampler⟩ }

/-- Which table an instruction uses. -/
inductive Access
  | address
  | dynamicBuffer
  | buffer
  | image
  | none
  deriving DecidableEq

/-- The case distinction of `Collect`. -/
def accessOf : Access :=
  if inst.isAddress then .address
  else if inst.op = .sBufferLoadDword ∧ inst.memory.kind = .scalarBuffer ∧
      dynamicBuffer program inst = true then .dynamicBuffer
  else if inst.isBuffer then .buffer
  else if inst.isImage then .image
  else .none

/-- `Collect`. -/
def collect : Except Reason Collected :=
  match accessOf program inst with
  | .address => collectAddress program info inst
  | .dynamicBuffer => collectDynamicBuffer info inst
  | .buffer => collectBuffer program info inst
  | .image => collectImage program info inst
  | .none => .ok { info, inst, patch := none }

end Collect

/-! ### The run -/

section Run

variable (program : Program)

/-- The loop over the instructions of a block. -/
def collectInstructions :
    ShaderInfo → List Instruction → Except Reason (ShaderInfo × List Collected)
  | info, [] => .ok (info, [])
  | info, inst :: rest => do
    let collected ← collect program info inst
    let (info, others) ← collectInstructions collected.info rest
    return (info, collected :: others)

/-- The loop over the blocks. -/
def collectBlocks :
    ShaderInfo → List (List Instruction) → Except Reason (ShaderInfo × List (List Collected))
  | info, [] => .ok (info, [])
  | info, block :: rest => do
    let (info, collected) ← collectInstructions program info block
    let (info, others) ← collectBlocks info rest
    return (info, collected :: others)

/-- `LinkImageAliases`, of one buffer: the first image whose descriptor starts with the one of the
buffer. -/
def imageAlias (images : List ImageResource) (buffer : BufferResource) : Option ℕ :=
  match getDescriptorSource program buffer.source with
  | none => none
  | some bufferSource =>
    if bufferSource.dwordCount ≠ 4 then none
    else
      images.findIdx? fun image =>
        match getDescriptorSource program image.source with
        | none => false
        | some imageSource =>
          imageSource.dwordCount = 8 && bufferSource.dwords.take 4 = imageSource.dwords.take 4

/-- `LinkImageAliases`. -/
def linkImageAliases (info : ShaderInfo) : ShaderInfo :=
  { info with
    buffers := info.buffers.map fun buffer =>
      { buffer with imageAlias := imageAlias program info.images buffer <|> buffer.imageAlias } }

/-- An instruction with its patch. -/
def Collected.patched (collected : Collected) : Instruction :=
  match collected.patch with
  | none => collected.inst
  | some patch =>
    { collected.inst with memory := { collected.inst.memory with
        resource := patch.resource
        sampler := patch.sampler
        resourceSource := ScalarProvenance.undefined
        samplerSource := ScalarProvenance.undefined } }

/-- `Tracker::Run`, and `TrackResources`. -/
def trackResources : Except Reason Program :=
  if program.resourceTrackingComplete then .error .alreadyTracked
  else if !program.srtPlanComplete then .error .noSrtPlan
  else if !program.srtPatchingComplete then .error .notPatched
  else do
    let (info, blocks) ← collectBlocks program {} program.blocks
    return { program with
      blocks := blocks.map fun block => block.map Collected.patched
      info := linkImageAliases program info
      resourceTrackingComplete := true }

end Run

end Prosperismo.ResourceTracking
