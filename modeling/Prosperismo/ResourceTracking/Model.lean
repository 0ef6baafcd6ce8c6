import Prosperismo.Base.KeyedTable
import Prosperismo.Resources.Model

/-!
# Resource tracking

`TrackResources` goes through the memory instructions of an IR program, enters the
descriptor source of each one into a table of buffers, images, addresses or samplers, and
replaces the source by the index of the entry. The flags of an entry are merged over all
instructions that share it.

A scalar load whose base is computed on the GPU has no descriptor of its own. It is given
the entry of an earlier load (`resolveBase`), and a scalar buffer load after such a load
uses its entry as well.

The texts of the errors are left out, and so are the fields that tracking neither reads
nor writes. The searches through the values mark what they have seen, and run on a fuel of
one step a value.
-/

namespace Prosperismo.ResourceTracking

open Prosperismo.Resources (ResourceKind ImageDimension)

/-! ### Scalar values -/

/-- `ScalarValueOp`. -/
inductive ScalarValueOp
  | undefined
  | unknown
  | userData
  | constant
  | pcRelativeLow
  | pcRelativeHigh
  | add
  | addCarry
  | carry
  | sub
  | subBorrow
  | borrow
  | mul
  | and
  | andNot
  | or
  | orNot
  | xor
  | not
  | shiftLeft
  | shiftRight
  | shiftRightArithmetic
  | bitFieldMaskU32
  | bitFieldMaskU64Low
  | bitFieldMaskU64High
  | add3
  | shiftLeftAdd
  | shiftLeftAddCarry
  | addShiftLeft
  | xorAdd
  | shiftLeftOr
  | readConst
  | readConstBuffer
  | phi
  deriving DecidableEq

/-- `ScalarValueArgCount`. -/
def scalarValueArgCount : ScalarValueOp → ℕ
  | .not => 1
  | .add | .sub | .mul | .and | .andNot | .or | .orNot | .xor | .shiftLeft | .shiftRight
  | .shiftRightArithmetic | .bitFieldMaskU32 | .bitFieldMaskU64Low | .bitFieldMaskU64High => 2
  | .addCarry | .carry | .subBorrow | .borrow | .add3 | .shiftLeftAdd | .shiftLeftAddCarry
  | .addShiftLeft | .xorAdd | .shiftLeftOr | .readConst => 3
  | .readConstBuffer => 5
  | _ => 0

/-- `ScalarValue`. -/
structure ScalarValue where
  op : ScalarValueOp := .undefined
  args : List ℕ := []
  phiArgs : List ℕ := []
  deriving DecidableEq

/-- The values that a value is computed from. -/
def ScalarValue.operands (value : ScalarValue) : List ℕ :=
  if value.op = .phi then value.phiArgs else value.args.take (scalarValueArgCount value.op)

/-- `DescriptorValue`: the values of its dwords. -/
structure DescriptorValue where
  dwords : List ℕ
  dwordCount : ℕ
  deriving DecidableEq

/-- The dwords of the descriptor that count. -/
def DescriptorValue.values (descriptor : DescriptorValue) : List ℕ :=
  descriptor.dwords.take descriptor.dwordCount

/-- `ScalarProvenance`. -/
structure ScalarProvenance where
  values : List ScalarValue := []
  descriptors : List DescriptorValue := []
  deriving DecidableEq

namespace ScalarProvenance

/-- `ScalarProvenance::Undefined`. -/
def undefined : ℕ := 0

/-- `ScalarProvenance::Unknown`. -/
def unknown : ℕ := 1

variable (provenance : ScalarProvenance)

/-- `id <= Unknown || id >= values.size()`. -/
def isUnknown (id : ℕ) : Bool := decide (id ≤ unknown) || decide (provenance.values.length ≤ id)

/-- The search that `ContainsUnknown`, `FindMemoryReadBase` and `IsLoopInvariantValue` have in
common: the first value in depth-first order that gives an answer. A value that has been seen is
skipped; the second component has seen what it went through. -/
def search {β : Type} (answer : ℕ → Option β) (next : ℕ → List ℕ) :
    ℕ → List ℕ → ℕ → Option β × List ℕ
  | 0, seen, _ => (none, seen)
  | fuel + 1, seen, id =>
    if id ∈ seen then (none, seen)
    else
      match answer id with
      | some b => (some b, seen)
      | none =>
        (next id).foldl (fun found arg =>
          match found.1 with
          | some _ => found
          | none => search answer next fuel found.2 arg) (none, id :: seen)

/-- The search from one value after the other, until one gives an answer. -/
def searchAll {β : Type} (answer : ℕ → Option β) (next : ℕ → List ℕ) (fuel : ℕ) (ids : List ℕ) :
    Option β :=
  (ids.foldl (fun found id =>
    match found.1 with
    | some _ => found
    | none => search answer next fuel found.2 id) (none, [])).1

/-- A search marks a value with each step, or ends. -/
def fuel : ℕ := provenance.values.length + 1

/-- What a value is computed from; nothing, behind the end. -/
def operands (id : ℕ) : List ℕ := ((provenance.values[id]?).map ScalarValue.operands).getD []

/-- `ContainsUnknown`, of one of the values. -/
def containsUnknown (ids : List ℕ) : Bool :=
  (searchAll (fun id => if provenance.isUnknown id then some () else none) provenance.operands
    provenance.fuel ids).isSome

/-- `FindMemoryReadBase`: the base of a value that is read from memory. -/
def findMemoryReadBase (id : ℕ) : Option (ℕ × ℕ) :=
  (search (fun id =>
    match provenance.values[id]? with
    | none => none
    | some value =>
      if value.op = .readConst ∨ value.op = .readConstBuffer then
        some ((value.args[0]?).getD 0, (value.args[1]?).getD 0)
      else none) provenance.operands provenance.fuel [] id).1

/-- The loop over the arguments of a phi in `IsLoopInvariantValue`: the one argument beside the phi
itself, or `none` when there are several. -/
def phiInvariant (id : ℕ) (args : List ℕ) : Option ℕ :=
  args.foldlM (fun invariant arg =>
    if arg = id then some invariant
    else if invariant = undefined then some arg
    else if arg = invariant then some invariant else none) undefined

/-- `IsLoopInvariantValue`, of all the values. -/
def loopInvariant (ids : List ℕ) : Bool :=
  let varies (id : ℕ) : Option Unit :=
    if provenance.isUnknown id then some ()
    else
      match provenance.values[id]? with
      | none => some ()
      | some value =>
        if value.op = .phi then
          match phiInvariant id value.phiArgs with
          | none => some ()
          | some invariant => if invariant = undefined then some () else none
        else none
  let next (id : ℕ) : List ℕ :=
    match provenance.values[id]? with
    | none => []
    | some value =>
      if value.op = .phi then (phiInvariant id value.phiArgs).toList else value.operands
  (searchAll varies next provenance.fuel ids).isNone

/-- `visited` of `ValueResolved`. -/
inductive Mark
  | unvisited
  | inProgress
  | resolved
  | unresolved
  deriving DecidableEq

/-- `ValueResolved`. -/
def valueResolved : ℕ → (ℕ → Mark) → ℕ → Bool × (ℕ → Mark)
  | 0, marks, _ => (false, marks)
  | fuel + 1, marks, id =>
    if provenance.isUnknown id then (false, marks)
    else
      match marks id, provenance.values[id]? with
      | .resolved, _ => (true, marks)
      | .unvisited, some value =>
        let start := !(value.op = .phi && value.phiArgs.isEmpty)
        let marks := fun j => if j = id then .inProgress else marks j
        let (resolved, marks) := value.operands.foldl (fun found arg =>
          if found.1 then valueResolved fuel found.2 arg else found) (start, marks)
        (resolved, fun j =>
          if j = id then (if resolved then .resolved else .unresolved) else marks j)
      | _, _ => (false, marks)

end ScalarProvenance

/-! ### Programs -/

/-- The opcodes that tracking tells apart; `other` is any other. -/
inductive Opcode
  | sLoadDword
  | sBufferLoadDword
  | bufferStoreByte
  | bufferStoreShort
  | bufferStoreDword
  | atomicSwapU32
  | atomicAddU32
  | atomicSubU32
  | atomicSMinI32
  | atomicUMinU32
  | atomicSMaxI32
  | atomicUMaxU32
  | atomicAndU32
  | atomicOrU32
  | atomicXorU32
  | flatStoreByte
  | flatStoreShort
  | flatStoreDword
  | imageGetLod
  | imageStore
  | imageSample
  | imageGather4
  | other (code : ℕ)
  deriving DecidableEq

/-- `MemoryInfo`. -/
structure MemoryInfo where
  kind : ResourceKind := .none
  resource : ℕ := 0
  sampler : ℕ := 0
  offset : ℕ := 0
  dataDwords : ℕ := 1
  dataBits : ℕ := 32
  imageSampleFlags : ℕ := 0
  imageDimension : ImageDimension := .unknown
  resourceSource : ℕ := 0
  samplerSource : ℕ := 0
  formatted : Bool := false
  imageHasMip : Bool := false
  runtimeAddress : Bool := false
  runtimeAddressRegister : ℕ := 2 ^ 32 - 1
  deriving DecidableEq

/-- `Instruction`. -/
structure Instruction where
  pc : ℕ
  op : Opcode
  memory : MemoryInfo
  deriving DecidableEq

/-- `BufferResource`; `none` is `NoImageAlias`. -/
structure BufferResource where
  source : ℕ
  firstUsePc : ℕ
  maxByteExtent : ℕ := 0
  imageAlias : Option ℕ := none
  read : Bool := false
  written : Bool := false
  atomic : Bool := false
  formatted : Bool := false
  scalar : Bool := false
  deriving DecidableEq

/-- `ImageMipMode`. -/
inductive ImageMipMode
  | none
  | dynamicStorage
  deriving DecidableEq

/-- `ImageResource`. -/
structure ImageResource where
  source : ℕ
  firstUsePc : ℕ
  kind : ResourceKind
  dimension : ImageDimension
  mipMode : ImageMipMode
  read : Bool := false
  written : Bool := false
  atomic : Bool := false
  depthCompare : Bool
  deriving DecidableEq

/-- `SamplerResource`. -/
structure SamplerResource where
  source : ℕ
  firstUsePc : ℕ
  deriving DecidableEq

/-- `SampledResourcePair`. -/
structure SampledResourcePair where
  image : ℕ
  sampler : ℕ
  firstUsePc : ℕ
  deriving DecidableEq

/-- `AddressResource`. -/
structure AddressResource where
  source : ℕ
  firstUsePc : ℕ
  kind : ResourceKind
  baseRegister : ℕ
  minOffset : ℤ
  runtimeAddress : Bool
  read : Bool
  written : Bool
  atomic : Bool
  deriving DecidableEq

/-- `ShaderInfo`, with its limits. -/
structure ShaderInfo where
  buffers : List BufferResource := []
  addresses : List AddressResource := []
  images : List ImageResource := []
  samplers : List SamplerResource := []
  sampledPairs : List SampledResourcePair := []
  deriving DecidableEq

namespace ShaderInfo

/-- `MaxBuffers`. -/
def maxBuffers : ℕ := 32

/-- `MaxAddresses`. -/
def maxAddresses : ℕ := 32

/-- `MaxImages`. -/
def maxImages : ℕ := 32

/-- `MaxSamplers`. -/
def maxSamplers : ℕ := 32

/-- `MaxSampledPairs`. -/
def maxSampledPairs : ℕ := 64

end ShaderInfo

/-- `Program`; of the SRT plan only the dynamic sources matter. -/
structure Program where
  blocks : List (List Instruction)
  provenance : ScalarProvenance
  dynamicSources : List ℕ := []
  srtPlanComplete : Bool := true
  srtPatchingComplete : Bool := true
  info : ShaderInfo := {}
  resourceTrackingComplete : Bool := false
  deriving DecidableEq

/-- What `Fail` reports. -/
inductive Reason
  | alreadyTracked
  | noSrtPlan
  | notPatched
  | missingDescriptor (source : ℕ)
  | unknownValue (source : ℕ)
  | gpuSelection (source : ℕ)
  | unresolved (source : ℕ)
  | pairLimit
  | noAnchor (resource : ℕ)
  | unresolvedBase
  | addressLimit
  | noBufferAnchor (baseRegister : ℕ)
  | bufferLimit
  | imageLimit
  | samplerLimit
  deriving DecidableEq

/-! ### Instructions -/

/-- `IsAtomic`. -/
def isAtomic : Opcode → Bool
  | .atomicSwapU32 | .atomicAddU32 | .atomicSubU32 | .atomicSMinI32 | .atomicUMinU32
  | .atomicSMaxI32 | .atomicUMaxU32 | .atomicAndU32 | .atomicOrU32 | .atomicXorU32 => true
  | _ => false

/-- `IsWrite`. -/
def isWrite : Opcode → Bool
  | .bufferStoreByte | .bufferStoreShort | .bufferStoreDword | .imageStore => true
  | op => isAtomic op

/-- `NeedsSampler`. -/
def needsSampler (op : Opcode) : Bool :=
  op = .imageSample || op = .imageGather4 || op = .imageGetLod

/-- `Decoder::ImageSampleFlagCompare`, as the number of the bit. -/
def imageSampleFlagCompare : ℕ := 3

namespace Instruction

variable (inst : Instruction)

/-- `IsDepthCompare`. -/
def isDepthCompare : Bool := inst.memory.imageSampleFlags.testBit imageSampleFlagCompare

/-- `MipMode`. -/
def mipMode : ImageMipMode :=
  if inst.memory.kind.isStorage && inst.memory.imageHasMip then .dynamicStorage else .none

/-- `IsBuffer`. -/
def isBuffer : Bool :=
  inst.memory.kind = .buffer || (inst.memory.kind = .scalarBuffer && inst.op = .sBufferLoadDword)

/-- `IsImage`. -/
def isImage : Bool := inst.memory.kind.isImage

/-- `IsAddress`. -/
def isAddress : Bool :=
  inst.op = .sLoadDword || inst.memory.kind = .flat || inst.memory.kind = .global ||
    inst.memory.kind = .scratch

/-- `end` of `ByteExtent`: the end of the access, a `uint64_t`. -/
def accessEnd : ℕ :=
  inst.memory.offset +
    max ((inst.memory.dataBits + 7) % 2 ^ 32 / 8) 1 * max inst.memory.dataDwords 1

/-- `ByteExtent`: the end, saturated. -/
def byteExtent : ℕ := if 2 ^ 32 - 1 < inst.accessEnd then 2 ^ 32 - 1 else inst.accessEnd

/-- `!IsWrite(inst.op) || IsAtomic(inst.op)`. -/
def reads : Bool := !isWrite inst.op || isAtomic inst.op

end Instruction

end Prosperismo.ResourceTracking
