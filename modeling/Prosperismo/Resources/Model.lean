import Mathlib.Data.Nat.Notation
import Prosperismo.Base.Zip

/-!
# Specialization of shader resources

A shader's tracked resources are specialized with the descriptors of one draw
(`specializeResources`): the strides and formats of its buffers, the bases of its addresses,
and the dimension, the component type and the swizzle of its images are fixed and compiled into
the shader. Before the compiled shader is used with the descriptors of another draw, a second
walk over the same resources checks that these still say the same
(`validateResourceSpecialization`).

Fields that neither walk reads or writes are left out.
-/

namespace Prosperismo.Resources

/-! ### Descriptors -/

/-- `DescriptorValue`. -/
structure DescriptorValue where
  dwords : Fin 8 → UInt32
  dwordCount : ℕ

/-- `(word >> shift) & mask`, as a number. -/
def bits (word shift mask : UInt32) : ℕ :=
  ((word >>> shift) &&& mask).toNat

/-- `Decoder::ImageDimension`. -/
inductive ImageDimension
  | unknown
  | dim1D
  | dim1DArray
  | dim2D
  | dim3D
  | dim2DArray
  | dim2DMsaa
  | dim2DMsaaArray
  deriving DecidableEq

/-- The views that have layers. -/
def ImageDimension.isArray (dimension : ImageDimension) : Bool :=
  dimension = .dim1DArray || dimension = .dim2DArray || dimension = .dim2DMsaaArray

/-- The `ImageType` of a descriptor. -/
def imageType (descriptor : DescriptorValue) : ℕ :=
  bits (descriptor.dwords 3) 28 0xf

/-- The view of an image of the type `type` by an instruction that asks for `requested`. -/
def dimensionOf (type : ℕ) (requested : ImageDimension) : ImageDimension :=
  match type with
  | 8 => .dim1D                                                       -- kColor1D
  | 12 => if requested.isArray then .dim1DArray else .dim1D           -- kColor1DArray
  | 10 => .dim3D                                                      -- kColor3D
  | 11 => .dim2DArray                                                 -- kCube
  | 13 => if requested.isArray then .dim2DArray else .dim2D           -- kColor2DArray
  | 15 => if requested.isArray then .dim2DMsaaArray else .dim2DMsaa   -- kColor2DMsaaArray
  | 9 => .dim2D                                                       -- kColor2D
  | 14 => .dim2DMsaa                                                  -- kColor2DMsaa
  | _ => .unknown

/-- `DescriptorDimension`. -/
def descriptorDimension (descriptor : DescriptorValue) (requested : ImageDimension) :
    ImageDimension :=
  dimensionOf (imageType descriptor) requested

/-- `NullImageDescriptor`. -/
def nullImageDescriptor (descriptor : DescriptorValue) : Bool :=
  descriptor.dwords 0 = 0 && descriptor.dwords 1 &&& 0xff = 0

/-- `DescriptorImageSwizzle`. -/
def descriptorImageSwizzle (descriptor : DescriptorValue) : UInt32 :=
  descriptor.dwords 3 &&& 0xfff

/-- `DescriptorIsCube`. -/
def descriptorIsCube (descriptor : DescriptorValue) : Bool :=
  imageType descriptor = 11

/-- The `BufferFormat` of an image descriptor. -/
def imageFormat (descriptor : DescriptorValue) : ℕ :=
  bits (descriptor.dwords 1) 20 0x1ff

/-- `Prospero::IsUintTextureFormat`: the rows of the format table that say so. -/
def isUintTextureFormat (format : ℕ) : Bool :=
  -- k8UInt, k16UInt, k8_8UInt, k32UInt, k16_16UInt, k10_10_10_2UInt, k8_8_8_8UInt, k32_32UInt,
  -- k16_16_16_16UInt, k32_32_32UInt, k32_32_32_32UInt
  [5, 11, 18, 20, 27, 54, 60, 62, 69, 72, 75].contains format

/-- `ShaderBufferResource::PackedStride`. -/
def packedStride (descriptor : DescriptorValue) : ℕ :=
  let word1 := descriptor.dwords 1
  let word3 := descriptor.dwords 3
  bits word1 16 0x3fff ||| (bits word1 31 1 <<< 14) ||| (bits word3 21 3 <<< 16) |||
    (bits word3 23 1 <<< 20)

/-- `ShaderBufferResource::Format`. -/
def bufferFormat (descriptor : DescriptorValue) : ℕ :=
  bits (descriptor.dwords 3) 12 0x7f

/-! ### Resources -/

/-- `ResourceKind`. -/
inductive ResourceKind
  | none
  | scalarBuffer
  | buffer
  | flat
  | global
  | scratch
  | lds
  | gds
  | image
  | imageUint
  | storageImage
  | storageImageUint
  | sampler
  deriving DecidableEq

namespace ResourceKind

/-- The images that are stored to. -/
def isStorage (kind : ResourceKind) : Bool :=
  kind = storageImage || kind = storageImageUint

/-- The images of unsigned integers. -/
def isUint (kind : ResourceKind) : Bool :=
  kind = imageUint || kind = storageImageUint

/-- The four kinds of images. -/
def isImage (kind : ResourceKind) : Bool :=
  kind = image || kind = imageUint || kind = storageImage || kind = storageImageUint

end ResourceKind

/-- `BufferResource`. -/
structure BufferResource where
  packedStride : ℕ
  descriptorFormat : ℕ
  imageAlias : Option ℕ
  deriving DecidableEq

/-- `ImageResource`. -/
structure ImageResource where
  kind : ResourceKind
  dimension : ImageDimension
  storageSwizzle : UInt32
  read : Bool
  atomic : Bool
  depthCompare : Bool
  cube : Bool
  deriving DecidableEq

/-- `AddressResource`; `source` is `none` for `ScalarProvenance::Unknown`. -/
structure AddressResource where
  source : Option ℕ
  kind : ResourceKind
  specializedBase : UInt64
  runtimeAddress : Bool
  deriving DecidableEq

/-- `ShaderInfo`; of the samplers only their number matters. -/
structure ShaderInfo where
  buffers : List BufferResource
  addresses : List AddressResource
  images : List ImageResource
  samplers : ℕ
  deriving DecidableEq

/-- An instruction with the part of its `MemoryInfo` that is specialized. -/
structure Instruction where
  pc : ℕ
  kind : ResourceKind
  resource : ℕ
  imageDimension : ImageDimension
  imageCube : Bool
  deriving DecidableEq

/-- `Program`; of the SRT reads only their number matters. -/
structure Program where
  userDataBase : ℕ
  blocks : List (List Instruction)
  srtReads : ℕ
  info : ShaderInfo
  resourceTrackingComplete : Bool
  shaderInfoComplete : Bool
  bindingLayoutComplete : Bool
  userDataRegisters : List ℕ
  deriving DecidableEq

/-- `ResourceSnapshot::Address`. -/
structure SnapshotAddress where
  guestBase : UInt64
  bindingBase : UInt64

/-- `ResourceSnapshot`. -/
structure ResourceSnapshot where
  buffers : List DescriptorValue
  images : List DescriptorValue
  samplers : List DescriptorValue
  addresses : List SnapshotAddress
  flattenedSrt : List UInt32
  userData : List UInt32

/-! ### Errors -/

/-- What the two walks report. -/
inductive Error
  | notTracked
  | tooLate
  | topology
  | flattenedSrt
  | missingUserSgpr (reg : ℕ)
  | invalidAlias (index image : ℕ)
  | descriptorWidth (kind : String) (index dwords : ℕ)
  | aboveGuestBase (index : ℕ)
  | bufferWidth (index : ℕ)
  | bufferChanged (index : ℕ)
  | nullChanged (index : ℕ)
  | dimensionChanged (index : ℕ) (dwords : Fin 8 → UInt32)
  | swizzleChanged (index : ℕ)
  | formatChanged (index : ℕ)
  | integerDepthCompare (index : ℕ)
  | addressChanged (index : ℕ)
  | unsupportedType (index type : ℕ) (dwords : Fin 8 → UInt32)
  | invalidResource (pc resource : ℕ)

/-- `{:08x}`. -/
def hex08 (n : ℕ) : String :=
  let digits := Nat.toDigits 16 n
  String.ofList (List.replicate (8 - digits.length) '0' ++ digits)

/-- The eight words of a descriptor, as they are reported. -/
def hexDwords (dwords : Fin 8 → UInt32) : String :=
  ",".intercalate ((List.finRange 8).map fun i => hex08 (dwords i).toNat)

/-- The text of an error. -/
def Error.message : Error → String
  | notTracked => "shader resources were not tracked"
  | tooLate => "resource specialization is too late"
  | topology => "resource snapshot does not match dense shader topology"
  | flattenedSrt => "flattened SRT snapshot does not match the shader plan"
  | missingUserSgpr reg => s!"runtime snapshot is missing user SGPR {reg}"
  | invalidAlias index image => s!"buffer resource {index} has invalid image alias {image}"
  | descriptorWidth kind index dwords => s!"{kind} descriptor {index} has {dwords} dwords"
  | aboveGuestBase index => s!"address resource {index} binds above its guest base"
  | bufferWidth index => s!"buffer descriptor {index} has invalid width"
  | bufferChanged index => s!"buffer descriptor {index} no longer matches specialization"
  | nullChanged index =>
    s!"image descriptor {index} no longer matches canonical null specialization"
  | dimensionChanged index dwords =>
    s!"image descriptor {index} no longer matches specialized dimension: {hexDwords dwords}"
  | swizzleChanged index => s!"storage image descriptor {index} changed swizzle"
  | formatChanged index => s!"image descriptor {index} no longer matches specialized format"
  | integerDepthCompare index => s!"integer image descriptor {index} uses depth comparison"
  | addressChanged index => s!"address resource {index} no longer matches specialization"
  | unsupportedType index type dwords =>
    s!"image descriptor {index} has unsupported type {type}: {hexDwords dwords}"
  | invalidResource pc resource =>
    s!"image instruction at pc 0x{hex08 pc} has invalid resource {resource}"

/-- `if (condition) { *error = ...; return false; }`. -/
def failIf (condition : Prop) [Decidable condition] (error : Error) : Except Error Unit :=
  if condition then .error error else .ok ()

@[simp] theorem failIf_ok {condition : Prop} [Decidable condition] {error : Error} {u : Unit} :
    failIf condition error = .ok u ↔ ¬ condition := by
  by_cases h : condition <;> simp [failIf, h]

/-! ### The snapshot -/

/-- `CheckWidth`. -/
def checkWidth (values : List DescriptorValue) (width : ℕ) (kind : String) : Except Error Unit :=
  values.zipIdx.forM fun value =>
    failIf (value.1.dwordCount ≠ width) (.descriptorWidth kind value.2 value.1.dwordCount)

/-- A buffer that aliases an image aliases one of the images. -/
def checkAlias (images : ℕ) : Option ℕ × ℕ → Except Error Unit
  | (none, _) => .ok ()
  | (some image, index) => failIf (images ≤ image) (.invalidAlias index image)

/-- `ValidateResourceSnapshot`. -/
def validateResourceSnapshot (program : Program) (snapshot : ResourceSnapshot) :
    Except Error Unit := do
  failIf (program.resourceTrackingComplete = false) .notTracked
  failIf (snapshot.buffers.length ≠ program.info.buffers.length ∨
    snapshot.images.length ≠ program.info.images.length ∨
    snapshot.samplers.length ≠ program.info.samplers ∨
    snapshot.addresses.length ≠ program.info.addresses.length) .topology
  failIf (snapshot.flattenedSrt.length ≠ program.srtReads) .flattenedSrt
  if program.bindingLayoutComplete then
    program.userDataRegisters.forM fun reg =>
      failIf (reg < program.userDataBase ∨ snapshot.userData.length ≤ reg - program.userDataBase)
        (.missingUserSgpr reg)
  else pure ()
  (program.info.buffers.map BufferResource.imageAlias).zipIdx.forM
    (checkAlias program.info.images.length)
  snapshot.addresses.zipIdx.forM fun address =>
    failIf (address.1.guestBase < address.1.bindingBase) (.aboveGuestBase address.2)
  checkWidth snapshot.buffers 4 "buffer"
  checkWidth snapshot.images 8 "image"
  checkWidth snapshot.samplers 4 "sampler"

/-- `AddressSpecialization`. -/
def addressSpecialization (resource : AddressResource) (snapshot : SnapshotAddress) : UInt64 :=
  if resource.runtimeAddress then 0
  else if resource.kind = .flat ∨ resource.source = none then snapshot.bindingBase
  else snapshot.guestBase - snapshot.bindingBase

/-- `raw_sint_storage` and `IsUintTextureFormat`: whether the image is accessed as unsigned
integers. -/
def uintDescriptor (image : ImageResource) (descriptor : DescriptorValue) : Bool :=
  isUintTextureFormat (imageFormat descriptor) ||
    -- raw stores to k32SInt
    (image.kind.isStorage && imageFormat descriptor = 21 && !image.read && !image.atomic)

/-! ### Specialization -/

/-- A buffer with the facts of its descriptor. -/
def specializeBuffer (index : ℕ) (buffer : BufferResource) (descriptor : DescriptorValue) :
    Except Error BufferResource := do
  failIf (descriptor.dwordCount ≠ 4) (.bufferWidth index)
  return { buffer with
    packedStride := packedStride descriptor, descriptorFormat := bufferFormat descriptor }

/-- An address with its base. -/
def specializeAddress (address : AddressResource) (snapshot : SnapshotAddress) :
    AddressResource :=
  { address with specializedBase := addressSpecialization address snapshot }

/-- The kind of a null image. -/
def nullKind (image : ImageResource) : ResourceKind :=
  match image.kind with
  | .imageUint => .image
  | .storageImageUint => if image.atomic then .storageImageUint else .storageImage
  | kind => kind

/-- The kind of an image of unsigned integers. -/
def uintKind : ResourceKind → ResourceKind
  | .image => .imageUint
  | .storageImage => .storageImageUint
  | kind => kind

/-- An image with the facts of its descriptor. -/
def specializeImage (index : ℕ) (image : ImageResource) (descriptor : DescriptorValue) :
    Except Error ImageResource :=
  if nullImageDescriptor descriptor then
    .ok { image with dimension := .dim2D, cube := false, kind := nullKind image }
  else do
    let dimension := descriptorDimension descriptor image.dimension
    failIf (dimension = .unknown)
      (.unsupportedType index (imageType descriptor) descriptor.dwords)
    return { image with
      dimension := dimension
      cube := descriptorIsCube descriptor
      storageSwizzle :=
        if image.kind.isStorage then descriptorImageSwizzle descriptor else image.storageSwizzle
      kind := if uintDescriptor image descriptor then uintKind image.kind else image.kind }

/-- An image instruction with the facts of its image. -/
def patchInstruction (images : List ImageResource) (inst : Instruction) :
    Except Error Instruction :=
  if inst.kind.isImage then
    match images[inst.resource]? with
    | none => .error (.invalidResource inst.pc inst.resource)
    | some image => .ok { inst with
        kind := image.kind, imageDimension := image.dimension, imageCube := image.cube }
  else
    .ok inst

/-- `SpecializeResources`. -/
def specializeResources (program : Program) (snapshot : ResourceSnapshot) :
    Except Error Program := do
  failIf (program.resourceTrackingComplete = false) .notTracked
  failIf (program.shaderInfoComplete = true ∨ program.bindingLayoutComplete = true) .tooLate
  validateResourceSnapshot program snapshot
  let buffers ← zipMapM specializeBuffer 0 program.info.buffers snapshot.buffers
  let addresses := List.zipWith specializeAddress program.info.addresses snapshot.addresses
  let images ← zipMapM specializeImage 0 program.info.images snapshot.images
  let blocks ← program.blocks.mapM fun block => block.mapM (patchInstruction images)
  return { program with
    blocks := blocks
    info := { program.info with buffers := buffers, addresses := addresses, images := images } }

/-! ### Validation -/

/-- The buffer's descriptor still says what it was specialized with. -/
def validateBuffer (index : ℕ) (buffer : BufferResource) (descriptor : DescriptorValue) :
    Except Error Unit := do
  failIf (descriptor.dwordCount ≠ 4) (.bufferWidth index)
  failIf (buffer.packedStride ≠ packedStride descriptor ∨
    buffer.descriptorFormat ≠ bufferFormat descriptor) (.bufferChanged index)

/-- The image's descriptor still says what it was specialized with. -/
def validateImage (index : ℕ) (image : ImageResource) (descriptor : DescriptorValue) :
    Except Error Unit :=
  if nullImageDescriptor descriptor then
    let canonicalKind :=
      if image.atomic then image.kind = .storageImageUint
      else image.kind = .image ∨ image.kind = .storageImage
    failIf (image.dimension ≠ .dim2D ∨ image.cube = true ∨ ¬ canonicalKind) (.nullChanged index)
  else do
    let dimension := descriptorDimension descriptor image.dimension
    failIf (dimension = .unknown ∨ dimension ≠ image.dimension ∨
      descriptorIsCube descriptor ≠ image.cube) (.dimensionChanged index descriptor.dwords)
    if image.kind.isImage then
      failIf (image.kind.isStorage = true ∧ image.storageSwizzle ≠ descriptorImageSwizzle descriptor)
        (.swizzleChanged index)
      failIf (uintDescriptor image descriptor ≠ image.kind.isUint ∧
        ¬ (image.atomic = true ∧ image.kind.isUint = true)) (.formatChanged index)
      failIf (image.depthCompare = true ∧ image.kind.isUint = true) (.integerDepthCompare index)
    else pure ()

/-- The address still has the base it was specialized with. -/
def validateAddress (index : ℕ) (address : AddressResource) (snapshot : SnapshotAddress) :
    Except Error Unit :=
  failIf (address.specializedBase ≠ addressSpecialization address snapshot) (.addressChanged index)

/-- `ValidateResourceSpecialization`. -/
def validateResourceSpecialization (program : Program) (snapshot : ResourceSnapshot) :
    Except Error Unit := do
  validateResourceSnapshot program snapshot
  zipForM validateBuffer 0 program.info.buffers snapshot.buffers
  zipForM validateImage 0 program.info.images snapshot.images
  zipForM validateAddress 0 program.info.addresses snapshot.addresses

end Prosperismo.Resources
