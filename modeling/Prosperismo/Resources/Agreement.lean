import Mathlib.Data.Fin.VecNotation
import Prosperismo.Resources.Model

/-!
# Specialization and its validation

A program specialized for one draw is used for the next draws too, as long as
`validateResourceSpecialization` accepts their descriptors. The descriptor of a buffer and of an
address is compared with the very words that were compiled in, so there is nothing to prove
beyond the walk itself. An image is compared with its **specialized** resource, and the two
walks could differ: the dimension that is asked for is the instruction's in one walk and the
narrowed one in the other (`dimensionOf_congr`), and the kind is changed by the format.

`validateImage_specializeImage` compares the two for the descriptor an image was specialized
with, `specializeImage_of_validateImage` for the descriptor of another draw, and
`specialization_reused` walks over all resources.
-/

namespace Prosperismo.Resources

/-! ### Images -/

/-- The images that resource tracking collects: an image that is the target of atomics is a
storage image of unsigned integers, and no other image is one of integers yet. -/
def ImageResource.Tracked (image : ImageResource) : Prop :=
  if image.atomic then image.kind = .storageImageUint
  else image.kind = .image ∨ image.kind = .storageImage

/-- The types of images with layers. -/
def IsArrayType (type : ℕ) : Prop :=
  type = 12 ∨ type = 13 ∨ type = 15

/-- Only an image with layers is seen differently by different instructions. -/
theorem dimensionOf_congr {type : ℕ} {requested requested' : ImageDimension}
    (h : IsArrayType type → requested.isArray = requested'.isArray) :
    dimensionOf type requested = dimensionOf type requested' := by
  unfold dimensionOf
  split
  -- the three types with layers ask for the view
  case h_2 => rw [h (.inl rfl)]
  case h_5 => rw [h (.inr (.inl rfl))]
  case h_6 => rw [h (.inr (.inr rfl))]
  all_goals rfl

/-- A view has layers when both the image and the instruction have them; a cube always does. -/
theorem isArray_dimensionOf {type : ℕ} {requested : ImageDimension} :
    (dimensionOf type requested).isArray = true ↔
      type = 11 ∨ IsArrayType type ∧ requested.isArray = true := by
  unfold dimensionOf IsArrayType
  split
  all_goals try (split <;> rename_i h)
  all_goals simp_all [ImageDimension.isArray]

/-- The image is asked for as an array and `descriptor'` has layers, and the view was narrowed
because `descriptor` has none. -/
def Narrowed (image : ImageResource) (descriptor descriptor' : DescriptorValue) : Prop :=
  image.dimension.isArray = true ∧
    nullImageDescriptor descriptor' = false ∧ IsArrayType (imageType descriptor') ∧
    (nullImageDescriptor descriptor = true ∨ ¬ IsArrayType (imageType descriptor))

/-- Depths are compared in an image of integers. -/
def IntegerDepthCompare (image : ImageResource) (descriptor : DescriptorValue) : Prop :=
  nullImageDescriptor descriptor = false ∧ image.depthCompare = true ∧
    (image.kind.isUint = true ∨ uintDescriptor image descriptor = true)

/-- Whether a view is supported does not depend on the instruction. -/
theorem dimensionOf_eq_unknown {type : ℕ} {requested : ImageDimension}
    (requested' : ImageDimension) (h : dimensionOf type requested = .unknown) :
    dimensionOf type requested' = .unknown := by
  rw [← h]
  apply dimensionOf_congr
  -- an image with layers has a view for every instruction
  intro htype
  rcases htype with rfl | rfl | rfl <;> cases hrequested : requested.isArray <;>
    simp [dimensionOf, hrequested] at h

/-- Changing the kind to the one of integers keeps what is stored to. -/
theorem isStorage_uintKind (kind : ResourceKind) :
    (uintKind kind).isStorage = kind.isStorage := by
  cases kind <;> rfl

/-- How an image is accessed does not depend on its view or its swizzle. -/
theorem uintDescriptor_congr {image image' : ImageResource} (descriptor : DescriptorValue)
    (hkind : image'.kind.isStorage = image.kind.isStorage) (hread : image'.read = image.read)
    (hatomic : image'.atomic = image.atomic) :
    uintDescriptor image' descriptor = uintDescriptor image descriptor := by
  rw [uintDescriptor, uintDescriptor, hkind, hread, hatomic]

theorem ImageResource.Tracked.cases {image : ImageResource} (h : image.Tracked) :
    image.atomic = true ∧ image.kind = .storageImageUint ∨
      image.atomic = false ∧ (image.kind = .image ∨ image.kind = .storageImage) := by
  unfold ImageResource.Tracked at h
  split at h
  · exact .inl ⟨‹_›, h⟩
  · exact .inr ⟨Bool.eq_false_iff.2 ‹_›, h⟩

/-- A null descriptor leaves the kind of a tracked image as it is. -/
theorem ImageResource.Tracked.nullKind_eq {image : ImageResource} (h : image.Tracked) :
    nullKind image = image.kind := by
  rcases h.cases with ⟨hatomic, hkind⟩ | ⟨hatomic, hkind | hkind⟩ <;>
    simp [nullKind, hatomic, hkind]

theorem ImageResource.Tracked.isImage {image : ImageResource} (h : image.Tracked) :
    image.kind.isImage = true := by
  rcases h.cases with ⟨hatomic, hkind⟩ | ⟨hatomic, hkind | hkind⟩ <;>
    rw [hkind] <;> rfl

/-- The image specialized with a descriptor that is not null. -/
def viewOf (image : ImageResource) (descriptor : DescriptorValue) : ImageResource :=
  { image with
    dimension := descriptorDimension descriptor image.dimension
    cube := descriptorIsCube descriptor
    storageSwizzle :=
      if image.kind.isStorage then descriptorImageSwizzle descriptor else image.storageSwizzle
    kind := if uintDescriptor image descriptor then uintKind image.kind else image.kind }

/-- The canonical null image. -/
def nullView (image : ImageResource) : ImageResource :=
  { image with dimension := .dim2D, cube := false, kind := nullKind image }

theorem specializeImage_null {index : ℕ} {image : ImageResource} {descriptor : DescriptorValue}
    (hnull : nullImageDescriptor descriptor = true) :
    specializeImage index image descriptor = .ok (nullView image) := by
  rw [specializeImage, if_pos hnull, nullView]

theorem specializeImage_view {index : ℕ} {image image' : ImageResource}
    {descriptor : DescriptorValue} (hnull : nullImageDescriptor descriptor = false) :
    specializeImage index image descriptor = .ok image' ↔
      descriptorDimension descriptor image.dimension ≠ .unknown ∧
        viewOf image descriptor = image' := by
  rw [specializeImage, if_neg (by simp [hnull])]
  simp only [bind_ok, pure_ok, failIf_ok, viewOf]
  constructor
  · rintro ⟨_, hknown, hview⟩
    exact ⟨hknown, hview⟩
  · rintro ⟨hknown, hview⟩
    exact ⟨(), hknown, hview⟩

/-- What the check of a null descriptor asks for is that the image is again as it was tracked. -/
theorem validateImage_null {index : ℕ} {image : ImageResource} {descriptor : DescriptorValue}
    (hnull : nullImageDescriptor descriptor = true) :
    validateImage index image descriptor = .ok () ↔
      image.dimension = .dim2D ∧ image.cube = false ∧ image.Tracked := by
  rw [validateImage, if_pos hnull, failIf_ok]
  unfold ImageResource.Tracked
  grind

theorem validateImage_view {index : ℕ} {image : ImageResource} {descriptor : DescriptorValue}
    (hnull : nullImageDescriptor descriptor = false) (himage : image.kind.isImage = true) :
    validateImage index image descriptor = .ok () ↔
      (descriptorDimension descriptor image.dimension ≠ .unknown ∧
        descriptorDimension descriptor image.dimension = image.dimension ∧
        descriptorIsCube descriptor = image.cube) ∧
      (image.kind.isStorage = true → image.storageSwizzle = descriptorImageSwizzle descriptor) ∧
      (uintDescriptor image descriptor = image.kind.isUint ∨
        image.atomic = true ∧ image.kind.isUint = true) ∧
      ¬ (image.depthCompare = true ∧ image.kind.isUint = true) := by
  rw [validateImage, if_neg (by simp [hnull])]
  simp only [himage, if_true, bind_ok, failIf_ok]
  grind

/-! #### What a view keeps -/

section ViewOf

variable {image : ImageResource} {descriptor : DescriptorValue}

theorem viewOf_isStorage : (viewOf image descriptor).kind.isStorage = image.kind.isStorage := by
  unfold viewOf
  split
  · exact isStorage_uintKind _
  · rfl

theorem viewOf_isImage (htracked : image.Tracked) :
    (viewOf image descriptor).kind.isImage = true := by
  unfold viewOf
  split
  · rcases htracked.cases with ⟨_, hkind⟩ | ⟨_, hkind | hkind⟩ <;> simp only [hkind] <;> rfl
  · exact htracked.isImage

/-- The view is one of integers when the image was or the format is. -/
theorem viewOf_isUint (htracked : image.Tracked) :
    (viewOf image descriptor).kind.isUint =
      (image.kind.isUint || uintDescriptor image descriptor) := by
  unfold viewOf
  rcases htracked.cases with ⟨_, hkind⟩ | ⟨_, hkind | hkind⟩ <;>
    cases uintDescriptor image descriptor <;> simp only [hkind] <;> rfl

theorem uintDescriptor_viewOf (descriptor' : DescriptorValue) :
    uintDescriptor (viewOf image descriptor) descriptor' = uintDescriptor image descriptor' :=
  uintDescriptor_congr descriptor' viewOf_isStorage rfl rfl

/-- Narrowing a view again changes nothing. -/
theorem dimension_viewOf :
    descriptorDimension descriptor (viewOf image descriptor).dimension =
      (viewOf image descriptor).dimension := by
  show dimensionOf (imageType descriptor) (dimensionOf (imageType descriptor) image.dimension) =
    dimensionOf (imageType descriptor) image.dimension
  apply dimensionOf_congr
  intro htype
  have hcube : imageType descriptor ≠ 11 := by
    rcases htype with h | h | h <;> rw [h] <;> decide
  rw [Bool.eq_iff_iff, isArray_dimensionOf]
  simp [hcube, htype]

end ViewOf

/-- **An image and its own descriptor.** The check accepts the descriptor a tracked image was
specialized with, unless depths are compared in an image of integers. -/
theorem validateImage_specializeImage {index : ℕ} {image image' : ImageResource}
    {descriptor : DescriptorValue} (htracked : image.Tracked)
    (h : specializeImage index image descriptor = .ok image') :
    validateImage index image' descriptor = .ok () ↔ ¬ IntegerDepthCompare image descriptor := by
  cases hnull : nullImageDescriptor descriptor with
  | true =>
    -- the kind of a null image is the tracked one, which is canonical
    rw [specializeImage_null hnull] at h
    cases h
    have hkind : (nullView image).Tracked := by
      unfold ImageResource.Tracked nullView
      rw [htracked.nullKind_eq]
      exact htracked
    rw [validateImage_null hnull]
    simp only [IntegerDepthCompare, hnull, Bool.true_eq_false, false_and, not_false_eq_true,
      iff_true]
    exact ⟨rfl, rfl, hkind⟩
  | false =>
    obtain ⟨hknown, rfl⟩ := (specializeImage_view hnull).1 h
    rw [validateImage_view hnull (viewOf_isImage htracked), dimension_viewOf,
      uintDescriptor_viewOf, viewOf_isUint htracked, viewOf_isStorage]
    have hswizzle : image.kind.isStorage = true →
        (viewOf image descriptor).storageSwizzle = descriptorImageSwizzle descriptor := by
      intro hstorage
      simp [viewOf, hstorage]
    -- an image of integers with another format is the target of atomics
    have hformat : uintDescriptor image descriptor =
          (image.kind.isUint || uintDescriptor image descriptor) ∨
        image.atomic = true ∧
          (image.kind.isUint || uintDescriptor image descriptor) = true := by
      rcases htracked.cases with ⟨hatomic, hkind⟩ | ⟨_, hkind | hkind⟩
      · exact .inr ⟨hatomic, by rw [hkind]; rfl⟩
      · exact .inl (by rw [hkind]; rfl)
      · exact .inl (by rw [hkind]; rfl)
    constructor
    · rintro ⟨-, -, -, hdepth⟩ ⟨-, hcompare, huint⟩
      exact hdepth ⟨hcompare, by simpa using huint⟩
    · intro hdepth
      refine ⟨⟨hknown, rfl, rfl⟩, hswizzle, hformat, ?_⟩
      rintro ⟨hcompare, huint⟩
      exact hdepth ⟨hnull, hcompare, by simpa using huint⟩

/-- The image as its variant of the shader sees it: a null image has no data, and the order of
its channels is not looked at. -/
def imageVariant (image : ImageResource) (descriptor : DescriptorValue) : ImageResource :=
  if nullImageDescriptor descriptor then { image with storageSwizzle := 0 } else image

/-- What specialization keeps of an image, whatever the descriptor. -/
structure KeepsAccess (image image' : ImageResource) : Prop where
  read : image'.read = image.read
  atomic : image'.atomic = image.atomic
  depthCompare : image'.depthCompare = image.depthCompare
  kind : image'.kind = image.kind ∨ image'.kind = uintKind image.kind
  swizzle : image.kind.isStorage = false → image'.storageSwizzle = image.storageSwizzle

namespace KeepsAccess

variable {index : ℕ} {image image' : ImageResource} {descriptor : DescriptorValue}

theorem of_specializeImage (htracked : image.Tracked)
    (h : specializeImage index image descriptor = .ok image') : KeepsAccess image image' := by
  cases hnull : nullImageDescriptor descriptor with
  | true =>
    rw [specializeImage_null hnull] at h
    cases h
    exact ⟨rfl, rfl, rfl, .inl htracked.nullKind_eq, fun _ => rfl⟩
  | false =>
    obtain ⟨-, rfl⟩ := (specializeImage_view hnull).1 h
    refine ⟨rfl, rfl, rfl, ?_, fun hstorage => ?_⟩
    · show (if _ then _ else _) = _ ∨ (if _ then _ else _) = _
      split
      · exact .inr rfl
      · exact .inl rfl
    · simp [viewOf, hstorage]

variable (hkeeps : KeepsAccess image image')
include hkeeps

theorem isStorage : image'.kind.isStorage = image.kind.isStorage := by
  rcases hkeeps.kind with h | h <;> rw [h]
  exact isStorage_uintKind _

theorem isImage (htracked : image.Tracked) : image'.kind.isImage = true := by
  rcases hkeeps.kind with h | h <;> rw [h]
  · exact htracked.isImage
  · rcases htracked.cases with ⟨_, hkind⟩ | ⟨_, hkind | hkind⟩ <;> rw [hkind] <;> rfl

/-- The kind is the one a format of integers asks for, or the other one. -/
theorem kind_eq (htracked : image.Tracked) {uint : Bool}
    (huint : uint = image'.kind.isUint ∨ image'.atomic = true ∧ image'.kind.isUint = true) :
    image'.kind = if uint then uintKind image.kind else image.kind := by
  rcases htracked.cases with ⟨_, hkind⟩ | ⟨hatomic, hkind⟩
  · -- the target of atomics has only one kind
    have hfixed : uintKind image.kind = image.kind := by rw [hkind]; rfl
    rw [hfixed, ite_self]
    rcases hkeeps.kind with h | h
    · exact h
    · rw [h, hfixed]
  · have hformat : uint = image'.kind.isUint := by
      rcases huint with h | ⟨h, -⟩
      · exact h
      · rw [hkeeps.atomic, hatomic] at h
        cases h
    subst hformat
    rcases hkeeps.kind with h | h <;> rcases hkind with hkind | hkind <;> rw [h, hkind] <;> rfl

/-- An image that is tracked again has its kind of before. -/
theorem kind_eq_of_tracked (htracked : image.Tracked) (htracked' : image'.Tracked) :
    image'.kind = image.kind := by
  rcases htracked'.cases with ⟨hatomic', hkind'⟩ | ⟨-, hkind'⟩
  · rcases htracked.cases with ⟨-, hkind⟩ | ⟨hatomic, -⟩
    · rw [hkind', hkind]
    · rw [hkeeps.atomic, hatomic] at hatomic'
      cases hatomic'
  · have hnotuint : image'.kind.isUint = false := by
      rcases hkind' with h | h <;> rw [h] <;> rfl
    have huint : false = image'.kind.isUint ∨
        image'.atomic = true ∧ image'.kind.isUint = true := .inl hnotuint.symm
    exact hkeeps.kind_eq htracked huint

end KeepsAccess

/-- A view that was not narrowed is the view the instruction asks for. -/
theorem dimension_of_not_narrowed {image : ImageResource} {descriptor descriptor' : DescriptorValue}
    {view : ImageDimension} (hnull : nullImageDescriptor descriptor' = false)
    (hview : (nullImageDescriptor descriptor = true ∧ view = .dim2D) ∨
      (nullImageDescriptor descriptor = false ∧
        view = descriptorDimension descriptor image.dimension ∧
        (imageType descriptor = 11 ↔ imageType descriptor' = 11)))
    (hnarrowed : ¬ Narrowed image descriptor descriptor') :
    descriptorDimension descriptor' image.dimension = descriptorDimension descriptor' view := by
  apply dimensionOf_congr
  intro htype'
  have hcube' : imageType descriptor' ≠ 11 := by
    rcases htype' with h | h | h <;> rw [h] <;> decide
  rcases hview with ⟨hnull', rfl⟩ | ⟨hnull', rfl, hcube⟩
  · cases harray : image.dimension.isArray with
    | true => exact absurd ⟨harray, hnull, htype', .inl hnull'⟩ hnarrowed
    | false => rfl
  · rw [Bool.eq_iff_iff, descriptorDimension, isArray_dimensionOf]
    constructor
    · intro harray
      by_cases htype : IsArrayType (imageType descriptor)
      · exact .inr ⟨htype, harray⟩
      · exact absurd ⟨harray, hnull, htype', .inr htype⟩ hnarrowed
    · rintro (htype | ⟨-, harray⟩)
      · exact absurd (hcube.1 htype) hcube'
      · exact harray

/-- **An image and another descriptor.** When the check accepts a descriptor for an image that
was specialized with another one, the image could have been specialized with it, and had been
the same unless the view was narrowed. -/
theorem specializeImage_of_validateImage {index : ℕ} {image image' : ImageResource}
    {descriptor descriptor' : DescriptorValue} (htracked : image.Tracked)
    (h : specializeImage index image descriptor = .ok image')
    (hvalid : validateImage index image' descriptor' = .ok ()) :
    ∃ image'', specializeImage index image descriptor' = .ok image'' ∧
      (¬ Narrowed image descriptor descriptor' →
        imageVariant image'' descriptor' = imageVariant image' descriptor' ∧
          image''.kind = image'.kind ∧ image''.dimension = image'.dimension ∧
          image''.cube = image'.cube) := by
  have hkeeps := KeepsAccess.of_specializeImage htracked h
  cases hnull' : nullImageDescriptor descriptor' with
  | true =>
    obtain ⟨hdimension, hcube, htracked'⟩ := (validateImage_null hnull').1 hvalid
    have hkind : image'.kind = nullKind image :=
      (hkeeps.kind_eq_of_tracked htracked htracked').trans htracked.nullKind_eq.symm
    refine ⟨_, specializeImage_null hnull', fun _ => ⟨?_, hkind.symm, hdimension.symm, hcube.symm⟩⟩
    rw [imageVariant, imageVariant, if_pos hnull', if_pos hnull']
    obtain ⟨hread, hatomic, hdepth, -, -⟩ := hkeeps
    cases image'
    simp_all [nullView]
  | false =>
    obtain ⟨⟨hknown, hdimension, hcube⟩, hswizzle, hformat, -⟩ :=
      (validateImage_view hnull' (hkeeps.isImage htracked)).1 hvalid
    -- the view is supported whatever the instruction asks for
    have hknown' : descriptorDimension descriptor' image.dimension ≠ .unknown := fun hunknown =>
      hknown (dimensionOf_eq_unknown _ hunknown)
    refine ⟨_, (specializeImage_view hnull').2 ⟨hknown', rfl⟩, fun hnarrowed => ?_⟩
    have hview : descriptorDimension descriptor' image.dimension = image'.dimension := by
      rw [← hdimension]
      apply dimension_of_not_narrowed hnull' ?_ hnarrowed
      cases hnull : nullImageDescriptor descriptor with
      | true =>
        rw [specializeImage_null hnull] at h
        cases h
        exact .inl ⟨rfl, rfl⟩
      | false =>
        obtain ⟨-, rfl⟩ := (specializeImage_view hnull).1 h
        refine .inr ⟨rfl, rfl, ?_⟩
        have : descriptorIsCube descriptor' = descriptorIsCube descriptor := hcube
        simpa [descriptorIsCube] using (Bool.eq_iff_iff.1 this).symm
    have hkind : image'.kind = (viewOf image descriptor').kind := by
      apply hkeeps.kind_eq htracked
      rw [← uintDescriptor_congr descriptor' hkeeps.isStorage hkeeps.read hkeeps.atomic]
      exact hformat
    have hchannels : (viewOf image descriptor').storageSwizzle = image'.storageSwizzle := by
      show (if image.kind.isStorage then _ else _) = _
      split
      · exact (hswizzle (hkeeps.isStorage.trans ‹_›)).symm
      · exact (hkeeps.swizzle (Bool.eq_false_iff.2 ‹_›)).symm
    have hsame : viewOf image descriptor' = image' := by
      obtain ⟨hread, hatomic, hdepth, -, -⟩ := hkeeps
      cases image'
      simp_all [viewOf]
    rw [hsame]
    exact ⟨rfl, rfl, rfl, rfl⟩

/-! ### Buffers and addresses -/

section BuffersAndAddresses

variable {index : ℕ}

/-- A buffer is compared with the words it was specialized with. -/
theorem validateBuffer_specializeBuffer {buffer buffer' : BufferResource}
    {descriptor descriptor' : DescriptorValue}
    (h : specializeBuffer index buffer descriptor = .ok buffer') :
    validateBuffer index buffer' descriptor' = .ok () ↔
      specializeBuffer index buffer descriptor' = .ok buffer' := by
  simp only [specializeBuffer, bind_ok, pure_ok, failIf_ok] at h
  obtain ⟨-, -, rfl⟩ := h
  simp only [validateBuffer, specializeBuffer, bind_ok, pure_ok, failIf_ok, exists_and_left]
  grind

/-- An address is compared with the base it was specialized with. -/
theorem validateAddress_specializeAddress {address : AddressResource}
    {snapshot snapshot' : SnapshotAddress} :
    validateAddress index (specializeAddress address snapshot) snapshot' = .ok () ↔
      specializeAddress address snapshot' = specializeAddress address snapshot := by
  rw [validateAddress, failIf_ok, not_not]
  show addressSpecialization address snapshot = addressSpecialization address snapshot' ↔ _
  simp only [specializeAddress, AddressResource.mk.injEq, true_and, and_true]
  exact eq_comm

end BuffersAndAddresses

/-! ### Programs -/

/-- A program whose images come from resource tracking. -/
def Program.Materialized (program : Program) : Prop :=
  ∀ image ∈ program.info.images, image.Tracked

/-- The variant of the shader that is specialized, as the descriptors of a draw see it. -/
def Program.variant (program : Program) (snapshot : ResourceSnapshot) : Program :=
  { program with
    info := { program.info with
      images := List.zipWith imageVariant program.info.images snapshot.images } }

/-- The check of a snapshot reads nothing that is specialized. -/
theorem validateResourceSnapshot_congr {program program' : Program} (snapshot : ResourceSnapshot)
    (hcomplete : program'.resourceTrackingComplete = program.resourceTrackingComplete)
    (hbuffers : program'.info.buffers.map BufferResource.imageAlias =
      program.info.buffers.map BufferResource.imageAlias)
    (himages : program'.info.images.length = program.info.images.length)
    (hsamplers : program'.info.samplers = program.info.samplers)
    (haddresses : program'.info.addresses.length = program.info.addresses.length)
    (hreads : program'.srtReads = program.srtReads)
    (hlayout : program'.bindingLayoutComplete = program.bindingLayoutComplete)
    (hregisters : program'.userDataRegisters = program.userDataRegisters)
    (hbase : program'.userDataBase = program.userDataBase) :
    validateResourceSnapshot program' snapshot = validateResourceSnapshot program snapshot := by
  have hlength : program'.info.buffers.length = program.info.buffers.length := by
    have := congrArg List.length hbuffers
    simpa using this
  simp only [validateResourceSnapshot, hcomplete, hbuffers, himages, hsamplers, haddresses, hreads,
    hlayout, hregisters, hbase, hlength]

/-- A snapshot that is accepted has a descriptor for every resource. -/
theorem validateResourceSnapshot_lengths {program : Program} {snapshot : ResourceSnapshot}
    (h : validateResourceSnapshot program snapshot = .ok ()) :
    program.info.buffers.length = snapshot.buffers.length ∧
      program.info.images.length = snapshot.images.length ∧
      program.info.addresses.length = snapshot.addresses.length := by
  simp only [validateResourceSnapshot, bind_ok, failIf_ok] at h
  obtain ⟨-, -, -, htopology, -⟩ := h
  push Not at htopology
  exact ⟨htopology.1.symm, htopology.2.1.symm, htopology.2.2.2.symm⟩

/-- The program with its specialized parts. -/
def Program.withResources (program : Program) (blocks : List (List Instruction))
    (buffers : List BufferResource) (addresses : List AddressResource)
    (images : List ImageResource) : Program :=
  { program with
    blocks := blocks
    info := { program.info with buffers := buffers, addresses := addresses, images := images } }

/-- **What specialization does.** -/
theorem specializeResources_ok {program program' : Program} {snapshot : ResourceSnapshot} :
    specializeResources program snapshot = .ok program' ↔
      program.resourceTrackingComplete = true ∧
      ¬ (program.shaderInfoComplete = true ∨ program.bindingLayoutComplete = true) ∧
      validateResourceSnapshot program snapshot = .ok () ∧
      ∃ buffers images blocks,
        zipMapM specializeBuffer 0 program.info.buffers snapshot.buffers = .ok buffers ∧
        zipMapM specializeImage 0 program.info.images snapshot.images = .ok images ∧
        program.blocks.mapM (fun block => block.mapM (patchInstruction images)) = .ok blocks ∧
        program.withResources blocks buffers
          (List.zipWith specializeAddress program.info.addresses snapshot.addresses) images =
          program' := by
  simp only [specializeResources, bind_ok, pure_ok, failIf_ok, Program.withResources]
  constructor
  · rintro ⟨-, hcomplete, -, hlate, ⟨⟩, hsnapshot, buffers, hbuffers, images, himages, blocks,
      hblocks, hprogram⟩
    exact ⟨by simpa using hcomplete, hlate, hsnapshot, buffers, images, blocks, hbuffers, himages,
      hblocks, hprogram⟩
  · rintro ⟨hcomplete, hlate, hsnapshot, buffers, images, blocks, hbuffers, himages, hblocks,
      hprogram⟩
    exact ⟨(), by simp [hcomplete], (), hlate, (), hsnapshot, buffers, hbuffers, images, himages,
      blocks, hblocks, hprogram⟩

/-! ### Reuse of a variant -/

/-- A check of every position, for a list that was made by a walk. -/
theorem zipForM_zipMapM {α β γ : Type} {f : ℕ → α → β → Except Error γ}
    {check : ℕ → γ → β → Except Error Unit} {as : List α} {bs bs' : List β} {cs : List γ}
    (hlen : as.length = bs.length) (h : zipMapM f 0 as bs = .ok cs) :
    zipForM check 0 cs bs' = .ok () ↔
      ∀ i a b b' c, as[i]? = some a → bs[i]? = some b → bs'[i]? = some b' → cs[i]? = some c →
        f i a b = .ok c → check i c b' = .ok () := by
  obtain ⟨hlength, hall⟩ := (zipMapM_ok hlen).1 h
  rw [zipForM_ok]
  simp only [Nat.zero_add] at hall ⊢
  constructor
  · intro hcheck i a b b' c _ _ hb' hc _
    exact hcheck i c b' hc hb'
  · intro hcheck i c b' hc hb'
    -- what is at a position of the result was made from what is there in the two lists
    have hi : i < as.length := hlength ▸ (List.getElem?_eq_some_iff.1 hc).1
    have ha : as[i]? = some as[i] := List.getElem?_eq_getElem hi
    have hb : bs[i]? = some bs[i] := List.getElem?_eq_getElem (hlen ▸ hi)
    obtain ⟨c', hc', hf⟩ := hall i _ _ ha hb
    cases hc.symm.trans hc'
    exact hcheck i _ _ b' c ha hb hb' hc hf

section Reuse

variable {program specialized : Program} {snapshot : ResourceSnapshot}

/-- The snapshot is checked against the same resources before and after. -/
theorem validateResourceSnapshot_specialized
    (h : specializeResources program snapshot = .ok specialized) (snapshot' : ResourceSnapshot) :
    validateResourceSnapshot specialized snapshot' =
      validateResourceSnapshot program snapshot' := by
  obtain ⟨-, -, hsnapshot, buffers, images, blocks, hbuffers, himages, -, rfl⟩ :=
    specializeResources_ok.1 h
  obtain ⟨hlenB, hlenI, hlenA⟩ := validateResourceSnapshot_lengths hsnapshot
  obtain ⟨hlengthB, hallB⟩ := (zipMapM_ok hlenB).1 hbuffers
  obtain ⟨hlengthI, -⟩ := (zipMapM_ok hlenI).1 himages
  apply validateResourceSnapshot_congr <;> try rfl
  · -- a buffer keeps the image it aliases
    show buffers.map _ = program.info.buffers.map _
    apply List.ext_getElem (by simpa using hlengthB)
    intro i hi hi'
    rw [List.length_map] at hi hi'
    obtain ⟨buffer, hbuffer, hspecialized⟩ := hallB i _ _ (List.getElem?_eq_getElem hi')
      (List.getElem?_eq_getElem (hlenB ▸ hi'))
    rw [List.getElem_map, List.getElem_map, (List.getElem?_eq_some_iff.1 hbuffer).2]
    simp only [specializeBuffer, bind_ok, pure_ok] at hspecialized
    obtain ⟨-, -, rfl⟩ := hspecialized
    rfl
  · exact hlengthI
  · show (List.zipWith _ _ _).length = _
    rw [List.length_zipWith, hlenA, Nat.min_self]

/-- **The check, resource by resource.** After its snapshot, the check of a specialized program
looks at every buffer, image and address by itself. -/
theorem validateResourceSpecialization_ok
    (h : specializeResources program snapshot = .ok specialized) (snapshot' : ResourceSnapshot) :
    validateResourceSpecialization specialized snapshot' = .ok () ↔
      validateResourceSnapshot program snapshot' = .ok () ∧
      (∀ (i : ℕ) buffer descriptor descriptor' buffer', program.info.buffers[i]? = some buffer →
        snapshot.buffers[i]? = some descriptor → snapshot'.buffers[i]? = some descriptor' →
        specialized.info.buffers[i]? = some buffer' →
        specializeBuffer i buffer descriptor = .ok buffer' →
        validateBuffer i buffer' descriptor' = .ok ()) ∧
      (∀ (i : ℕ) image descriptor descriptor' image', program.info.images[i]? = some image →
        snapshot.images[i]? = some descriptor → snapshot'.images[i]? = some descriptor' →
        specialized.info.images[i]? = some image' →
        specializeImage i image descriptor = .ok image' →
        validateImage i image' descriptor' = .ok ()) ∧
      ∀ (i : ℕ) address base base', program.info.addresses[i]? = some address →
        snapshot.addresses[i]? = some base → snapshot'.addresses[i]? = some base' →
        validateAddress i (specializeAddress address base) base' = .ok () := by
  have hsame := validateResourceSnapshot_specialized h snapshot'
  obtain ⟨-, -, hsnapshot, buffers, images, blocks, hbuffers, himages, -, rfl⟩ :=
    specializeResources_ok.1 h
  obtain ⟨hlenB, hlenI, -⟩ := validateResourceSnapshot_lengths hsnapshot
  simp only [validateResourceSpecialization, hsame, bind_ok]
  show (∃ _, _ ∧ ∃ _, zipForM validateBuffer 0 buffers snapshot'.buffers = _ ∧ ∃ _,
    zipForM validateImage 0 images snapshot'.images = _ ∧ zipForM validateAddress 0
      (List.zipWith specializeAddress program.info.addresses snapshot.addresses)
        snapshot'.addresses = _) ↔ _
  simp only [zipForM_zipMapM hlenB hbuffers, zipForM_zipMapM hlenI himages, zipForM_ok,
    Nat.zero_add, exists_and_left, exists_const, List.getElem?_zipWith_eq_some]
  constructor
  · rintro ⟨⟨⟩, hvalid, hB, hI, hA⟩
    refine ⟨hvalid, hB, hI, fun i address base base' haddress hbase hbase' => ?_⟩
    exact hA i _ base' ⟨address, haddress, base, hbase, rfl⟩ hbase'
  · rintro ⟨hvalid, hB, hI, hA⟩
    refine ⟨(), hvalid, hB, hI, ?_⟩
    rintro i _ base' ⟨address, haddress, base, hbase, rfl⟩ hbase'
    exact hA i address base base' haddress hbase hbase'

/-- An instruction is patched with an image of any kind when it is with another. -/
theorem patchInstruction_of_length {images images' : List ImageResource}
    (hlength : images'.length = images.length) {inst inst' : Instruction}
    (h : patchInstruction images inst = .ok inst') :
    ∃ inst'', patchInstruction images' inst = .ok inst'' := by
  unfold patchInstruction at h ⊢
  split
  · rw [if_pos ‹_›] at h
    split at h
    · cases h
    · rename_i image himage
      have hi : inst.resource < images'.length :=
        hlength ▸ (List.getElem?_eq_some_iff.1 himage).1
      rw [List.getElem?_eq_getElem hi]
      exact ⟨_, rfl⟩
  · exact ⟨_, rfl⟩

/-- Instructions see of an image its kind, its dimension and whether it is a cube. -/
theorem patchInstruction_congr {images images' : List ImageResource}
    (hlength : images'.length = images.length)
    (h : ∀ (i : ℕ) (image image' : ImageResource), images[i]? = some image →
      images'[i]? = some image' → image'.kind = image.kind ∧ image'.dimension = image.dimension ∧ image'.cube = image.cube) :
    patchInstruction images' = patchInstruction images := by
  funext inst
  unfold patchInstruction
  by_cases hi : inst.resource < images.length
  · have hi' : inst.resource < images'.length := hlength ▸ hi
    obtain ⟨hkind, hdimension, hcube⟩ := h inst.resource _ _ (List.getElem?_eq_getElem hi)
      (List.getElem?_eq_getElem hi')
    rw [List.getElem?_eq_getElem hi, List.getElem?_eq_getElem hi']
    simp only [hkind, hdimension, hcube]
  · rw [List.getElem?_eq_none (by omega), List.getElem?_eq_none (by omega)]

theorem exists_getElem?_of_length {α β : Type} {as : List α} {bs : List β} {i : ℕ} {a : α}
    (hlen : as.length = bs.length) (ha : as[i]? = some a) : ∃ b, bs[i]? = some b :=
  ⟨_, List.getElem?_eq_getElem (hlen ▸ (List.getElem?_eq_some_iff.1 ha).1)⟩

/-- Two lists specialized with two snapshots are equal when they are at every position. -/
theorem zipWith_eq_of_length {α β γ : Type} {f : α → β → γ} {as as' : List α} {bs bs' : List β}
    (has : as'.length = as.length) (hbs : bs'.length = bs.length)
    (h : ∀ (i : ℕ) a a' b b', as[i]? = some a → as'[i]? = some a' → bs[i]? = some b →
      bs'[i]? = some b' → f a' b' = f a b) :
    List.zipWith f as' bs' = List.zipWith f as bs := by
  apply List.ext_getElem
  · simp only [List.length_zipWith, has, hbs]
  · intro i hi' hi
    rw [List.length_zipWith, Nat.lt_min] at hi hi'
    rw [List.getElem_zipWith, List.getElem_zipWith]
    exact h i _ _ _ _ (List.getElem?_eq_getElem hi.1) (List.getElem?_eq_getElem hi'.1)
      (List.getElem?_eq_getElem hi.2) (List.getElem?_eq_getElem hi'.2)

/-- **Reuse of a specialized shader.** A program specialized with a snapshot is accepted for
that snapshot, unless it compares depths in an image of integers; and a snapshot it is accepted
for is one the program can be specialized with, to the same variant wherever no view was
narrowed for the lack of layers. -/
theorem specialization_reused (hprogram : program.Materialized)
    (h : specializeResources program snapshot = .ok specialized) :
    (validateResourceSpecialization specialized snapshot = .ok () ↔
      ∀ (i : ℕ) image descriptor, program.info.images[i]? = some image →
        snapshot.images[i]? = some descriptor → ¬ IntegerDepthCompare image descriptor) ∧
    ∀ snapshot', validateResourceSpecialization specialized snapshot' = .ok () →
      ∃ specialized', specializeResources program snapshot' = .ok specialized' ∧
        ((∀ (i : ℕ) image descriptor descriptor', program.info.images[i]? = some image →
          snapshot.images[i]? = some descriptor → snapshot'.images[i]? = some descriptor' →
          ¬ Narrowed image descriptor descriptor') →
        specialized'.variant snapshot' = specialized.variant snapshot') := by
  have hcheck := validateResourceSpecialization_ok h
  obtain ⟨hcomplete, hlate, hsnapshot, buffers, images, blocks, hbuffers, himages, hblocks, rfl⟩ :=
    specializeResources_ok.1 h
  obtain ⟨hlenB, hlenI, hlenA⟩ := validateResourceSnapshot_lengths hsnapshot
  obtain ⟨hlengthB, hallB⟩ := (zipMapM_ok hlenB).1 hbuffers
  obtain ⟨hlengthI, hallI⟩ := (zipMapM_ok hlenI).1 himages
  simp only [Nat.zero_add] at hallB hallI
  have htracked : ∀ {i : ℕ} {image : ImageResource}, program.info.images[i]? = some image → image.Tracked :=
    fun himage => hprogram _ (List.mem_of_getElem? himage)
  constructor
  · rw [hcheck]
    constructor
    · rintro ⟨-, -, hI, -⟩ i image descriptor himage hdescriptor
      obtain ⟨image', himage', hspecialized⟩ := hallI i image descriptor himage hdescriptor
      exact (validateImage_specializeImage (htracked himage) hspecialized).1
        (hI i image descriptor descriptor image' himage hdescriptor hdescriptor himage'
          hspecialized)
    · intro hcompare
      refine ⟨hsnapshot, ?_, ?_, ?_⟩
      · intro i buffer descriptor descriptor' buffer' _ hdescriptor hdescriptor' _ hspecialized
        cases hdescriptor.symm.trans hdescriptor'
        exact (validateBuffer_specializeBuffer hspecialized).2 hspecialized
      · intro i image descriptor descriptor' image' himage hdescriptor hdescriptor' _ hspecialized
        cases hdescriptor.symm.trans hdescriptor'
        exact (validateImage_specializeImage (htracked himage) hspecialized).2
          (hcompare i image descriptor himage hdescriptor)
      · intro i address base base' _ hbase hbase'
        cases hbase.symm.trans hbase'
        exact validateAddress_specializeAddress.2 rfl
  · intro snapshot' hvalid
    obtain ⟨hsnapshot', hB, hI, hA⟩ := (hcheck snapshot').1 hvalid
    obtain ⟨hlenB', hlenI', hlenA'⟩ := validateResourceSnapshot_lengths hsnapshot'
    have hbuffers' : zipMapM specializeBuffer 0 program.info.buffers snapshot'.buffers =
        .ok buffers := by
      refine (zipMapM_ok hlenB').2 ⟨hlengthB, fun i buffer descriptor' hbuffer hdescriptor' => ?_⟩
      obtain ⟨descriptor, hdescriptor⟩ := exists_getElem?_of_length hlenB hbuffer
      obtain ⟨buffer', hbuffer', hspecialized⟩ := hallB i buffer descriptor hbuffer hdescriptor
      rw [Nat.zero_add]
      exact ⟨buffer', hbuffer', (validateBuffer_specializeBuffer hspecialized).1
        (hB i buffer descriptor descriptor' buffer' hbuffer hdescriptor hdescriptor' hbuffer'
          hspecialized)⟩
    have haddresses' : List.zipWith specializeAddress program.info.addresses snapshot'.addresses =
        List.zipWith specializeAddress program.info.addresses snapshot.addresses := by
      apply zipWith_eq_of_length rfl (hlenA'.symm.trans hlenA)
      intro i address address' base base' haddress haddress' hbase hbase'
      cases haddress.symm.trans haddress'
      exact validateAddress_specializeAddress.1 (hA i address base base' haddress hbase hbase')
    -- every image can be specialized again
    have himage : ∀ (i : ℕ) image descriptor', program.info.images[i]? = some image →
        snapshot'.images[i]? = some descriptor' →
        ∃ descriptor image' image'', snapshot.images[i]? = some descriptor ∧
          images[i]? = some image' ∧ specializeImage i image descriptor' = .ok image'' ∧
          (¬ Narrowed image descriptor descriptor' →
            imageVariant image'' descriptor' = imageVariant image' descriptor' ∧
              image''.kind = image'.kind ∧ image''.dimension = image'.dimension ∧
              image''.cube = image'.cube) := by
      intro i image descriptor' himage hdescriptor'
      obtain ⟨descriptor, hdescriptor⟩ := exists_getElem?_of_length hlenI himage
      obtain ⟨image', himage', hspecialized⟩ := hallI i image descriptor himage hdescriptor
      obtain ⟨image'', hspecialized', hsame⟩ := specializeImage_of_validateImage (htracked himage)
        hspecialized (hI i image descriptor descriptor' image' himage hdescriptor hdescriptor'
          himage' hspecialized)
      exact ⟨descriptor, image', image'', hdescriptor, himage', hspecialized', hsame⟩
    have hexists : ∃ images', zipMapM specializeImage 0 program.info.images snapshot'.images =
        .ok images' := by
      apply exists_zipMapM_ok hlenI'
      intro i image descriptor' hi hdescriptor'
      obtain ⟨-, -, image'', -, -, hspecialized', -⟩ := himage i image descriptor' hi hdescriptor'
      exact ⟨image'', by rwa [Nat.zero_add]⟩
    obtain ⟨images', himages'⟩ := hexists
    obtain ⟨hlengthI', hallI'⟩ := (zipMapM_ok hlenI').1 himages'
    simp only [Nat.zero_add] at hallI'
    have hlengths : images'.length = images.length := hlengthI'.trans hlengthI.symm
    have hexists : ∃ blocks', program.blocks.mapM
        (fun block => block.mapM (patchInstruction images')) = .ok blocks' :=
      exists_mapM_ok (fun _ _ => exists_mapM_ok fun _ _ => patchInstruction_of_length hlengths)
        hblocks
    obtain ⟨blocks', hblocks'⟩ := hexists
    refine ⟨_, specializeResources_ok.2 ⟨hcomplete, hlate, hsnapshot', buffers, images', blocks',
      hbuffers', himages', hblocks', rfl⟩, fun hnarrowed => ?_⟩
    -- where no view was narrowed the images are the same, and so are the instructions
    have hsame : ∀ (i : ℕ) image' image'' descriptor', images[i]? = some image' →
        images'[i]? = some image'' → snapshot'.images[i]? = some descriptor' →
        imageVariant image'' descriptor' = imageVariant image' descriptor' ∧
          image''.kind = image'.kind ∧ image''.dimension = image'.dimension ∧
          image''.cube = image'.cube := by
      intro i image' image'' descriptor' himage' himage'' hdescriptor'
      obtain ⟨image, hi⟩ := exists_getElem?_of_length hlengthI himage'
      obtain ⟨descriptor, _, _, hdescriptor, heq, hspecialized', hsame⟩ :=
        himage i image descriptor' hi hdescriptor'
      cases himage'.symm.trans heq
      obtain ⟨_, heq, hspecialized⟩ := hallI' i image descriptor' hi hdescriptor'
      cases himage''.symm.trans heq
      cases hspecialized.symm.trans hspecialized'
      exact hsame (hnarrowed i image descriptor descriptor' hi hdescriptor hdescriptor')
    have hpatch : patchInstruction images' = patchInstruction images := by
      apply patchInstruction_congr hlengths
      intro i image' image'' himage' himage''
      obtain ⟨descriptor', hdescriptor'⟩ :=
        exists_getElem?_of_length (hlengthI.trans hlenI') himage'
      exact (hsame i image' image'' descriptor' himage' himage'' hdescriptor').2
    have hvariants : List.zipWith imageVariant images' snapshot'.images =
        List.zipWith imageVariant images snapshot'.images := by
      apply zipWith_eq_of_length hlengths rfl
      intro i image' image'' descriptor' _ himage' himage'' hdescriptor' heq
      cases hdescriptor'.symm.trans heq
      exact (hsame i image' image'' descriptor' himage' himage'' hdescriptor').1
    rw [hpatch, hblocks] at hblocks'
    cases hblocks'
    simp only [Program.variant, Program.withResources, haddresses', hvariants]

end Reuse

/-! ### A layered image after a plain one -/

/-- An image that is loaded from, or sampled with a comparison of depths. -/
def arrayImage (kind : ResourceKind) (dimension : ImageDimension) (depthCompare : Bool) :
    ImageResource where
  kind := kind
  dimension := dimension
  storageSwizzle := 0xfac
  read := true
  atomic := false
  depthCompare := depthCompare
  cube := false

/-- A shader whose only instruction uses an `arrayImage`. -/
def arrayProgram (kind : ResourceKind) (dimension : ImageDimension) (depthCompare : Bool) :
    Program where
  userDataBase := 0
  blocks := [[⟨0, kind, 0, dimension, false⟩]]
  srtReads := 0
  info := ⟨[], [], [arrayImage kind dimension depthCompare], 0⟩
  resourceTrackingComplete := true
  shaderInfoComplete := false
  bindingLayoutComplete := false
  userDataRegisters := []

/-- The image of `arrayProgram` with the words 1 and 3 of its descriptor. -/
def arraySnapshot (word1 word3 : UInt32) : ResourceSnapshot where
  buffers := []
  images := [⟨![0x1000, word1, 0, word3, 0, 0, 0, 0], 8⟩]
  samplers := []
  addresses := []
  flattenedSrt := []
  userData := []

theorem arrayProgram_materialized (dimension : ImageDimension) (depthCompare : Bool) :
    (arrayProgram .image dimension depthCompare).Materialized := by
  intro image himage
  rw [List.mem_singleton.1 himage]
  exact .inl rfl

/-- The variant for a `kColor2D` image is a variant for every other `kColor2D` image. -/
theorem specialization_reused_color2D :
    (arrayProgram .image .dim2DArray false).Materialized ∧
    specializeResources (arrayProgram .image .dim2DArray false) (arraySnapshot 0 0x90000000) =
      .ok (arrayProgram .image .dim2D false) ∧
    ∃ specialized',
      specializeResources (arrayProgram .image .dim2DArray false) (arraySnapshot 0 0x90000fff) =
        .ok specialized' ∧
      specialized'.variant (arraySnapshot 0 0x90000fff) =
        (arrayProgram .image .dim2D false).variant (arraySnapshot 0 0x90000fff) := by
  have hspecialized : specializeResources (arrayProgram .image .dim2DArray false)
      (arraySnapshot 0 0x90000000) = .ok (arrayProgram .image .dim2D false) := rfl
  have hmaterialized := arrayProgram_materialized .dim2DArray false
  refine ⟨hmaterialized, hspecialized, ?_⟩
  obtain ⟨specialized', hspecialized', hvariant⟩ :=
    (specialization_reused hmaterialized hspecialized).2 (arraySnapshot 0 0x90000fff) rfl
  refine ⟨specialized', hspecialized', hvariant ?_⟩
  rintro i image descriptor descriptor' - - hdescriptor' ⟨-, -, htype, -⟩
  -- the other image has no layers either
  have hi : descriptor' = ⟨![0x1000, 0, 0, 0x90000fff, 0, 0, 0, 0], 8⟩ :=
    List.mem_singleton.1 (List.mem_of_getElem? hdescriptor')
  subst hi
  exact absurd htype (by unfold IsArrayType; decide)

/-- **The walks disagree**: the variant for a `kColor2D` image is accepted for a
`kColor2DArray` image, for which the shader is specialized with an array view; and a shader that
compares depths is specialized with an image of integers that is then refused. -/
theorem specialization_disagrees :
    ((arrayProgram .image .dim2DArray false).Materialized ∧
      specializeResources (arrayProgram .image .dim2DArray false) (arraySnapshot 0 0x90000000) =
        .ok (arrayProgram .image .dim2D false) ∧
      validateResourceSpecialization (arrayProgram .image .dim2D false)
        (arraySnapshot 0 0xd0000000) = .ok () ∧
      specializeResources (arrayProgram .image .dim2DArray false) (arraySnapshot 0 0xd0000000) =
        .ok (arrayProgram .image .dim2DArray false) ∧
      (arrayProgram .image .dim2DArray false).variant (arraySnapshot 0 0xd0000000) ≠
        (arrayProgram .image .dim2D false).variant (arraySnapshot 0 0xd0000000)) ∧
    (arrayProgram .image .dim2DArray true).Materialized ∧
    specializeResources (arrayProgram .image .dim2DArray true)
      (arraySnapshot 0x01400000 0xd0000000) = .ok (arrayProgram .imageUint .dim2DArray true) ∧
    validateResourceSpecialization (arrayProgram .imageUint .dim2DArray true)
      (arraySnapshot 0x01400000 0xd0000000) = .error (.integerDepthCompare 0) :=
  ⟨⟨arrayProgram_materialized _ _, rfl, rfl, rfl, by decide⟩,
    arrayProgram_materialized _ _, rfl, rfl⟩

end Prosperismo.Resources
