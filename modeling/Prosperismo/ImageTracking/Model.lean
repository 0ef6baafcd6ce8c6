import Prosperismo.PageManager.Watchers
import Prosperismo.PageOwnerIndex.Model

/-!
# The write watchers of images

The texture cache keeps a part `[track_addr, track_addr_end)` of every image under write watchers
of the page manager, so that a CPU write to one of these pages is seen. `TrackImage` and its kind
put the watchers there and take them away; `InvalidateCpuAliases` is what a CPU write does to the
images on its pages. `InsertImage`, `InitializeImage`, `RefreshImage` and `MarkGpuWritten` are here
for what they do to the dirty flags: they are where an image becomes clean.

Addresses are the source's `uint64_t` values read as `ℕ`. A registered image ends at or below
`2 ^ 40`, so a sum does not wrap; the one difference that may is `sub64`. `none` stands for the end
of the program: an `EXIT`, or a fault of the page manager.

The page manager counts the watchers of a page and not whose they are. `Cache.held` is a ghost: it
records for which image a call was made, with one entry for each watcher. `Cache.others` is the
count of all watchers that other parts of the renderer have put there.
-/

namespace Prosperismo.ImageTracking

open PageManager (Manager Call Protection callDelta pageSize pagesOf)
open PageOwnerIndex (ByteRange Index Node)

/-! ### Images -/

variable {τ : Type*}

/-- What an `Image` keeps of its guest memory. The owner ids `ImageId` are left to `τ`. -/
structure Image (τ : Type*) where
  /-- `info.data`. -/
  data : ByteRange
  /-- `info.metadata.compression != VideoOutCompression::Uncompressed`. -/
  compressed : Bool
  /-- `info.samples`. -/
  samples : ℕ
  registered : Bool
  depthId : Option τ
  trackAddr : ℕ
  trackAddrEnd : ℕ
  cpuDirty : Bool
  maybeCpuDirty : Bool
  maybeHashValid : Bool
  maybeCpuHash : UInt64

/-- What a call finds outside of the cache: the host that the page manager asks for protections,
the guest's backing, the hash function, and the node that a registration gets. -/
structure Env where
  accepts : ℕ → ℕ → Protection → Bool
  /-- `LibKernel::Memory::TryReadBacking`. -/
  tryReadBacking : ℕ → ℕ → Option (List UInt8)
  /-- `XXH3_64bits`. -/
  xxh3 : List UInt8 → UInt64
  node : Node

/-- `GuestRange::End`. -/
def rangeEnd (range : ByteRange) : ℕ := range.address + range.size

/-- `GuestRange::Empty`. -/
def rangeEmpty (range : ByteRange) : Bool := decide (range.address = 0 ∨ range.size = 0)

/-- `address & ~(TRACKER_PAGE_SIZE - 1)`. -/
def pageFloor (address : ℕ) : ℕ := address / pageSize * pageSize

/-- A difference of two `uint64_t`. -/
def sub64 (left right : ℕ) : ℕ := (left + 0x10000000000000000 - right) % 0x10000000000000000

/-- What `ImageRangeOverlaps` and `ImagePageRangesOverlap` ask of their ranges. -/
def overlapRangesOk (left leftSize right rightSize : ℕ) : Prop :=
  leftSize ≠ 0 ∧ rightSize ≠ 0 ∧ left ≤ 0xffffffffffffffff - leftSize ∧
    right ≤ 0xffffffffffffffff - rightSize

instance (left leftSize right rightSize : ℕ) :
    Decidable (overlapRangesOk left leftSize right rightSize) :=
  inferInstanceAs (Decidable (_ ∧ _))

/-- `ImageRangeOverlaps`. -/
def imageRangeOverlaps (left leftSize right rightSize : ℕ) : Option Bool :=
  if overlapRangesOk left leftSize right rightSize then
    some (decide (left < right + rightSize ∧ right < left + leftSize))
  else none

/-- `ImagePageRangesOverlap`. -/
def imagePageRangesOverlap (left leftSize right rightSize : ℕ) : Option Bool :=
  if overlapRangesOk left leftSize right rightSize then
    let leftFirst := left / pageSize
    let leftLast := (left + leftSize - 1) / pageSize
    let rightFirst := right / pageSize
    let rightLast := (right + rightSize - 1) / pageSize
    some (decide (leftFirst ≤ rightLast ∧ rightFirst ≤ leftLast))
  else none

namespace Image

variable (image : Image τ)

/-- `IsTracked`. -/
def isTracked : Bool := decide (image.trackAddr ≠ 0 ∧ image.trackAddrEnd ≠ 0)

/-- `IsCpuDirty`. -/
def isCpuDirty : Bool := image.cpuDirty || image.maybeCpuDirty

/-- `Overlaps`, for bytes. -/
def overlaps (address size : ℕ) : Option Bool :=
  imageRangeOverlaps image.data.address image.data.size address size

/-- `InvalidateCpuWrite`. -/
def invalidateCpuWrite (address size : ℕ) : Option (Image τ) :=
  (image.overlaps address size).bind fun overlaps =>
    if overlaps then
      some { image with cpuDirty := true, maybeCpuDirty := false, maybeHashValid := false }
    else
      (imagePageRangesOverlap image.data.address image.data.size address size).map fun pages =>
        if pages then { image with maybeCpuDirty := true } else image

/-- `MarkMaybeCpuDirty`. -/
def markMaybeCpuDirty : Image τ :=
  if !image.cpuDirty then { image with maybeCpuDirty := true } else image

/-- `NeedsMaybeCpuHash`. -/
def needsMaybeCpuHash : Bool := image.maybeCpuDirty && !image.maybeHashValid

/-- `SetMaybeCpuHash`. -/
def setMaybeCpuHash (hash : UInt64) : Option (Image τ) :=
  if image.needsMaybeCpuHash then some { image with maybeCpuHash := hash, maybeHashValid := true }
  else none

/-- `ResolveMaybeCpuHash`. -/
def resolveMaybeCpuHash (hash : UInt64) : Option (Image τ) :=
  if !image.maybeCpuDirty || !image.maybeHashValid || image.cpuDirty then none
  else some { image with
    maybeCpuDirty := false
    maybeHashValid := false
    cpuDirty := image.cpuDirty || hash != image.maybeCpuHash }

/-- `RefreshComplete`. -/
def refreshComplete : Option (Image τ) :=
  if image.isCpuDirty then
    some { image with cpuDirty := false, maybeCpuDirty := false, maybeHashValid := false }
  else none

/-- `HashGuestEdges`: the bytes of the image on the first and the last page, up to and from the
page boundaries. -/
def hashGuestEdges (env : Env) : Option UInt64 :=
  let headEnd := min (rangeEnd image.data) (pageFloor (image.data.address + (pageSize - 1)))
  let tailBegin := max image.data.address (pageFloor (rangeEnd image.data))
  let headSize := headEnd - image.data.address
  let tailAddress := if tailBegin < headEnd then headEnd else tailBegin
  let tailSize := rangeEnd image.data - tailAddress
  (if headSize ≠ 0 then env.tryReadBacking image.data.address headSize else some []).bind
    fun head =>
      (if tailSize ≠ 0 then env.tryReadBacking tailAddress tailSize else some []).map fun tail =>
        env.xxh3 (head ++ tail)

/-- `MarkMaybeCpuDirty`, and the hash where there is none yet. -/
def markWithHash (env : Env) : Option (Image τ) :=
  let image := image.markMaybeCpuDirty
  if image.needsMaybeCpuHash then
    (image.hashGuestEdges env).bind fun hash => image.setMaybeCpuHash hash
  else some image

end Image

/-! ### The cache -/

/-- The part of a `TextureCache` that is about watchers. An id without an image is a slot that is
free, or one that has another generation. -/
structure Cache (τ : Type*) where
  images : τ → Option (Image τ)
  imageOwnerIndex : Index τ
  pageManager : Manager
  /-- The images that have a watcher on a page. -/
  held : ℕ → List τ
  /-- The watchers of a page that are no image's. -/
  others : ℕ → ℤ

/-- A cache without images. -/
def Cache.new : Cache τ := ⟨fun _ => none, .new, .initial, fun _ => [], fun _ => 0⟩

instance (address size page : ℕ) : Decidable (page ∈ pagesOf address size) :=
  inferInstanceAs (Decidable (_ ∧ _))

instance (call : Call) (page : ℕ) : Decidable (page ∈ call.pages) :=
  match call with
  | .updatePageWatchers _ vaddr size => inferInstanceAs (Decidable (page ∈ pagesOf vaddr size))
  | .updatePageWatchersForRegion _ _ _ _ => inferInstanceAs (Decidable (_ ∧ _))

namespace Cache

variable [DecidableEq τ]

/-- Assign the fields of an image. -/
def store (s : Cache τ) (id : τ) (image : Image τ) : Cache τ :=
  { s with images := Function.update s.images id (some image) }

/-- `UpdatePageWatchers` on behalf of an image. -/
def updatePageWatchers (env : Env) (track : Bool) (id : τ) (address size : ℕ) (s : Cache τ) :
    Option (Cache τ) :=
  match PageManager.updatePageWatchers env.accepts track s.pageManager address size with
  | .ok manager => some { s with
      pageManager := manager
      held := fun page =>
        if page ∈ pagesOf address size then
          if track then id :: s.held page else (s.held page).erase id
        else s.held page }
  | .error _ => none

/-- `TrackImageHead`. -/
def trackImageHead (env : Env) (id : τ) (s : Cache τ) : Option (Cache τ) :=
  (s.images id).bind fun image =>
    if !image.registered then some s
    else
      let imageBegin := image.data.address
      if imageBegin = image.trackAddr then some s
      else if !image.isTracked ∨ image.trackAddr < imageBegin then none
      else
        let size := image.trackAddr - imageBegin
        (s.store id { image with trackAddr := imageBegin }).updatePageWatchers env true id
          imageBegin size

/-- `TrackImageTail`. -/
def trackImageTail (env : Env) (id : τ) (s : Cache τ) : Option (Cache τ) :=
  (s.images id).bind fun image =>
    if !image.registered then some s
    else
      let imageEnd := rangeEnd image.data
      if imageEnd = image.trackAddrEnd then some s
      else if !image.isTracked ∨ imageEnd < image.trackAddrEnd then none
      else
        let address := image.trackAddrEnd
        let size := imageEnd - address
        (s.store id { image with trackAddrEnd := imageEnd }).updatePageWatchers env true id
          address size

/-- `TrackImage`. The image is a reference: the tail is compared with what the head has left. -/
def trackImage (env : Env) (id : τ) (s : Cache τ) : Option (Cache τ) :=
  (s.images id).bind fun image =>
    if !image.registered then some s
    else
      let imageBegin := image.data.address
      let imageEnd := rangeEnd image.data
      if imageBegin = image.trackAddr ∧ imageEnd = image.trackAddrEnd then some s
      else if !image.isTracked then
        (s.store id { image with
            trackAddr := imageBegin
            trackAddrEnd := imageEnd }).updatePageWatchers env true id imageBegin image.data.size
      else
        (if imageBegin < image.trackAddr then s.trackImageHead env id else some s).bind fun s =>
          (s.images id).bind fun image =>
            if image.trackAddrEnd < imageEnd then s.trackImageTail env id else some s

/-- `UntrackImage`. -/
def untrackImage (env : Env) (id : τ) (s : Cache τ) : Option (Cache τ) :=
  (s.images id).bind fun image =>
    if !image.isTracked then some s
    else
      let address := image.trackAddr
      let size := sub64 image.trackAddrEnd image.trackAddr
      let s := s.store id { image with trackAddr := 0, trackAddrEnd := 0 }
      if size ≠ 0 then s.updatePageWatchers env false id address size else some s

/-- `UntrackImageHead`. -/
def untrackImageHead (env : Env) (id : τ) (s : Cache τ) : Option (Cache τ) :=
  (s.images id).bind fun image =>
    let begin := image.data.address
    if !image.isTracked ∨ begin < image.trackAddr then some s
    else
      let address := pageFloor (begin + pageSize)
      let size := address - begin
      let image := { image with trackAddr := address }
      (if image.trackAddr = image.trackAddrEnd then
          (image.markWithHash env).bind fun image => (s.store id image).untrackImage env id
        else some (s.store id image)).bind fun s =>
        if size ≠ 0 then s.updatePageWatchers env false id begin size else some s

/-- `UntrackImageTail`. -/
def untrackImageTail (env : Env) (id : τ) (s : Cache τ) : Option (Cache τ) :=
  (s.images id).bind fun image =>
    let imageEnd := rangeEnd image.data
    if !image.isTracked ∨ image.trackAddrEnd < imageEnd then some s
    else
      let address := pageFloor imageEnd
      let size := imageEnd - address
      let image := { image with trackAddrEnd := address }
      (if image.trackAddr = image.trackAddrEnd then
          (image.markWithHash env).bind fun image => (s.store id image).untrackImage env id
        else some (s.store id image)).bind fun s =>
        if size ≠ 0 then s.updatePageWatchers env false id address size else some s

/-- The loop body of `InvalidateCpuAliases`. -/
def invalidateCpuAlias (env : Env) (address size : ℕ) (s : Cache τ) (id : τ) : Option (Cache τ) :=
  let pageBegin := pageFloor address
  let pageEnd := pageFloor (address + size + pageSize - 1)
  match s.images id with
  | none => some s
  | some image =>
    if image.depthId.isSome then some s
    else
      (image.overlaps address size).bind fun overlaps =>
        if overlaps then
          (image.invalidateCpuWrite address size).bind fun image =>
            (s.store id image).untrackImage env id
        else if pageEnd < rangeEnd image.data then s.untrackImageHead env id
        else if image.data.address < pageBegin then s.untrackImageTail env id
        else (image.markWithHash env).bind fun image => (s.store id image).untrackImage env id

/-- `FindImagesInRegion` with `page_overlap`. -/
def findImagesInRegion (address size : ℕ) (s : Cache τ) : List τ :=
  s.imageOwnerIndex.queryCandidates address size fun _ => true

/-- `InvalidateCpuAliases`. -/
def invalidateCpuAliases (env : Env) (address size : ℕ) (s : Cache τ) : Option (Cache τ) :=
  (s.findImagesInRegion address size).foldlM (invalidateCpuAlias env address size) s

/-! ### Where images come from and go to -/

/-- `RegisterImage`. -/
def registerImage (env : Env) (id : τ) (s : Cache τ) : Option (Cache τ) :=
  (s.images id).bind fun image =>
    if image.registered || rangeEmpty image.data then none
    else
      (s.imageOwnerIndex.register env.node id [image.data]).bind fun (index, ok) =>
        if ok then some ({ s with imageOwnerIndex := index }.store id { image with registered := true })
        else none

/-- `InsertImage`, into a slot that is free. -/
def insertImage (env : Env) (id : τ) (data : ByteRange) (compressed : Bool) (samples : ℕ)
    (s : Cache τ) : Option (Cache τ) :=
  if (s.images id).isSome then none
  else
    let s := s.store id
      { data := data, compressed := compressed, samples := samples, registered := false
        depthId := none, trackAddr := 0, trackAddrEnd := 0, cpuDirty := !rangeEmpty data
        maybeCpuDirty := false, maybeHashValid := false, maybeCpuHash := 0 }
    if !rangeEmpty data then s.registerImage env id else some s

/-- `UnregisterImage`. -/
def unregisterImage (env : Env) (id : τ) (s : Cache τ) : Option (Cache τ) :=
  (s.images id).bind fun image =>
    if !image.registered then some s
    else
      (s.untrackImage env id).bind fun s =>
        let (index, ok, _) := s.imageOwnerIndex.unregister id
        (s.images id).bind fun image =>
          if ok then
            some ({ s with imageOwnerIndex := index }.store id { image with registered := false })
          else none

/-- `erase_slot` of `DeleteImage`, which comes after `UnregisterImage`. -/
def eraseSlot (id : τ) (s : Cache τ) : Option (Cache τ) :=
  (s.images id).bind fun image =>
    if image.registered then none else some { s with images := Function.update s.images id none }

/-- `AssociateDepth`. -/
def associateDepth (id depthId : τ) (s : Cache τ) : Option (Cache τ) :=
  (s.images id).map fun image => s.store id { image with depthId := some depthId }

/-! ### Where images become clean -/

/-- `RefreshComplete` if the image is dirty. -/
def completeRefresh (id : τ) (s : Cache τ) : Option (Cache τ) :=
  (s.images id).bind fun image =>
    if image.isCpuDirty then image.refreshComplete.map fun image => s.store id image else some s

/-- `InitializeImage`. -/
def initializeImage (env : Env) (id : τ) (s : Cache τ) : Option (Cache τ) :=
  (s.images id).bind fun image =>
    if rangeEmpty image.data then some s
    else
      (s.trackImage env id).bind fun s =>
        if image.compressed then s.completeRefresh id
        else if 1 < image.samples then some s
        else s.completeRefresh id

/-- The end of `RefreshImage`, from `cpu_dirty` on. -/
def finishRefresh (env : Env) (id : τ) (bufferModified : Bool) (s : Cache τ) : Option (Cache τ) :=
  (s.images id).bind fun image =>
    let cpuDirty := bufferModified || image.cpuDirty
    if image.compressed then if cpuDirty then none else some s
    else if !cpuDirty then some s
    else s.initializeImage env id

/-- `RefreshImage`. Whether a buffer has been written is the buffer cache's to say. -/
def refreshImage (env : Env) (id : τ) (bufferModified : Bool) (s : Cache τ) : Option (Cache τ) :=
  (s.trackImage env id).bind fun s =>
    (s.images id).bind fun image =>
      if image.maybeCpuDirty then
        (image.hashGuestEdges env).bind fun hash =>
          if image.needsMaybeCpuHash then
            (image.setMaybeCpuHash hash).map fun image => s.store id image
          else
            (image.resolveMaybeCpuHash hash).bind fun image =>
              (s.store id image).finishRefresh env id bufferModified
      else s.finishRefresh env id bufferModified

/-- `MarkGpuWritten`, with `CommitGpuWrite`. -/
def markGpuWritten (env : Env) (id : τ) (s : Cache τ) : Option (Cache τ) :=
  (s.images id).bind fun image =>
    if !image.registered ∨ image.depthId.isSome then none
    else (s.trackImage env id).bind fun s => s.completeRefresh id

/-- A call of the page manager for another part of the renderer. -/
def otherCall (env : Env) (call : Call) (s : Cache τ) : Option (Cache τ) :=
  match call.exec env.accepts s.pageManager with
  | .ok manager => some { s with
      pageManager := manager
      others := fun page => s.others page +
        if call.isRead = false ∧ page ∈ call.pages then callDelta call.track else 0 }
  | .error _ => none

end Cache

/-! ### Steps -/

/-- The calls. -/
inductive Event (τ : Type*) where
  | trackImage (id : τ)
  | trackImageHead (id : τ)
  | trackImageTail (id : τ)
  | untrackImage (id : τ)
  | untrackImageHead (id : τ)
  | untrackImageTail (id : τ)
  | invalidateCpuAliases (address size : ℕ)
  | insertImage (id : τ) (data : ByteRange) (compressed : Bool) (samples : ℕ)
  | unregisterImage (id : τ)
  | eraseSlot (id : τ)
  | associateDepth (id depthId : τ)
  | initializeImage (id : τ)
  | refreshImage (id : τ) (bufferModified : Bool)
  | markGpuWritten (id : τ)
  | otherCall (call : Call)

variable [DecidableEq τ]

/-- Executing a call. -/
def Event.exec (env : Env) (s : Cache τ) : Event τ → Option (Cache τ)
  | .trackImage id => s.trackImage env id
  | .trackImageHead id => s.trackImageHead env id
  | .trackImageTail id => s.trackImageTail env id
  | .untrackImage id => s.untrackImage env id
  | .untrackImageHead id => s.untrackImageHead env id
  | .untrackImageTail id => s.untrackImageTail env id
  | .invalidateCpuAliases address size => s.invalidateCpuAliases env address size
  | .insertImage id data compressed samples => s.insertImage env id data compressed samples
  | .unregisterImage id => s.unregisterImage env id
  | .eraseSlot id => s.eraseSlot id
  | .associateDepth id depthId => s.associateDepth id depthId
  | .initializeImage id => s.initializeImage env id
  | .refreshImage id bufferModified => s.refreshImage env id bufferModified
  | .markGpuWritten id => s.markGpuWritten env id
  | .otherCall call => s.otherCall env call

/-- A call that returns. The node of a registration is one that no other has. -/
def Step (s : Cache τ) (e : Event τ) (s' : Cache τ) : Prop :=
  ∃ env : Env, (∀ item ∈ s.imageOwnerIndex.registrations, item.1 ≠ env.node) ∧
    e.exec env s = some s'

end Prosperismo.ImageTracking
