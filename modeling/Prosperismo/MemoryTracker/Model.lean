import Prosperismo.PageManager.Calls

/-!
# The memory tracker

The model of `src/graphics/host_gpu/memoryTracker.{h,cpp}` and `regionManager.h`: for
every 4 MiB region that was ever touched, which of its pages the CPU and which the GPU
has written, and the watchers that the page manager is asked to keep on them.

A region carries two bit sets (`m_cpu_dirty`, `m_gpu_dirty`) and two shadow sets
(`m_writable`, `m_readable`), the state that the page manager was last told about. The
difference of a set and its shadow is what a change sends to the page manager.

The mutexes make every operation one step, so a run is a sequence of operations. A
callback is given by what it does: the operations it performs in its turn. Calls that
other clients make to the shared page manager are steps of their own, and the state
remembers them (`System.others`) to tell their watchers from the tracker's.

`EXIT` ends the process: the operation returns an error.
-/

namespace Prosperismo.MemoryTracker

open PageManager (Manager RegionBits Protection pageSize regionSize regionPages addressSize
  updatePageWatchersForRegion)

/-- `DirtySource`. -/
inductive DirtySource where
  | cpu
  | gpu
deriving DecidableEq, Repr

/-- The reasons for which the tracker ends the process. -/
inductive Fault where
  /-- One of the page manager's own. -/
  | pageManager (fault : PageManager.Fault)
  /-- "invalid memory tracker range". -/
  | invalidRange (vaddr size : ℕ)
  /-- "invalid region tracking manager construction". -/
  | invalidRegionBase (cpuAddr : ℕ)
  /-- "range lies outside its tracking region". -/
  | outsideRegion (vaddr size : ℕ)
  /-- "CPU dirty state conflicts with GPU dirty state", and the converse. -/
  | conflict (source : DirtySource)
  /-- "cannot untrack GPU-dirty memory". -/
  | untrackingGpuDirty
  /-- "memory invalidation retained GPU-owned pages". -/
  | retainedGpuPages
  /-- "memory tracker re-entered from upload callback". -/
  | reentered
deriving DecidableEq, Repr

/-! ### Bit sets -/

/-- `BitArray(other, start, end)`: the bits of a range. -/
def slice (bits : RegionBits) (first last : ℕ) : RegionBits :=
  if first ≥ last ∨ last > regionPages then fun _ => false
  else fun i => decide (first ≤ i) && decide (i < last) && bits i

/-- `BitArray::SetRange`. -/
def setRange (bits : RegionBits) (first last : ℕ) : RegionBits :=
  if first ≥ last ∨ last > regionPages then bits
  else fun i => decide (first ≤ i) && decide (i < last) || bits i

/-- `BitArray::UnsetRange`. -/
def unsetRange (bits : RegionBits) (first last : ℕ) : RegionBits :=
  if first ≥ last ∨ last > regionPages then bits
  else fun i => !(decide (first ≤ i) && decide (i < last)) && bits i

/-- `BitArray::Any`. -/
def any (bits : RegionBits) : Bool := decide (∃ i, bits i = true)

/-- `operator^`. -/
def symmDiff (bits bits' : RegionBits) : RegionBits := fun i => xor (bits i) (bits' i)

/-- `operator~`. -/
def complement (bits : RegionBits) : RegionBits := fun i => !bits i

/-- `BitArray::FirstRangeFrom`. -/
def firstRangeFrom (bits : RegionBits) (start : ℕ) : ℕ × ℕ :=
  if start ≥ regionPages then (regionPages, regionPages)
  else
    let first := bits.scan true start (regionPages - start)
    (first, bits.scan false first (regionPages - first))

/-- The iterator of a `BitArray` from `start` on; the number bounds the ranges. -/
def rangesFrom (bits : RegionBits) : ℕ → ℕ → List (ℕ × ℕ)
  | 0, _ => []
  | fuel + 1, start =>
    let range := firstRangeFrom bits start
    if range = (regionPages, regionPages) then []
    else range :: rangesFrom bits fuel range.2

/-! ### Regions -/

/-- `RegionManager`. -/
structure RegionManager where
  cpuAddr : ℕ
  cpuDirty : RegionBits
  gpuDirty : RegionBits
  writable : RegionBits
  readable : RegionBits

/-- The constructor of `RegionManager`. -/
def RegionManager.create (cpuAddr : ℕ) : Except Fault RegionManager :=
  if cpuAddr % regionSize ≠ 0 then .error (.invalidRegionBase cpuAddr)
  else
    .ok {
      cpuAddr := cpuAddr
      cpuDirty := fun _ => true
      gpuDirty := fun _ => false
      writable := fun _ => true
      readable := fun _ => true }

/-- `GetBits<source>`. -/
def RegionManager.getBits (source : DirtySource) (region : RegionManager) : RegionBits :=
  match source with
  | .cpu => region.cpuDirty
  | .gpu => region.gpuDirty

/-- Writing the bits that `GetBits<source>` refers to. -/
def RegionManager.setBits (source : DirtySource) (region : RegionManager) (bits : RegionBits) :
    RegionManager :=
  match source with
  | .cpu => { region with cpuDirty := bits }
  | .gpu => { region with gpuDirty := bits }

/-- `GetPageRange`. -/
def getPageRange (region : RegionManager) (vaddr size : ℕ) : Except Fault (ℕ × ℕ) :=
  if size = 0 ∨ vaddr < region.cpuAddr ∨ vaddr ≥ region.cpuAddr + regionSize ∨
      size > region.cpuAddr + regionSize - vaddr then
    .error (.outsideRegion vaddr size)
  else
    let offset := vaddr - region.cpuAddr
    .ok (offset / pageSize, (offset + size + pageSize - 1) / pageSize)

/-- `ForEachRange`: the byte ranges of the runs of set bits. -/
def forEachRange (region : RegionManager) (bits : RegionBits) : List (ℕ × ℕ) :=
  (rangesFrom bits regionPages 0).map fun range =>
    (region.cpuAddr + range.1 * pageSize, (range.2 - range.1) * pageSize)

/-- `IsModified<source>`. -/
def isModified (source : DirtySource) (region : RegionManager) (offset size : ℕ) :
    Except Fault Bool := do
  let range ← getPageRange region (region.cpuAddr + offset) size
  return any (slice (region.getBits source) range.1 range.2)

section Host

variable (accepts : ℕ → ℕ → Protection → Bool)

/-- A call that the tracker makes to the page manager. -/
def watch (track isRead : Bool) (manager : Manager) (cpuAddr : ℕ) (mask : RegionBits) :
    Except Fault Manager :=
  if any mask then
    (updatePageWatchersForRegion accepts track isRead manager cpuAddr mask).mapError .pageManager
  else .ok manager

/-- `UpdateCpuProtection<track>`. -/
def updateCpuProtection (track : Bool) (manager : Manager) (region : RegionManager) :
    Except Fault (Manager × RegionManager) := do
  let mask := symmDiff region.cpuDirty region.writable
  let manager ← watch accepts track false manager region.cpuAddr mask
  return (manager, { region with writable := region.cpuDirty })

/-- `UpdateGpuProtection<track>`. -/
def updateGpuProtection (track : Bool) (manager : Manager) (region : RegionManager) :
    Except Fault (Manager × RegionManager) := do
  let readable := complement region.gpuDirty
  let mask := symmDiff readable region.readable
  let manager ← watch accepts track true manager region.cpuAddr mask
  return (manager, { region with readable := readable })

/-- The protection update after the bits of `source` were set or unset. -/
def updateProtection (source : DirtySource) (enable : Bool) (manager : Manager)
    (region : RegionManager) : Except Fault (Manager × RegionManager) :=
  match source with
  | .cpu => updateCpuProtection accepts (!enable) manager region
  | .gpu => updateGpuProtection accepts enable manager region

/-- The source whose dirty pages stand in the way of setting those of `source`. -/
def DirtySource.other : DirtySource → DirtySource
  | .cpu => .gpu
  | .gpu => .cpu

/-- `ChangeState<source, enable>`. -/
def changeState (source : DirtySource) (enable : Bool) (manager : Manager)
    (region : RegionManager) (vaddr size : ℕ) : Except Fault (Manager × RegionManager) := do
  let range ← getPageRange region vaddr size
  if enable && any (slice (region.getBits source.other) range.1 range.2) then
    throw (.conflict source)
  let bits := region.getBits source
  let bits := if enable then setRange bits range.1 range.2 else unsetRange bits range.1 range.2
  updateProtection accepts source enable manager (region.setBits source bits)

/-- `ForEachModifiedRange<source, clear>`, with the ranges that its callback is given. -/
def forEachModifiedRange (source : DirtySource) (clear : Bool) (manager : Manager)
    (region : RegionManager) (vaddr size : ℕ) :
    Except Fault ((Manager × RegionManager) × List (ℕ × ℕ)) := do
  let range ← getPageRange region vaddr size
  let mask := slice (region.getBits source) range.1 range.2
  if clear then
    let updated ← updateProtection accepts source false manager
      (region.setBits source (unsetRange (region.getBits source) range.1 range.2))
    return (updated, forEachRange region mask)
  else return ((manager, region), forEachRange region mask)

/-! ### The tracker -/

/-- The tracker (`m_regions`, and whether its upload callback runs), the page manager it
shares with other clients, and the calls that these have made. -/
structure System where
  manager : Manager
  regions : ℕ → Option RegionManager
  uploading : Bool
  others : List PageManager.Call

/-- A freshly constructed `MemoryTracker` over a freshly constructed page manager. -/
def System.initial : System := ⟨.initial, fun _ => none, false, []⟩

/-- `CheckNotInUploadCallback`. -/
def checkNotInUploadCallback (s : System) : Except Fault Unit :=
  if s.uploading then .error .reentered else .ok ()

/-- `ValidateRange`. -/
def validateRange (vaddr size : ℕ) : Except Fault Unit :=
  if vaddr = 0 ∨ size = 0 ∨ vaddr ≥ addressSize ∨ size > addressSize - vaddr then
    .error (.invalidRange vaddr size)
  else .ok ()

/-- What the callback of `Iterate` leaves: the page manager and the region, the ranges it
has reported, and whether it ends the loop. -/
structure Visited where
  manager : Manager
  region : RegionManager
  ranges : List (ℕ × ℕ) := []
  stop : Bool := false

/-- The region of an iteration: created on demand when `create` is set. -/
def regionAt (create : Bool) (s : System) (index : ℕ) : Except Fault (Option RegionManager) :=
  match s.regions index with
  | some region => .ok (some region)
  | none =>
    if create then (RegionManager.create (index * regionSize)).map some else .ok none

/-- The loop of `Iterate<create>` from `vaddr` on: one iteration for each region. -/
def iterateFrom (create : Bool)
    (func : Manager → RegionManager → ℕ → ℕ → Except Fault Visited) (s : System)
    (vaddr remaining : ℕ) : Except Fault (System × List (ℕ × ℕ) × Bool) :=
  if _h : remaining = 0 then .ok (s, [], false)
  else do
    let index := vaddr / regionSize
    let offset := vaddr % regionSize
    let bytes := min (regionSize - offset) remaining
    match ← regionAt create s index with
    | none => iterateFrom create func s (vaddr + bytes) (remaining - bytes)
    | some region =>
      let visited ← func s.manager region offset bytes
      let s := { s with
        manager := visited.manager
        regions := Function.update s.regions index (some visited.region) }
      if visited.stop then return (s, visited.ranges, true)
      let (s, ranges, stopped) ← iterateFrom create func s (vaddr + bytes) (remaining - bytes)
      return (s, visited.ranges ++ ranges, stopped)
termination_by remaining
decreasing_by
  all_goals
    have : vaddr % regionSize < regionSize := Nat.mod_lt _ (by decide)
    omega

/-- `Iterate<create>`. -/
def iterate (create : Bool) (func : Manager → RegionManager → ℕ → ℕ → Except Fault Visited)
    (s : System) (vaddr size : ℕ) : Except Fault (System × List (ℕ × ℕ) × Bool) := do
  validateRange vaddr size
  iterateFrom create func s vaddr size

/-- The callback that asks for modified pages. -/
def visitModified (source : DirtySource) (manager : Manager) (region : RegionManager)
    (offset bytes : ℕ) : Except Fault Visited := do
  let modified ← isModified source region offset bytes
  return { manager := manager, region := region, stop := modified }

/-- The callback that changes the state of pages. -/
def visitChange (source : DirtySource) (enable : Bool) (manager : Manager)
    (region : RegionManager) (offset bytes : ℕ) : Except Fault Visited := do
  let changed ← changeState accepts source enable manager region (region.cpuAddr + offset) bytes
  return { manager := changed.1, region := changed.2 }

/-- The callback that reports the modified ranges. -/
def visitRanges (source : DirtySource) (clear : Bool) (manager : Manager)
    (region : RegionManager) (offset bytes : ℕ) : Except Fault Visited := do
  let reported ← forEachModifiedRange accepts source clear manager region
    (region.cpuAddr + offset) bytes
  return { manager := reported.1.1, region := reported.1.2, ranges := reported.2 }

/-- The callback that does nothing. -/
def visitNothing (manager : Manager) (region : RegionManager) (_offset _bytes : ℕ) :
    Except Fault Visited := .ok { manager := manager, region := region }

/-! ### The operations -/

/-- `IsRegionCpuModified`. -/
def isRegionCpuModified (s : System) (vaddr size : ℕ) : Except Fault (System × Bool) := do
  checkNotInUploadCallback s
  let (s, _, modified) ← iterate true (visitModified .cpu) s vaddr size
  return (s, modified)

/-- `IsRegionGpuModified`. -/
def isRegionGpuModified (s : System) (vaddr size : ℕ) : Except Fault (System × Bool) := do
  checkNotInUploadCallback s
  let (s, _, modified) ← iterate false (visitModified .gpu) s vaddr size
  return (s, modified)

/-- `MarkRegionAsCpuModified`. -/
def markRegionAsCpuModified (s : System) (vaddr size : ℕ) : Except Fault System := do
  checkNotInUploadCallback s
  let (s, _) ← iterate true (visitChange accepts .cpu true) s vaddr size
  return s

/-- `MarkRegionAsGpuModified`. -/
def markRegionAsGpuModified (s : System) (vaddr size : ℕ) : Except Fault System := do
  checkNotInUploadCallback s
  let (s, _) ← iterate true (visitChange accepts .gpu true) s vaddr size
  return s

/-- `UnmarkRegionAsGpuModified`. -/
def unmarkRegionAsGpuModified (s : System) (vaddr size : ℕ) : Except Fault System := do
  checkNotInUploadCallback s
  let (s, _) ← iterate false (visitChange accepts .gpu false) s vaddr size
  return s

/-- `UntrackMemory`. -/
def untrackMemory (s : System) (vaddr size : ℕ) : Except Fault System := do
  checkNotInUploadCallback s
  let (s, _, modified) ← iterate false (visitModified .gpu) s vaddr size
  if modified then throw .untrackingGpuDirty
  let (s, _) ← iterate false (visitChange accepts .cpu true) s vaddr size
  return s

/-- The lambda `update_cpu_state`: whether pages are still GPU-modified, and the state with
the pages marked when none is. -/
def updateCpuState (s : System) (vaddr size : ℕ) : Except Fault (System × Bool) := do
  let (s, _, modified) ← iterate false (visitModified .gpu) s vaddr size
  if modified then return (s, true)
  let (s, _) ← iterate false (visitChange accepts .cpu true) s vaddr size
  return (s, false)

/-- `InvalidateRegion`. -/
def invalidateRegion (onFlush : System → Except Fault System) (s : System) (vaddr size : ℕ) :
    Except Fault System := do
  checkNotInUploadCallback s
  validateRange vaddr size
  let (s, modified) ← updateCpuState accepts s vaddr size
  if !modified then return s
  let s ← onFlush s
  let (s, modified) ← updateCpuState accepts s vaddr size
  if modified then throw .retainedGpuPages
  return s

/-- `ForEachDownloadRange<clear>`, with the ranges that `func` is given. -/
def forEachDownloadRange (clear : Bool) (s : System) (vaddr size : ℕ) :
    Except Fault (System × List (ℕ × ℕ)) := do
  checkNotInUploadCallback s
  -- once for the preflight callback, once for the callback itself
  let (s, _) ← iterate false (visitRanges accepts .gpu false) s vaddr size
  let (s, ranges, _) ← iterate false (visitRanges accepts .gpu false) s vaddr size
  if clear then
    let (s, _) ← iterate false (visitRanges accepts .gpu true) s vaddr size
    return (s, ranges)
  return (s, ranges)

/-- `ForEachUploadRange`, with the ranges that `range_func` is given. -/
def forEachUploadRange (uploadFunc : System → Except Fault System) (s : System)
    (vaddr size : ℕ) (isWritten : Bool) : Except Fault (System × List (ℕ × ℕ)) := do
  checkNotInUploadCallback s
  let (s, _) ← iterate true visitNothing s vaddr size
  let (s, ranges, _) ← iterate false (visitRanges accepts .cpu true) { s with uploading := true }
    vaddr size
  let s ← uploadFunc s
  if isWritten then
    let (s, _) ← iterate false (visitChange accepts .gpu true) s vaddr size
    return ({ s with uploading := false }, ranges)
  return ({ s with uploading := false }, ranges)

/-- An operation of the tracker with what its callback does, or a call that another client
makes to the page manager. -/
inductive Op where
  | isRegionCpuModified (vaddr size : ℕ)
  | isRegionGpuModified (vaddr size : ℕ)
  | markRegionAsCpuModified (vaddr size : ℕ)
  | markRegionAsGpuModified (vaddr size : ℕ)
  | unmarkRegionAsGpuModified (vaddr size : ℕ)
  | untrackMemory (vaddr size : ℕ)
  | invalidateRegion (vaddr size : ℕ) (onFlush : List Op)
  | forEachDownloadRange (clear : Bool) (vaddr size : ℕ)
  | forEachUploadRange (vaddr size : ℕ) (isWritten : Bool) (uploadFunc : List Op)
  | otherClient (call : PageManager.Call)

mutual

/-- Performing an operation. -/
def Op.exec : Op → System → Except Fault System
  | .isRegionCpuModified vaddr size, s => (MemoryTracker.isRegionCpuModified s vaddr size).map (·.1)
  | .isRegionGpuModified vaddr size, s => (MemoryTracker.isRegionGpuModified s vaddr size).map (·.1)
  | .markRegionAsCpuModified vaddr size, s =>
    MemoryTracker.markRegionAsCpuModified accepts s vaddr size
  | .markRegionAsGpuModified vaddr size, s =>
    MemoryTracker.markRegionAsGpuModified accepts s vaddr size
  | .unmarkRegionAsGpuModified vaddr size, s =>
    MemoryTracker.unmarkRegionAsGpuModified accepts s vaddr size
  | .untrackMemory vaddr size, s => MemoryTracker.untrackMemory accepts s vaddr size
  | .invalidateRegion vaddr size onFlush, s =>
    MemoryTracker.invalidateRegion accepts (fun s => execAll onFlush s) s vaddr size
  | .forEachDownloadRange clear vaddr size, s =>
    (MemoryTracker.forEachDownloadRange accepts clear s vaddr size).map (·.1)
  | .forEachUploadRange vaddr size isWritten uploadFunc, s =>
    (MemoryTracker.forEachUploadRange accepts (fun s => execAll uploadFunc s) s vaddr size
      isWritten).map (·.1)
  | .otherClient call, s => do
    let manager ← (call.exec accepts s.manager).mapError .pageManager
    return { s with manager := manager, others := s.others ++ [call] }

/-- Performing operations in turn. -/
def execAll : List Op → System → Except Fault System
  | [], s => .ok s
  | op :: ops, s => do
    let s ← op.exec s
    execAll ops s

end

end Host

end Prosperismo.MemoryTracker
