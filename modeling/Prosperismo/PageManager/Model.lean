import Mathlib.Algebra.Order.Ring.Int
import Mathlib.Logic.Function.Basic
import Mathlib.Data.List.Range

/-!
# The page manager

The model of `src/graphics/host_gpu/pageManager.cpp`: watcher counters kept
per 4 KiB page in lazily created 4 MiB regions, and the calls that set the
host protection of watched pages.

Addresses are the source's `uint64_t` values read as `ℕ`; every range that
passes `validateRange` ends at or below `2 ^ 40`, so none of the sums below
wraps. A call that reaches `Fatal` or `FailFast` ends the process: it returns
`Except.error` with the reason. The host side is a parameter `accepts`, the
answer of `ProtectGuestHostMemory` to each request.

The host protection is kept as the protection *last applied* by the manager
to each 4 KiB page, `none` for a page it never touched.
-/

namespace Prosperismo.PageManager

/-! ### Constants -/

/-- `TRACKER_PAGE_SIZE`. -/
def pageSize : ℕ := 4 * 1024

/-- `TRACKER_REGION_SIZE`. -/
def regionSize : ℕ := 4 * 1024 * 1024

/-- `TRACKER_ADDRESS_SIZE`. -/
def addressSize : ℕ := 2 ^ 40

/-- `REGION_PAGES`. -/
def regionPages : ℕ := 1024

/-- The page-state tags `PAGE_NOACCESS`, `PAGE_READONLY`, `PAGE_READWRITE`. -/
inductive Protection where
  | noAccess
  | readOnly
  | readWrite
deriving DecidableEq, Repr

/-- The reasons for which the manager ends the process. -/
inductive Fault where
  | invalidRange (vaddr size : ℕ)
  | readWatcherOverflow (address : ℕ)
  | readWatcherUnderflow (address : ℕ)
  | writeWatcherOverflow (address : ℕ)
  | writeWatcherUnderflow (address : ℕ)
  | protectionFailed (vaddr : ℕ) (protection : Protection)
  | untrackingUnknownPage (vaddr : ℕ)
  | untrackingUnknownRegion (vaddr : ℕ)
  | invalidRegionBase (vaddr : ℕ)
  | emptyMask
deriving DecidableEq, Repr

/-! ### Page state -/

/-- `PageState`: a seven-bit write-watcher counter and a one-bit read-watcher
counter. -/
@[ext]
structure PageState where
  writeWatchers : Fin 128
  accessWatchers : Fin 2
deriving DecidableEq, Repr

/-- The state of a page nobody watches. -/
def PageState.empty : PageState := ⟨0, 0⟩

/-- `PageState::Perms`. -/
def PageState.perms (page : PageState) : Protection :=
  if page.accessWatchers ≠ 0 then .noAccess
  else if page.writeWatchers ≠ 0 then .readOnly
  else .readWrite

/-- `++` on a bit field that is known not to be full. -/
def bump {n : ℕ} (c : Fin n) (h : c.val + 1 < n) : Fin n := ⟨c.val + 1, h⟩

/-- `--` on a bit field. -/
def drop {n : ℕ} (c : Fin n) : Fin n := ⟨c.val - 1, by omega⟩

/-- `PageState::AddDelta<delta, is_read>`: the new value of the counter the
call is about, and the new page state. -/
def PageState.addDelta (delta : ℤ) (isRead : Bool) (address : ℕ) (page : PageState) :
    Except Fault (ℕ × PageState) :=
  if isRead then
    if delta = 1 then
      if h : page.accessWatchers.val + 1 < 2 then
        .ok (page.accessWatchers + 1, { page with accessWatchers := bump page.accessWatchers h })
      else .error (.readWatcherOverflow address)
    else if delta = -1 then
      if page.accessWatchers.val = 0 then .error (.readWatcherUnderflow address)
      else .ok (page.accessWatchers - 1, { page with accessWatchers := drop page.accessWatchers })
    else .ok (page.accessWatchers, page)
  else
    if delta = 1 then
      if h : page.writeWatchers.val + 1 < 128 then
        .ok (page.writeWatchers + 1, { page with writeWatchers := bump page.writeWatchers h })
      else .error (.writeWatcherOverflow address)
    else if delta = -1 then
      if page.writeWatchers.val = 0 then .error (.writeWatcherUnderflow address)
      else .ok (page.writeWatchers - 1, { page with writeWatchers := drop page.writeWatchers })
    else .ok (page.writeWatchers, page)

/-! ### Regions and the host -/

/-- `Region`: the page states of one 4 MiB region. -/
structure Region where
  pages : ℕ → PageState

/-- `std::make_unique<Region>()`. -/
def Region.fresh : Region := ⟨fun _ => .empty⟩

/-- The protection last applied by the manager to each page. -/
abbrev Host := ℕ → Option Protection

/-- The manager: its regions by index, and what it has asked of the host. -/
structure Manager where
  regions : ℕ → Option Region
  host : Host

/-- A freshly constructed `PageManager`. -/
def Manager.initial : Manager := ⟨fun _ => none, fun _ => none⟩

/-- Applying `protection` to the pages that start in `[vaddr, vaddr + size)`. -/
def Host.apply (host : Host) (vaddr size : ℕ) (protection : Protection) : Host :=
  fun page =>
    if vaddr ≤ page * pageSize ∧ page * pageSize < vaddr + size then some protection
    else host page

/-- The page state a manager records for a page number; a page of a region that
was never created has no watcher. -/
def Manager.page (m : Manager) (page : ℕ) : PageState :=
  match m.regions (page / regionPages) with
  | some region => region.pages (page % regionPages)
  | none => .empty

/-! ### Region masks -/

/-- `RegionBits`, a `BitArray` of `REGION_PAGES` bits. -/
abbrev RegionBits := Fin regionPages → Bool

/-- `BitArray::Get`. -/
def RegionBits.get (mask : RegionBits) (index : ℕ) : Bool :=
  if h : index < regionPages then mask ⟨index, h⟩ else false

/-- The first index at or after `start`, among the next `fuel`, whose bit is
`value`; `start + fuel` when there is none. -/
def RegionBits.scan (mask : RegionBits) (value : Bool) (start : ℕ) : ℕ → ℕ
  | 0 => start
  | fuel + 1 => if mask.get start = value then start else mask.scan value (start + 1) fuel

/-- `BitArray::FirstRange`: the first maximal run of set bits, `(N, N)` when no
bit is set. -/
def RegionBits.firstRange (mask : RegionBits) : ℕ × ℕ :=
  let first := mask.scan true 0 regionPages
  (first, mask.scan false first (regionPages - first))

/-- The end of the last run at or below `fuel`: one past the last set bit, `0`
when there is none. -/
def RegionBits.scanBack (mask : RegionBits) (value : Bool) : ℕ → ℕ
  | 0 => 0
  | fuel + 1 => if mask.get fuel = value then fuel + 1 else mask.scanBack value fuel

/-- `BitArray::LastRange`: the last maximal run of set bits, `(0, 0)` when no
bit is set. -/
def RegionBits.lastRange (mask : RegionBits) : ℕ × ℕ :=
  let last := mask.scanBack true regionPages
  (mask.scanBack false last, last)

/-! ### Updating one region -/

section Host

variable (accepts : ℕ → ℕ → Protection → Bool)

/-- `Impl::Protect`: the request ends the process when the host refuses it. -/
def protect (vaddr size : ℕ) (protection : Protection) (host : Host) : Except Fault Host :=
  if accepts vaddr size protection then .ok (host.apply vaddr size protection)
  else .error (.protectionFailed vaddr protection)

/-- The locals of the page loop of `UpdateRegionWatchers`, with the region's
pages and the host it works on. -/
structure Sweep where
  pages : ℕ → PageState
  host : Host
  perms : Protection
  rangeBegin : ℕ
  rangeBytes : ℕ
  potentialRangeBytes : ℕ

/-- The lambda `release_pending`. -/
def releasePending (baseAddr : ℕ) (l : Sweep) : Except Fault Sweep :=
  if l.rangeBytes ≠ 0 then do
    let host ← protect accepts (baseAddr + l.rangeBegin * pageSize) l.rangeBytes l.perms l.host
    return { l with host := host, rangeBytes := 0, potentialRangeBytes := 0 }
  else return l

/-- The run bookkeeping of one iteration: a page that wants another mode ends
the pending run, any other page lengthens it tentatively. -/
def followRun (baseAddr : ℕ) (newPerms : Protection) (l : Sweep) : Except Fault Sweep :=
  if newPerms ≠ l.perms then do
    let l ← releasePending accepts baseAddr l
    return { l with perms := newPerms }
  else if l.rangeBytes ≠ 0 then
    return { l with potentialRangeBytes := l.potentialRangeBytes + pageSize }
  else return l

/-- The end of one iteration on a page that changed its mode: the run is
extended to it. -/
def extendRun (pageIndex : ℕ) (l : Sweep) : Sweep :=
  let l :=
    if l.rangeBytes = 0 then { l with rangeBegin := pageIndex, potentialRangeBytes := pageSize }
    else l
  { l with rangeBytes := l.potentialRangeBytes }

/-- Whether the call updates the page: always without a mask, else as the mask
says. -/
def selects (mask : Option RegionBits) (pageIndex : ℕ) : Bool :=
  match mask with
  | none => true
  | some bits => bits.get pageIndex

/-- The template argument of `AddDelta` on a page the call updates. -/
def callDelta (track : Bool) : ℤ := if track then 1 else -1

/-- The counter update of one iteration: `AddDelta<track ? 1 : -1, is_read>` on
a page the call updates, `AddDelta<0, is_read>` on any other. -/
def deltaAt (track isRead : Bool) (mask : Option RegionBits) (baseAddr pageIndex : ℕ)
    (page : PageState) : Except Fault (ℕ × PageState) :=
  let address := baseAddr + pageIndex * pageSize
  if selects mask pageIndex then page.addDelta (callDelta track) isRead address
  else page.addDelta 0 isRead address

/-- One iteration of the page loop of `UpdateRegionWatchers`. -/
def visitPage (track isRead : Bool) (mask : Option RegionBits) (baseAddr : ℕ)
    (l : Sweep) (pageIndex : ℕ) : Except Fault Sweep := do
  let page := l.pages pageIndex
  let oldPerms := page.perms
  let (newCount, page) ← deltaAt track isRead mask baseAddr pageIndex page
  let newPerms := page.perms
  let l ← followRun accepts baseAddr newPerms
    { l with pages := Function.update l.pages pageIndex page }
  if !selects mask pageIndex then return l
  let watcherEdge := (track && newCount == 1) || (!track && newCount == 0)
  if watcherEdge && oldPerms != newPerms then return extendRun pageIndex l
  else return l

/-- `Impl::UpdateRegionWatchers<track, is_read, masked>`. -/
def updateRegionWatchers (track isRead : Bool) (mask : Option RegionBits)
    (region : Region) (host : Host) (baseAddr first last : ℕ) : Except Fault (Region × Host) := do
  let l : Sweep := ⟨region.pages, host, (region.pages first).perms, 0, 0, 0⟩
  let l ← (List.range' first (last - first)).foldlM
    (visitPage accepts track isRead mask baseAddr) l
  let l ← releasePending accepts baseAddr l
  return (⟨l.pages⟩, l.host)

/-! ### The calls -/

/-- `ValidateRange`. -/
def validateRange (vaddr size : ℕ) (allowZero : Bool) : Except Fault Unit :=
  if (!allowZero && vaddr == 0) || size == 0 || vaddr ≥ addressSize ||
      size > addressSize - vaddr then
    .error (.invalidRange vaddr size)
  else .ok ()

/-- `PageStart`. -/
def pageStart (vaddr : ℕ) : ℕ := vaddr / pageSize * pageSize

/-- `PageEnd`. -/
def pageEnd (vaddr size : ℕ) (allowZero : Bool) : Except Fault ℕ := do
  validateRange vaddr size allowZero
  return pageStart (vaddr + size - 1) + pageSize

/-- `GetOrCreateRegion` when tracking, `FindRegion` otherwise. -/
def lookupRegion (track : Bool) (m : Manager) (vaddr : ℕ) : Option Region :=
  if track then some ((m.regions (vaddr / regionSize)).getD .fresh)
  else if vaddr < addressSize then m.regions (vaddr / regionSize) else none

/-- One region's share of a call: look the region up, sweep it, store it. -/
def updateRegion (track isRead : Bool) (mask : Option RegionBits) (missing : Fault)
    (m : Manager) (vaddr first last : ℕ) : Except Fault Manager :=
  match lookupRegion track m vaddr with
  | none => .error missing
  | some region => do
    let (region, host) ← updateRegionWatchers accepts track isRead mask region m.host
      (vaddr / regionSize * regionSize) first last
    return ⟨Function.update m.regions (vaddr / regionSize) (some region), host⟩

/-- The chunk loop of `Impl::UpdatePageWatchers`. -/
def updateChunks (track isRead : Bool) (m : Manager) (chunkBegin end_ : ℕ) :
    Except Fault Manager :=
  if _h : chunkBegin < end_ then do
    let chunkEnd := min end_ ((chunkBegin / regionSize + 1) * regionSize)
    let regionBase := chunkBegin / regionSize * regionSize
    let m ← updateRegion accepts track isRead none (.untrackingUnknownPage chunkBegin) m chunkBegin
      ((chunkBegin - regionBase) / pageSize) ((chunkEnd - regionBase) / pageSize)
    updateChunks track isRead m chunkEnd end_
  else return m
termination_by end_ - chunkBegin
decreasing_by
  have : chunkBegin < (chunkBegin / regionSize + 1) * regionSize := by
    unfold regionSize; omega
  omega

/-- `Impl::UpdatePageWatchers<track, is_read>`. -/
def implUpdatePageWatchers (track isRead : Bool) (m : Manager) (vaddr size : ℕ) :
    Except Fault Manager := do
  let end_ ← pageEnd vaddr size true
  updateChunks accepts track isRead m (pageStart vaddr) end_

/-- `PageManager::UpdatePageWatchers<track>`. -/
def updatePageWatchers (track : Bool) (m : Manager) (vaddr size : ℕ) : Except Fault Manager := do
  if track then validateRange vaddr size false
  implUpdatePageWatchers accepts track false m vaddr size

/-- `PageManager::UpdatePageWatchersForRegion<track, is_read>`. -/
def updatePageWatchersForRegion (track isRead : Bool) (m : Manager) (baseAddr : ℕ)
    (mask : RegionBits) : Except Fault Manager :=
  if baseAddr % regionSize ≠ 0 ∨ baseAddr ≥ addressSize ∨ regionSize > addressSize - baseAddr then
    .error (.invalidRegionBase baseAddr)
  else
    let startRange := mask.firstRange
    let endRange := mask.lastRange
    if startRange.1 = regionPages then .error .emptyMask
    else
      let first := startRange.1
      let last := endRange.2
      if startRange.2 = endRange.2 then
        implUpdatePageWatchers accepts track isRead m (baseAddr + first * pageSize)
          ((last - first) * pageSize)
      else
        updateRegion accepts track isRead (some mask) (.untrackingUnknownRegion baseAddr) m
          baseAddr first last

/-- A call of the page manager. -/
inductive Call where
  | updatePageWatchers (track : Bool) (vaddr size : ℕ)
  | updatePageWatchersForRegion (track isRead : Bool) (baseAddr : ℕ) (mask : RegionBits)

/-- Executing a call. -/
def Call.exec (m : Manager) : Call → Except Fault Manager
  | .updatePageWatchers track vaddr size =>
    PageManager.updatePageWatchers accepts track m vaddr size
  | .updatePageWatchersForRegion track isRead baseAddr mask =>
    PageManager.updatePageWatchersForRegion accepts track isRead m baseAddr mask

end Host

/-- The step relation of the manager: the call returns, whatever requests the
host accepts. -/
def step (m : Manager) (c : Call) (m' : Manager) : Prop :=
  ∃ accepts, c.exec accepts m = .ok m'

end Prosperismo.PageManager
