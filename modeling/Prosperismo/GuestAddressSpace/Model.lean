import Prosperismo.Base.OrderedMap
import Prosperismo.VirtualRanges.Model
import Prosperismo.Base.IntervalMap
import Prosperismo.PhysicalMemory.Model

/-!
# Searching for free guest addresses

`FindFreeAligned` of `kernel/memoryAddressSpace.inc` searches the free map of
the guest's address space, which is kept apart from the book of virtual ranges;
`FindGuestFreeRange` of `kernel/memory.cpp` alternates between the two.
-/

namespace Prosperismo.GuestAddressSpace

open VirtualRanges (uint64Max wrap queryOverlap)

/-- `HOST_SYSTEM_MANAGED_MAX`. -/
def hostSystemManagedMax : ℕ := 0x07ffffbfff

/-- `HOST_USER_MIN`. -/
def hostUserMin : ℕ := 0x1000000000

/-- `HOST_USER_MAX`. -/
def hostUserMax : ℕ := 0xfbffffffff

/-- `GUEST_DEFAULT_MAP_BASE`. -/
def guestDefaultMapBase : ℕ := 0x200000000

/-- `PageSize`. -/
def pageSize : ℕ := 0x4000

/-- `m_free`: the start of a free range and its size. -/
abbrev FreeMap := OrderedMap ℕ ℕ

/-- `GuestFreeRangeContains`. -/
def guestFreeRangeContains (base rangeSize candidate size : ℕ) : Bool :=
  if uint64Max - base < rangeSize ∨ candidate < base then false
  else
    let rangeEnd := base + rangeSize
    decide (candidate ≤ rangeEnd ∧ size ≤ rangeEnd - candidate)

/-- `AlignUp`: 0 when the aligned value leaves the address space. -/
def alignUp (value alignment : ℕ) : ℕ :=
  if alignment = 0 then 0
  else
    let remainder := value % alignment
    let increment := if remainder ≠ 0 then alignment - remainder else 0
    if increment ≤ uint64Max - value then value + increment else 0

/-- One round of the loop of `FindFreeAlignedUnlocked`. -/
def candidateIn (searchStart searchEnd size alignment : ℕ) (range : ℕ × ℕ) : Option ℕ :=
  let candidate := alignUp (max range.1 searchStart) alignment
  if candidate < searchEnd ∧ size ≤ searchEnd - candidate ∧
    guestFreeRangeContains range.1 range.2 candidate size then some candidate
  else none

/-- `FindFreeAlignedUnlocked`. -/
def findFreeAlignedUnlocked (free : FreeMap) (searchStart searchEnd size alignment : ℕ) : ℕ :=
  if searchStart ≥ searchEnd ∨ size > searchEnd - searchStart then 0
  else (free.entries.findSome? (candidateIn searchStart searchEnd size alignment)).getD 0

/-- `FindFreeAligned`. -/
def findFreeAligned (free : FreeMap) (searchStart searchEnd size alignment : ℕ) : ℕ :=
  if size = 0 ∨ alignment = 0 then 0
  else findFreeAlignedUnlocked free searchStart searchEnd size (max alignment pageSize)

/-- `find_in` of `FindGuestFreeRange`, from `current` on: a candidate that
overlaps a virtual range moves the search behind that range. -/
def findIn (free : FreeMap) (ranges : List VirtualRanges.Range) (size alignment last current : ℕ) :
    ℕ :=
  if current < last ∧ size ≤ last - current then
    let candidate := findFreeAligned free current last size alignment
    if candidate = 0 then 0
    else
      match queryOverlap ranges candidate size with
      | none => candidate
      | some overlap =>
        let overlapEnd := wrap (overlap.start + overlap.size)
        if overlapEnd ≤ current then 0 else findIn free ranges size alignment last overlapEnd
  else 0
termination_by last - current

/-- `FindGuestFreeRange`. -/
def findGuestFreeRange (free : FreeMap) (ranges : List VirtualRanges.Range)
    (searchAddr size alignment : ℕ) : ℕ :=
  if searchAddr ≠ 0 then findIn free ranges size alignment (hostUserMax + 1) searchAddr
  else
    let addr := findIn free ranges size alignment (hostSystemManagedMax + 1) guestDefaultMapBase
    if addr = 0 then findIn free ranges size alignment (hostUserMax + 1) hostUserMin else addr

end Prosperismo.GuestAddressSpace

/-!
# The guest address space and its backing

`GuestBackingStore` and `GuestAddressSpace` of `kernel/memoryAddressSpace.inc`,
as they are built outside of Windows, over the memory of the host. Every method
of `GuestAddressSpace` runs under its mutex.

The host is what `mmap` and `mprotect` act on: at each address a byte of the
backing file or anonymous memory, and a protection. Whether a call of the host
succeeds is not known to the program, so a state carries the outcomes of the
calls to come; a call that succeeds does what it was asked to do, and one that
fails does nothing.

A method that stops the process returns `none`. The callers of `MapBacking` and
`Commit` see to it that a range ends in the address space, and the other methods
check it, so the sums of the source do not overflow.
-/

namespace Prosperismo.GuestAddressSpace

open PhysicalMemory (Mode)

/-! ### The host -/

/-- `PROT_READ`, `PROT_WRITE` and `PROT_EXEC`. -/
structure Prot where
  read : Bool
  write : Bool
  exec : Bool
  deriving DecidableEq, Repr

/-- `PROT_NONE`. -/
def Prot.none : Prot := ⟨false, false, false⟩

/-- `GetProtect`, and `get_protection_flag` of the host layer. -/
def getProtect : Mode → Prot
  | .read => ⟨true, false, false⟩
  | .write | .readWrite => ⟨true, true, false⟩
  | .execute => ⟨false, false, true⟩
  | .executeRead => ⟨true, false, true⟩
  | .executeWrite | .executeReadWrite => ⟨true, true, true⟩
  | .noAccess => Prot.none

/-- What the host has at an address: a position of the backing file, or
anonymous memory, and its protection. -/
structure HostByte where
  file : Option ℕ
  prot : Prot
  deriving DecidableEq, Repr

/-! ### The records -/

/-- `GuestBackingStore::MapEntry`. -/
structure MapEntry where
  vaddr : ℕ
  size : ℕ
  backingOffset : ℕ
  mode : Mode
  deriving DecidableEq, Repr

/-- `GuestAddressSpace::MappingType`; `priv` is `Private`. -/
inductive MappingType
  | backing
  | priv
  deriving DecidableEq, Repr

/-- `GuestAddressSpace::MappedRegion`. -/
structure MappedRegion where
  vaddr : ℕ
  size : ℕ
  type : MappingType
  deriving DecidableEq, Repr

/-- `m_maps`. -/
abbrev MapEntries := OrderedMap ℕ MapEntry

/-- `m_mapped`. -/
abbrev MappedRegions := OrderedMap ℕ MappedRegion

/-- The maps of the two objects, the memory of the host, and the outcomes of the
calls of the host to come. -/
structure State where
  host : ℕ → HostByte
  outcomes : List Bool
  maps : MapEntries
  mapped : MappedRegions
  free : FreeMap

/-- A call of the host: its outcome, and what it does if it succeeds. -/
def State.call (s : State) (host : ℕ → HostByte) : State × Bool :=
  let ok := s.outcomes.headD true
  ({ s with outcomes := s.outcomes.tail, host := if ok then host else s.host }, ok)

/-! ### `GuestBackingStore` -/

/-- `RangeOk`. -/
def rangeOk (backingSize backingOffset size : ℕ) : Bool :=
  decide (size ≠ 0 ∧ backingOffset < backingSize ∧ size ≤ backingSize - backingOffset)

/-- `MapView`. -/
def mapView (s : State) (vaddr size backingOffset : ℕ) (mode : Mode) : State × Bool :=
  s.call (fill s.host vaddr (vaddr + size) fun a _ =>
    ⟨some (backingOffset + (a - vaddr)), getProtect mode⟩)

/-- `UnmapViewPreservePlaceholder`. -/
def unmapViewPreservePlaceholder (s : State) (vaddr size : ℕ) : State × Bool :=
  s.call (fill s.host vaddr (vaddr + size) fun _ _ => ⟨none, Prot.none⟩)

/-- `MapExistingPlaceholderFixed`; the backing is available once the address
space exists. -/
def mapExistingPlaceholderFixed (backingSize : ℕ) (s : State) (vaddr size backingOffset : ℕ)
    (mode : Mode) : Option (State × Bool) :=
  if rangeOk backingSize backingOffset size then
    match mapView s vaddr size backingOffset mode with
    | (s, false) => some (s, false)
    | (s, true) =>
      if s.maps.contains vaddr then none
      else some ({ s with maps := s.maps.emplace vaddr ⟨vaddr, size, backingOffset, mode⟩ }, true)
  else some (s, false)

/-- `FindContainingUnlocked` for one byte. -/
def findContainingUnlocked (maps : MapEntries) (vaddr : ℕ) : Option MapEntry :=
  ((maps.upTo vaddr).getLast?.map Prod.snd).filter fun entry =>
    decide (vaddr < entry.vaddr + entry.size)

/-- The loops over a range: the record at `current`, then the one at its end,
and so on up to `last`, each with the address it was found at; no value if there
is an address without a record. -/
def walk {ι : Type} (find : ℕ → Option ι) (stop : ι → ℕ) (last current : ℕ) :
    Option (List (ι × ℕ)) :=
  if current < last then
    (find current).bind fun entry =>
      if current < stop entry then
        (walk find stop last (min last (stop entry))).map ((entry, current) :: ·)
      else none
  else some []
termination_by last - current

/-- `Contains`. -/
def contains (maps : MapEntries) (vaddr size : ℕ) : Bool :=
  decide (size ≠ 0 ∧ size ≤ VirtualRanges.uint64Max - vaddr) &&
    (walk (findContainingUnlocked maps) (fun entry => entry.vaddr + entry.size) (vaddr + size)
      vaddr).isSome

/-- Map a piece of an entry that `UnmapOne` splits, if there is one. -/
def mapPiece (backingSize : ℕ) (s : State) (vaddr size backingOffset : ℕ) (mode : Mode) :
    Option (State × Bool) :=
  if size ≠ 0 then mapExistingPlaceholderFixed backingSize s vaddr size backingOffset mode
  else some (s, true)

/-- Unmap a piece that was mapped, if there is one. -/
def takeBackPiece (takeBack : State → ℕ → ℕ → Option (State × Bool)) (s : State)
    (vaddr size : ℕ) : Option State :=
  if size ≠ 0 ∧ contains s.maps vaddr size then
    (takeBack s vaddr size).bind fun (s, ok) => if ok then some s else none
  else some s

/-- The part of `UnmapOne` that maps what is left of an entry on both sides, and
the whole entry again if that fails. -/
def rebuild (takeBack : State → ℕ → ℕ → Option (State × Bool)) (backingSize : ℕ) (s : State)
    (old : MapEntry) (vaddr size : ℕ) : Option (State × Bool) :=
  let leftSize := vaddr - old.vaddr
  let rightAddr := vaddr + size
  let rightSize := old.vaddr + old.size - rightAddr
  (mapPiece backingSize s old.vaddr leftSize old.backingOffset old.mode).bind fun (s, left) =>
    (mapPiece backingSize s rightAddr rightSize (old.backingOffset + (rightAddr - old.vaddr))
        old.mode).bind fun (s, right) =>
      if left ∧ right then some (s, true)
      else
        (takeBackPiece takeBack s old.vaddr leftSize).bind fun s =>
          (takeBackPiece takeBack s rightAddr rightSize).bind fun s =>
            (mapExistingPlaceholderFixed backingSize s old.vaddr old.size old.backingOffset
                old.mode).bind fun (s, ok) => if ok then some (s, false) else none

/-- `UnmapOne`, with the function that takes back a piece that was just mapped;
`placeholder_preserved` is the same as the result. -/
def unmapOneWith (takeBack : State → ℕ → ℕ → Option (State × Bool)) (backingSize : ℕ) (s : State)
    (vaddr size : ℕ) : Option (State × Bool) :=
  match (s.maps.upTo vaddr).getLast?.filter
      fun it => decide (vaddr + size ≤ it.2.vaddr + it.2.size) with
  | none => some (s, false)
  | some it =>
    let old := it.2
    let s := { s with maps := s.maps.erase it.1 }
    if old.size = 0 then some (s, false)
    else
      match unmapViewPreservePlaceholder s old.vaddr old.size with
      | (s, false) => some ({ s with maps := s.maps.emplace old.vaddr old }, false)
      | (s, true) =>
        if vaddr = old.vaddr ∧ size = old.size then some (s, true)
        else rebuild takeBack backingSize s old vaddr size

/-- `UnmapOne`. A piece it takes back is a whole entry, so the call for it does
not take back a piece in turn. -/
def unmapOne (backingSize : ℕ) (s : State) (vaddr size : ℕ) : Option (State × Bool) :=
  unmapOneWith (unmapOneWith (fun _ _ _ => none) backingSize) backingSize s vaddr size

/-- `targets` of `Unmap`: the parts of the range by their entries. -/
def targets (maps : MapEntries) (vaddr last : ℕ) : Option (List MapEntry) :=
  (walk (findContainingUnlocked maps) (fun entry => entry.vaddr + entry.size) last vaddr).map
    (List.map fun (entry, current) =>
      ⟨current, min last (entry.vaddr + entry.size) - current,
        entry.backingOffset + current - entry.vaddr, entry.mode⟩)

/-- The rollback of `Unmap`: map what was removed, the last part first. -/
def restore (backingSize : ℕ) : List MapEntry → State → Option State
  | [], s => some s
  | entry :: removed, s => do
    let (s, ok) ← mapExistingPlaceholderFixed backingSize s entry.vaddr entry.size
      entry.backingOffset entry.mode
    if ok then restore backingSize removed s else none

/-- The second loop of `Unmap`; `removed` holds the last part first. -/
def unmapParts (backingSize : ℕ) : List MapEntry → List MapEntry → State → Option (State × Bool)
  | [], _, s => some (s, true)
  | entry :: parts, removed, s => do
    let (s, ok) ← unmapOne backingSize s entry.vaddr entry.size
    if ok then unmapParts backingSize parts (entry :: removed) s
    else (restore backingSize removed s).map fun s => (s, false)

/-- `Unmap`. -/
def unmap (backingSize : ℕ) (s : State) (vaddr size : ℕ) : Option (State × Bool) :=
  if size = 0 ∨ VirtualRanges.uint64Max - vaddr < size then some (s, false)
  else
    match targets s.maps vaddr (vaddr + size) with
    | none => some (s, false)
    | some parts => unmapParts backingSize parts [] s

/-! ### The free ranges -/

/-- `FindContaining`. -/
def findContaining (free : FreeMap) (vaddr size : ℕ) : Option (ℕ × ℕ) :=
  (free.upTo vaddr).getLast?.filter fun it =>
    decide (vaddr ≥ it.1 ∧ vaddr + size ≤ it.1 + it.2)

/-- `SplitUnlocked`, with `it` the entry of the iterator. -/
def splitUnlocked (free : FreeMap) (it : ℕ × ℕ) (vaddr size : ℕ) : FreeMap :=
  let base := it.1
  let last := it.1 + it.2
  if base = vaddr ∧ last = vaddr + size then free
  else
    let free := if base ≠ vaddr then
      (free.update base fun _ => vaddr - base).emplace vaddr (last - vaddr) else free
    if last - vaddr ≠ size then
      (free.update vaddr fun _ => size).emplace (vaddr + size) (last - vaddr - size)
    else free

/-- `ConsumeUnlocked`. -/
def consumeUnlocked (free : FreeMap) (vaddr size : ℕ) : FreeMap × Bool :=
  match findContaining free vaddr size with
  | none => (free, false)
  | some it =>
    let free := splitUnlocked free it vaddr size
    if free.entries.any fun it => decide (it.1 = vaddr ∧ it.2 = size) then (free.erase vaddr, true)
    else (free, false)

/-- The loops of `AddFreeUnlocked`: the neighbours, from the nearest on, that
touch what has been gathered, and how far they reach. -/
def touching (reach : ℕ × ℕ → ℕ → Option ℕ) : List (ℕ × ℕ) → ℕ → List (ℕ × ℕ) × ℕ
  | [], bound => ([], bound)
  | it :: rest, bound =>
    match reach it bound with
    | none => ([], bound)
    | some bound =>
      let (taken, bound) := touching reach rest bound
      (it :: taken, bound)

/-- The neighbour in front of `base`, if it touches it. -/
def reachBack (it : ℕ × ℕ) (base : ℕ) : Option ℕ := if it.1 + it.2 ≠ base then none else some it.1

/-- The neighbour behind `last`, if it touches it. -/
def reachOn (it : ℕ × ℕ) (last : ℕ) : Option ℕ := if last = it.1 then some (it.1 + it.2) else none

/-- `AddFreeUnlocked`. -/
def addFreeUnlocked (free : FreeMap) (vaddr size : ℕ) : FreeMap :=
  if vaddr = 0 ∨ size = 0 then free
  else
    let free := if free.contains vaddr then free.update vaddr fun _ => size
      else free.emplace vaddr size
    let (before, base) := touching reachBack (free.below vaddr).reverse vaddr
    let (after, last) := touching reachOn (free.upperBound vaddr) (vaddr + size)
    if base ≠ vaddr ∨ last ≠ vaddr + size then
      ((before ++ (vaddr, size) :: after).foldl (fun free it => free.erase it.1) free).emplace base
        (last - base)
    else free

/-! ### The mapped regions -/

/-- `FindMappedContainingUnlocked`. -/
def findMappedContainingUnlocked (mapped : MappedRegions) (vaddr : ℕ) : Option MappedRegion :=
  ((mapped.upTo vaddr).getLast?.map Prod.snd).filter fun region =>
    decide (vaddr < region.vaddr + region.size)

/-- `ContainsMappedUnlocked`. -/
def containsMappedUnlocked (mapped : MappedRegions) (vaddr size : ℕ) (type : MappingType) : Bool :=
  decide (size ≠ 0 ∧ size ≤ VirtualRanges.uint64Max - vaddr) &&
    (walk (fun a => (findMappedContainingUnlocked mapped a).filter
        fun region => decide (region.type = type))
      (fun region => region.vaddr + region.size) (vaddr + size) vaddr).isSome

/-- `AddMappedUnlocked`; its callers stop the process where it fails. -/
def addMappedUnlocked (mapped : MappedRegions) (vaddr size : ℕ) (type : MappingType) :
    Option MappedRegions :=
  if size = 0 ∨ VirtualRanges.uint64Max - vaddr < size then none
  else if (mapped.lowerBound vaddr).head?.any fun next => decide (next.2.vaddr < vaddr + size) then
    none
  else if (mapped.below vaddr).getLast?.any fun previous =>
    decide (previous.2.vaddr + previous.2.size > vaddr) then none
  else if mapped.contains vaddr then none
  else some (mapped.emplace vaddr ⟨vaddr, size, type⟩)

/-- The loop of `RemoveMappedUnlocked`. -/
def removeMappedFrom (mapped : MappedRegions) (last current : ℕ) : Option MappedRegions :=
  if current < last then
    (findMappedContainingUnlocked mapped current).bind fun original =>
      let stop := original.vaddr + original.size
      if current < stop then
        let partEnd := min last stop
        let mapped := mapped.erase original.vaddr
        (if original.vaddr < current then
          addMappedUnlocked mapped original.vaddr (current - original.vaddr) original.type
        else some mapped).bind fun mapped =>
          (if partEnd < stop then addMappedUnlocked mapped partEnd (stop - partEnd) original.type
          else some mapped).bind fun mapped => removeMappedFrom mapped last partEnd
      else none
  else some mapped
termination_by last - current

/-- `RemoveMappedUnlocked`; its callers stop the process where it fails. -/
def removeMappedUnlocked (mapped : MappedRegions) (vaddr size : ℕ) (type : MappingType) :
    Option MappedRegions :=
  if containsMappedUnlocked mapped vaddr size type then removeMappedFrom mapped (vaddr + size) vaddr
  else none

/-! ### `GuestAddressSpace` -/

/-- `VirtualMemory::Protect`: `mprotect` on the pages of 4 KiB the range meets. -/
def hostProtect (s : State) (vaddr size : ℕ) (mode : Mode) : State × Bool :=
  s.call (fill s.host (vaddr / 0x1000 * 0x1000) (((vaddr + size - 1) / 0x1000 + 1) * 0x1000)
    fun _ byte => { byte with prot := getProtect mode })

/-- The loop of `ProtectMappedUnlocked`. -/
def protectRegions (vaddr last : ℕ) (mode : Mode) : List (ℕ × MappedRegion) → State → State × Bool
  | [], s => (s, true)
  | it :: rest, s =>
    if it.2.vaddr < last then
      let rangeStart := max vaddr it.2.vaddr
      let rangeEnd := min last (it.2.vaddr + it.2.size)
      if rangeStart < rangeEnd then
        match hostProtect s rangeStart (rangeEnd - rangeStart) mode with
        | (s, false) => (s, false)
        | (s, true) => protectRegions vaddr last mode rest s
      else protectRegions vaddr last mode rest s
    else (s, true)

/-- `Protect`, and `ProtectTransient`, which has the same body. -/
def protect (s : State) (vaddr size : ℕ) (mode : Mode) : State × Bool :=
  if size = 0 ∨ VirtualRanges.uint64Max - vaddr < size then (s, false)
  else
    protectRegions vaddr (vaddr + size) mode
      ((s.mapped.upTo vaddr).getLast?.toList ++ s.mapped.upperBound vaddr) s

/-- `VirtualMemory::IsExecute`. -/
def isExecute : Mode → Bool
  | .execute | .executeRead | .executeWrite | .executeReadWrite => true
  | _ => false

/-- `host_mode` of `MapBacking` and `Commit`. -/
def hostMode (mode : Mode) : Mode := if isExecute mode then .executeReadWrite else .readWrite

/-- `MapBacking`. -/
def mapBacking (backingSize : ℕ) (s : State) (vaddr size backingOffset : ℕ) (mode : Mode) :
    Option (State × Bool) :=
  match consumeUnlocked s.free vaddr size with
  | (free, false) => some ({ s with free }, false)
  | (free, true) =>
    (mapExistingPlaceholderFixed backingSize { s with free } vaddr size backingOffset
        (hostMode mode)).bind fun (s, ok) =>
      if ok then
        (addMappedUnlocked s.mapped vaddr size .backing).map fun mapped =>
          ({ s with mapped }, true)
      else some ({ s with free := addFreeUnlocked s.free vaddr size }, false)

/-- `UnmapBacking`. -/
def unmapBacking (backingSize : ℕ) (s : State) (vaddr size : ℕ) : Option (State × Bool) :=
  if containsMappedUnlocked s.mapped vaddr size .backing then
    (unmap backingSize s vaddr size).bind fun (s, ok) =>
      if ok then
        (removeMappedUnlocked s.mapped vaddr size .backing).map fun mapped =>
          ({ s with mapped, free := addFreeUnlocked s.free vaddr size }, true)
      else some (s, false)
  else some (s, false)

/-- `Commit`. -/
def commit (s : State) (vaddr size : ℕ) (mode : Mode) : Option (State × Bool) :=
  match consumeUnlocked s.free vaddr size with
  | (free, false) => some ({ s with free }, false)
  | (free, true) =>
    match hostProtect { s with free } vaddr size (hostMode mode) with
    | (s, true) =>
      (addMappedUnlocked s.mapped vaddr size .priv).map fun mapped => ({ s with mapped }, true)
    | (s, false) => some ({ s with free := addFreeUnlocked s.free vaddr size }, false)

/-- `RestorePlaceholder` for each of the parts. -/
def restorePlaceholders : List (ℕ × ℕ) → State → Option State
  | [], s => some s
  | (vaddr, size) :: regions, s =>
    match unmapViewPreservePlaceholder s vaddr size with
    | (s, true) => restorePlaceholders regions s
    | (_, false) => none

/-- `ReleaseCommitted`. -/
def releaseCommitted (s : State) (vaddr size : ℕ) : Option (State × Bool) :=
  if vaddr = 0 ∨ size = 0 ∨ vaddr % pageSize ≠ 0 ∨ size % pageSize ≠ 0 then some (s, false)
  else if containsMappedUnlocked s.mapped vaddr size .priv then do
    let last := vaddr + size
    let regions ← walk (findMappedContainingUnlocked s.mapped)
      (fun region => region.vaddr + region.size) last vaddr
    let s ← restorePlaceholders (regions.map fun (region, current) =>
      (current, min last (region.vaddr + region.size) - current)) s
    let mapped ← removeMappedUnlocked s.mapped vaddr size .priv
    some ({ s with mapped, free := addFreeUnlocked s.free vaddr size }, true)
  else some (s, false)

/-! ### Runs -/

/-- A call of a method that may change the address space. -/
inductive Call
  | mapBacking (vaddr size backingOffset : ℕ) (mode : Mode)
  | unmapBacking (vaddr size : ℕ)
  | protect (vaddr size : ℕ) (mode : Mode)
  | protectTransient (vaddr size : ℕ) (mode : Mode)
  | commit (vaddr size : ℕ) (mode : Mode)
  | releaseCommitted (vaddr size : ℕ)
  deriving DecidableEq, Repr

/-- What a call does. -/
def Call.apply (backingSize : ℕ) (s : State) : Call → Option State
  | mapBacking vaddr size backingOffset mode =>
    (GuestAddressSpace.mapBacking backingSize s vaddr size backingOffset mode).map Prod.fst
  | unmapBacking vaddr size =>
    (GuestAddressSpace.unmapBacking backingSize s vaddr size).map Prod.fst
  | protect vaddr size mode => some (GuestAddressSpace.protect s vaddr size mode).1
  | protectTransient vaddr size mode => some (GuestAddressSpace.protect s vaddr size mode).1
  | commit vaddr size mode => (GuestAddressSpace.commit s vaddr size mode).map Prod.fst
  | releaseCommitted vaddr size =>
    (GuestAddressSpace.releaseCommitted s vaddr size).map Prod.fst

/-- The calls made one after another. -/
def run (backingSize : ℕ) (s : State) (calls : List Call) : Option State :=
  calls.foldlM (Call.apply backingSize) s

end Prosperismo.GuestAddressSpace
