import Prosperismo.Base.OrderedMap

/-!
# Direct memory

`PhysicalMemory` of `kernel/memory.cpp`: the map of the allocated blocks of
direct memory and the map of the free ranges. Every method runs under the
object's mutex. The list of mappings is not modelled, as no method here reads
or writes it.

All positions lie in `[0, Size())`, so the sums of the source do not overflow;
only `GetAlignedPos` has to look out for it. A method that stops the process
returns `none`.
-/

namespace Prosperismo.PhysicalMemory

/-- `UINT64_MAX`. -/
def uint64Max : ℕ := 0xffffffffffffffff

/-- `VirtualMemory::Mode`. -/
inductive Mode
  | noAccess
  | read
  | write
  | readWrite
  | execute
  | executeRead
  | executeWrite
  | executeReadWrite
  deriving DecidableEq, Repr

/-- `GpuAccessMode`. -/
inductive GpuAccessMode
  | noAccess
  | read
  | write
  | readWrite
  deriving DecidableEq, Repr

/-- `PhysicalMemory::AllocatedBlock`, without the host range and the name, which
stay 0 in the map of blocks. -/
structure AllocatedBlock where
  startAddr : ℕ
  size : ℕ
  mapVaddr : ℕ
  mapSize : ℕ
  prot : ℤ
  mode : Mode
  gpuMode : GpuAccessMode
  memoryType : ℤ
  poolExpansion : Bool
  deriving DecidableEq, Repr

/-- `m_free`: the start of a free range and its size. -/
abbrev FreeMap := OrderedMap ℕ ℕ

/-- `m_physical`: the blocks by their start. -/
abbrev BlockMap := OrderedMap ℕ AllocatedBlock

/-- The two maps. -/
structure State where
  physical : BlockMap
  free : FreeMap

/-- `TotalSize`. -/
def totalSize : ℕ := 13824 * 1024 * 1024

/-- `Size`; it does not change once the object exists. -/
def sizeOf (flexibleMemorySize : ℕ) : ℕ := totalSize - flexibleMemorySize

/-- The constructor. -/
def initial (size : ℕ) : State := ⟨OrderedMap.empty, OrderedMap.empty.emplace 0 size⟩

/-- `GetAlignedPos`; no value when the aligned position is no 64 bit number. -/
def getAlignedPos (pos alignment : ℕ) : Option ℕ :=
  if alignment = 0 then some pos
  else
    let remainder := pos % alignment
    let increment := if remainder ≠ 0 then alignment - remainder else 0
    if increment > uint64Max - pos then none else some (pos + increment)

/-! ### Free ranges -/

/-- `ConsumeFreeRange`, with `range` the entry of the iterator. -/
def consumeFreeRange (free : FreeMap) (range : ℕ × ℕ) (start size : ℕ) : FreeMap :=
  let rangeStart := range.1
  let rangeEnd := range.1 + range.2
  let free := free.erase range.1
  let free := if rangeStart < start then free.emplace rangeStart (start - rangeStart) else free
  if start + size < rangeEnd then free.emplace (start + size) (rangeEnd - start - size) else free

/-- The loop of `AddFreeRange`: erase every entry that starts at `last` or
before and grow the new range over it. -/
def swallow : List (ℕ × ℕ) → ℕ → FreeMap → ℕ × FreeMap
  | [], last, free => (last, free)
  | next :: rest, last, free =>
    if next.1 ≤ last then swallow rest (max last (next.1 + next.2)) (free.erase next.1)
    else (last, free)

/-- `AddFreeRange`. -/
def addFreeRange (free : FreeMap) (start size : ℕ) : FreeMap :=
  let last := start + size
  let next := free.lowerBound start
  let touching := (free.below start).getLast?.filter fun previous =>
    decide (previous.1 + previous.2 ≥ start)
  let (first, last, free) := match touching with
    | some previous => (previous.1, max last (previous.1 + previous.2), free.erase previous.1)
    | none => (start, last, free)
  let (last, free) := swallow next last free
  free.emplace first (last - first)

/-! ### The methods -/

/-- What `Alloc` and `Available` make of a free range: the first aligned position
in the window, and the end of the range in the window. -/
def freePos (searchStart searchEnd alignment : ℕ) (range : ℕ × ℕ) : Option (ℕ × ℕ) :=
  let rangeEnd := min (range.1 + range.2) searchEnd
  let lowerBound := max range.1 searchStart
  (getAlignedPos lowerBound alignment).bind fun pos =>
    if pos < lowerBound then none else some (pos, rangeEnd)

/-- One round of the loop of `Alloc`: where the block goes in a free range. -/
def allocIn (searchStart searchEnd len alignment : ℕ) (range : ℕ × ℕ) : Option ((ℕ × ℕ) × ℕ) :=
  (freePos searchStart searchEnd alignment range).bind fun (pos, rangeEnd) =>
    if pos > rangeEnd ∨ len > rangeEnd - pos then none else some (range, pos)

/-- `Alloc`, with the address it writes when it succeeds. -/
def alloc (size : ℕ) (s : State) (searchStart searchEnd len alignment : ℕ) (memoryType : ℤ)
    (poolExpansion : Bool) : Option (State × Option ℕ) :=
  let searchEnd := min searchEnd size
  if searchStart ≥ searchEnd then some (s, none)
  else
    let range := (s.free.upTo searchStart).getLast?.toList ++ s.free.upperBound searchStart
    match (range.takeWhile fun range => decide (range.1 < searchEnd)).findSome?
        (allocIn searchStart searchEnd len alignment) with
    | none => some (s, none)
    | some (range, pos) =>
      let b : AllocatedBlock :=
        { startAddr := pos, size := len, mapVaddr := 0, mapSize := 0, prot := 0
          mode := .noAccess, gpuMode := .noAccess, memoryType, poolExpansion }
      let free := consumeFreeRange s.free range pos len
      if s.physical.contains b.startAddr then none
      else some (⟨s.physical.emplace b.startAddr b, free⟩, some pos)

/-- One round of the loop of `Available`. -/
def better (searchStart searchEnd alignment : ℕ) (best : ℕ × ℕ) (range : ℕ × ℕ) : ℕ × ℕ :=
  match freePos searchStart searchEnd alignment range with
  | none => best
  | some (pos, rangeEnd) =>
    if pos < rangeEnd ∧ rangeEnd - pos > best.2 then (pos, rangeEnd - pos) else best

/-- `Available`, with the address and the size it writes when it succeeds. -/
def available (size : ℕ) (s : State) (searchStart searchEnd alignment : ℕ) : Option (ℕ × ℕ) :=
  let searchEnd := min searchEnd size
  if searchStart ≥ searchEnd then none
  else
    let best := (s.free.entries.takeWhile fun range => decide (range.1 < searchEnd)).foldl
      (better searchStart searchEnd alignment) (0, 0)
    if best.2 = 0 then none else some best

/-- What `Release` reports: the mapping of the released part. -/
structure Released where
  vaddr : ℕ
  size : ℕ
  gpuMode : GpuAccessMode
  deriving DecidableEq, Repr

/-- The block cut off at `start`: its last byte, if mapped its mapping, moves. -/
def AllocatedBlock.shorten (b : AllocatedBlock) (start : ℕ) : AllocatedBlock :=
  let size := start - b.startAddr
  { b with size, mapSize := if b.mapVaddr ≠ 0 then size else b.mapSize }

/-- `right` in `Release`: the part of the block from `rightStart` on. -/
def AllocatedBlock.right (b : AllocatedBlock) (rightStart : ℕ) : AllocatedBlock :=
  let size := b.startAddr + b.size - rightStart
  { b with
    startAddr := rightStart, size
    mapVaddr := if b.mapVaddr ≠ 0 then b.mapVaddr + (rightStart - b.startAddr) else b.mapVaddr
    mapSize := if b.mapVaddr ≠ 0 then size else b.mapSize }

/-- `remaining` in `Release`: the block without its first `len` bytes. -/
def AllocatedBlock.remaining (b : AllocatedBlock) (len : ℕ) : AllocatedBlock :=
  { b with
    startAddr := b.startAddr + len, size := b.size - len
    mapVaddr := if b.mapVaddr ≠ 0 then b.mapVaddr + len else b.mapVaddr
    mapSize := if b.mapVaddr ≠ 0 then b.mapSize - len else b.mapSize }

/-- `Release`, with what it writes when it succeeds. -/
def release (s : State) (start len : ℕ) : State × Option Released :=
  match (s.physical.upTo start).getLast? with
  | none => (s, none)
  | some it =>
    let b := it.2
    if b.poolExpansion ∨ start < b.startAddr ∨ start ≥ b.startAddr + b.size ∨
      len > b.startAddr + b.size - start then (s, none)
    else if start = b.startAddr ∧ len = b.size then
      (⟨s.physical.erase it.1, addFreeRange s.free start len⟩, some ⟨b.mapVaddr, b.mapSize, b.gpuMode⟩)
    else if start > b.startAddr ∧ start + len < b.startAddr + b.size then
      let right := b.right (start + len)
      (⟨(s.physical.update it.1 fun b => b.shorten start).emplace right.startAddr right,
          addFreeRange s.free start len⟩,
        some ⟨if b.mapVaddr ≠ 0 then b.mapVaddr + (start - b.startAddr) else 0,
          if b.mapVaddr ≠ 0 then len else 0, b.gpuMode⟩)
    else if start = b.startAddr ∧ len < b.size then
      let remaining := b.remaining len
      (⟨(s.physical.erase it.1).emplace remaining.startAddr remaining,
          addFreeRange s.free start len⟩,
        some ⟨b.mapVaddr, if b.mapVaddr ≠ 0 then len else 0, b.gpuMode⟩)
    else if start > b.startAddr ∧ start + len = b.startAddr + b.size then
      (⟨s.physical.update it.1 fun b => b.shorten start, addFreeRange s.free start len⟩,
        some ⟨if b.mapVaddr ≠ 0 then b.mapVaddr + (start - b.startAddr) else 0,
          if b.mapVaddr ≠ 0 then len else 0, b.gpuMode⟩)
    else (s, none)

/-- `ReleasePoolExpansion`. -/
def releasePoolExpansion (s : State) (physAddr len : ℕ) : State × Bool :=
  match s.physical.entries.find? fun it => decide (it.1 = physAddr) with
  | none => (s, false)
  | some it =>
    if !it.2.poolExpansion ∨ it.2.size ≠ len then (s, false)
    else (⟨s.physical.erase it.1, addFreeRange s.free physAddr len⟩, true)

/-- A call that may change the maps. -/
inductive Call
  | alloc (searchStart searchEnd len alignment : ℕ) (memoryType : ℤ) (poolExpansion : Bool)
  | release (start len : ℕ)
  | releasePoolExpansion (physAddr len : ℕ)
  deriving DecidableEq, Repr

/-- What a call does to the maps. -/
def Call.apply (size : ℕ) (s : State) : Call → Option State
  | alloc searchStart searchEnd len alignment memoryType poolExpansion =>
    (PhysicalMemory.alloc size s searchStart searchEnd len alignment memoryType poolExpansion).map
      Prod.fst
  | release start len => some (PhysicalMemory.release s start len).1
  | releasePoolExpansion physAddr len => some (PhysicalMemory.releasePoolExpansion s physAddr len).1

/-- The calls made one after another on a fresh object. -/
def run (size : ℕ) (calls : List Call) : Option State :=
  calls.foldlM (Call.apply size) (initial size)

end Prosperismo.PhysicalMemory
