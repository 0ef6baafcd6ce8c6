import Prosperismo.GuestAddressSpace.Model

/-!
# The owners of mapped memory

The part of `PhysicalMemory` of `kernel/memory.cpp` that keeps the direct mappings,
and `FlexibleMemory`, over the address space of the guest. What `PhysicalMemory`
does with its blocks and free ranges is modelled apart; here its blocks are read.

Of a mapping the name and the host range are left out, as no method here reads
them. A method that stops the process returns `none`.
-/

namespace Prosperismo.KernelMemory

open GuestAddressSpace (mapBacking unmapBacking rangeOk)
open PhysicalMemory (Mode GpuAccessMode AllocatedBlock BlockMap FreeMap)
open VirtualRanges (uint64Max virtualRangesOverlap copyVirtualRangeName)

/-- `FlexibleMemory::AllocatedBlock`. -/
structure FlexibleBlock where
  mapVaddr : ℕ
  mapSize : ℕ
  backingOffset : ℕ
  hostVaddr : ℕ
  hostSize : ℕ
  prot : ℤ
  mode : Mode
  gpuMode : GpuAccessMode
  name : List UInt8
  deriving DecidableEq, Repr

/-- The sizes that are fixed once the objects exist: of the backing, and of flexible
memory. -/
structure Sizes where
  backing : ℕ
  flexible : ℕ

/-- The objects of `kernel/memory.cpp`: the address space, the book of virtual ranges,
`m_physical` and `m_mappings`, and the three members of `FlexibleMemory`. -/
structure State where
  space : GuestAddressSpace.State
  ranges : List VirtualRanges.Range
  physical : BlockMap
  mappings : List AllocatedBlock
  allocated : List FlexibleBlock
  free : FreeMap
  allocatedTotal : ℕ

/-! ### Direct mappings -/

/-- The loop of `CanMapDirect` and `Map`: whether blocks that are no pool expansion
follow each other from `current` to `last`. -/
def blocksFollow (physical : BlockMap) (last current : ℕ) : Bool :=
  if current < last then
    match (physical.upTo current).getLast? with
    | none => false
    | some (_, block) =>
      let blockEnd := block.startAddr + block.size
      if block.poolExpansion ∨ current < block.startAddr ∨ current ≥ blockEnd then false
      else
        let next := min last blockEnd
        if next < last ∧ ((physical.upperBound current).head?.all fun following =>
            decide (following.2.startAddr ≠ next)) then false
        else if current < next then blocksFollow physical last next
        else false
  else true
termination_by last - current

/-- `CanMapDirect`. -/
def canMapDirect (physical : BlockMap) (physAddr len : ℕ) : Bool :=
  if len = 0 ∨ uint64Max - physAddr < len then false
  else blocksFollow physical (physAddr + len) physAddr

/-- `PhysicalMemory::Map`. -/
def directMap (s : State) (vaddr physAddr len : ℕ) (prot : ℤ) (mode : Mode)
    (gpuMode : GpuAccessMode) : State × Bool :=
  if len = 0 ∨ uint64Max - physAddr < len then (s, false)
  else
    match (s.physical.upTo physAddr).getLast? with
    | none => (s, false)
    | some first =>
      if blocksFollow s.physical (physAddr + len) physAddr then
        let mapping : AllocatedBlock := { first.2 with
          startAddr := physAddr, size := len, mapVaddr := vaddr, mapSize := len
          prot, mode, gpuMode }
        ({ s with mappings := s.mappings ++ [mapping] }, true)
      else (s, false)

/-- What `PhysicalMemory::Unmap` makes of one mapping: what is left of it in its place
and what goes to the end, if the range is the mapping, its inside, its start or its
end. -/
def unmapFrom (b : AllocatedBlock) (vaddr size : ℕ) :
    Option (List AllocatedBlock × List AllocatedBlock) :=
  let shortened := { b with size := vaddr - b.mapVaddr, mapSize := vaddr - b.mapVaddr }
  if b.mapVaddr = vaddr ∧ b.mapSize = size then some ([], [])
  else if vaddr > b.mapVaddr ∧ vaddr + size < b.mapVaddr + b.mapSize then
    let rightSize := b.mapVaddr + b.mapSize - (vaddr + size)
    some ([shortened], [{ b with
      startAddr := b.startAddr + (vaddr + size - b.mapVaddr), size := rightSize
      mapSize := rightSize, mapVaddr := vaddr + size }])
  else if vaddr = b.mapVaddr ∧ size < b.mapSize then
    some ([{ b with
      startAddr := b.startAddr + size, size := b.size - size
      mapVaddr := b.mapVaddr + size, mapSize := b.mapSize - size }], [])
  else if vaddr > b.mapVaddr ∧ vaddr + size = b.mapVaddr + b.mapSize then some ([shortened], [])
  else none

/-- The loop of `PhysicalMemory::Unmap`. -/
def unmapMappings (vaddr size : ℕ) :
    List AllocatedBlock → Option (List AllocatedBlock × GpuAccessMode)
  | [] => none
  | b :: rest =>
    match unmapFrom b vaddr size with
    | some (kept, atEnd) => some (kept ++ rest ++ atEnd, b.gpuMode)
    | none => (unmapMappings vaddr size rest).map fun (rest, gpuMode) => (b :: rest, gpuMode)

/-- `PhysicalMemory::Unmap`, with the access mode it writes when it succeeds. -/
def directUnmap (s : State) (vaddr size : ℕ) : State × Option GpuAccessMode :=
  match unmapMappings vaddr size s.mappings with
  | some (mappings, gpuMode) => ({ s with mappings }, some gpuMode)
  | none => (s, none)

/-- `PhysicalMemory::Find` of the block at an address. -/
def findBlock (physical : BlockMap) (physAddr : ℕ) : Option AllocatedBlock :=
  ((physical.upTo physAddr).getLast?.map Prod.snd).filter fun block =>
    decide (physAddr < block.startAddr + block.size)

/-! ### Flexible memory -/

/-- `Available`. -/
def available (sizes : Sizes) (s : State) : ℕ :=
  if sizes.flexible ≥ s.allocatedTotal then sizes.flexible - s.allocatedTotal else 0

/-- `UnmapBacking` where the process stops if it fails. -/
def mustUnmap (sizes : Sizes) (s : State) (vaddr size : ℕ) : Option State :=
  (unmapBacking sizes.backing s.space vaddr size).bind fun (space, ok) =>
    if ok then some { s with space } else none

/-- `UnmapBacking`. -/
def unmapSpace (sizes : Sizes) (s : State) (vaddr size : ℕ) : Option (State × Bool) :=
  (unmapBacking sizes.backing s.space vaddr size).map fun (space, ok) => ({ s with space }, ok)

/-- `MapBacking`. -/
def mapSpace (sizes : Sizes) (s : State) (vaddr size offset : ℕ) (mode : Mode) :
    Option (State × Bool) :=
  (mapBacking sizes.backing s.space vaddr size offset mode).map fun (space, ok) =>
    ({ s with space }, ok)

/-- The first loop of `FlexibleMemory::Map`: the parts of the request by free range, and
how much is left. -/
def parts (block : ℕ → ℕ → ℕ → FlexibleBlock) :
    List (ℕ × ℕ) → ℕ → ℕ → List FlexibleBlock × ℕ
  | [], _, remaining => ([], remaining)
  | (backingOffset, freeSize) :: rest, current, remaining =>
    if remaining = 0 then ([], 0)
    else
      let chunk := min remaining freeSize
      let (blocks, left) := parts block rest (current + chunk) (remaining - chunk)
      (block current chunk backingOffset :: blocks, left)

/-- The loops that map blocks; `mapped` holds the last one first. With `zero` the
backing is cleared before. -/
def mapBlocks (sizes : Sizes) (zero : Bool) :
    List FlexibleBlock → List FlexibleBlock → State → Option (State × Bool)
  | [], _, s => some (s, true)
  | block :: blocks, mapped, s =>
    let rollback (s : State) := (mapped.foldlM (fun s block =>
      mustUnmap sizes s block.mapVaddr block.mapSize) s).map fun s => (s, false)
    if zero ∧ !rangeOk sizes.backing block.backingOffset block.mapSize then rollback s
    else
      (mapSpace sizes s block.mapVaddr block.mapSize block.backingOffset block.mode).bind
        fun (s, ok) => if ok then mapBlocks sizes zero blocks (block :: mapped) s else rollback s

/-- The entry of `m_free` at or before an offset, if the block lies in it. -/
def freeFor (free : FreeMap) (block : FlexibleBlock) : Option (ℕ × ℕ) :=
  (free.upTo block.backingOffset).getLast?.filter fun range =>
    decide (block.mapSize ≤ range.1 + range.2 - block.backingOffset)

/-- The loops that take the offsets of the blocks out of the free ranges, with the way they
look for the entry. -/
def takeFree (find : FreeMap → FlexibleBlock → Option (ℕ × ℕ)) (free : FreeMap) :
    List FlexibleBlock → Option FreeMap
  | [] => some free
  | block :: blocks =>
    (find free block).bind fun range =>
      takeFree find
        (PhysicalMemory.consumeFreeRange free range block.backingOffset block.mapSize) blocks

/-- The blocks sorted by their address. -/
def sortBlocks (blocks : List FlexibleBlock) : List FlexibleBlock :=
  blocks.mergeSort fun left right => decide (left.mapVaddr ≤ right.mapVaddr)

/-- `FlexibleMemory::Map`. -/
def flexibleMap (sizes : Sizes) (s : State) (vaddr len : ℕ) (prot : ℤ) (mode : Mode)
    (gpuMode : GpuAccessMode) (name : List UInt8) : Option (State × Bool) :=
  if len = 0 ∨ len > available sizes s then some (s, false)
  else
    let block (current chunk backingOffset : ℕ) : FlexibleBlock :=
      { mapVaddr := current, mapSize := chunk, backingOffset, hostVaddr := vaddr, hostSize := len
        prot, mode, gpuMode, name := copyVirtualRangeName (some name) }
    let (blocks, remaining) := parts block s.free.entries vaddr len
    if remaining ≠ 0 then some (s, false)
    else
      (mapBlocks sizes true blocks [] s).bind fun (s, ok) =>
        if ok then
          (takeFree freeFor s.free blocks).map fun free =>
            ({ s with
              free, allocated := sortBlocks (s.allocated ++ blocks)
              allocatedTotal := s.allocatedTotal + len }, true)
        else some (s, false)

/-- The loop of `Unmap` and of `Snapshot`: the blocks that follow each other from `current`
to `last`, each with the address it is entered at. -/
def follow (last : ℕ) : List FlexibleBlock → ℕ → Option (List (FlexibleBlock × ℕ))
  | [], _ => none
  | block :: blocks, current =>
    let blockEnd := block.mapVaddr + block.mapSize
    if blockEnd ≤ current then follow last blocks current
    else if block.mapVaddr > current ∨ block.mapVaddr ≥ last then none
    else if min last blockEnd = last then some [(block, current)]
    else (follow last blocks (min last blockEnd)).map ((block, current) :: ·)

/-- What `FlexibleMemory::Unmap` leaves of one block. -/
def remainingBlocks (vaddr size : ℕ) (block : FlexibleBlock) : List FlexibleBlock :=
  let blockEnd := block.mapVaddr + block.mapSize
  if virtualRangesOverlap vaddr size block.mapVaddr block.mapSize then
    let overlapStart := max vaddr block.mapVaddr
    let overlapEnd := min (vaddr + size) blockEnd
    (if block.mapVaddr < overlapStart then
      [{ block with mapSize := overlapStart - block.mapVaddr }] else []) ++
    if overlapEnd < blockEnd then
      [{ block with
        mapVaddr := overlapEnd, mapSize := blockEnd - overlapEnd
        backingOffset := block.backingOffset + overlapEnd - block.mapVaddr }]
    else []
  else [block]

/-- What `FlexibleMemory::Unmap` gives back of one block: the offset and the size. -/
def removedPart (vaddr size : ℕ) (block : FlexibleBlock) : Option (ℕ × ℕ) :=
  if virtualRangesOverlap vaddr size block.mapVaddr block.mapSize then
    let overlapStart := max vaddr block.mapVaddr
    let overlapEnd := min (vaddr + size) (block.mapVaddr + block.mapSize)
    some (block.backingOffset + overlapStart - block.mapVaddr, overlapEnd - overlapStart)
  else none

/-- `FlexibleMemory::Unmap`, with the access mode it writes when it succeeds. -/
def flexibleUnmap (sizes : Sizes) (s : State) (vaddr size : ℕ) :
    Option (State × Option GpuAccessMode) :=
  if size = 0 ∨ uint64Max - vaddr < size then some (s, none)
  else
    match follow (vaddr + size) s.allocated vaddr with
    | none => some (s, none)
    | some found =>
      (unmapSpace sizes s vaddr size).bind fun (s, ok) =>
        if ok then
          let removed := s.allocated.filterMap (removedPart vaddr size)
          let total := (removed.map Prod.snd).foldl (· + ·) 0
          if total ≠ size ∨ total > s.allocatedTotal then none
          else some
            ({ s with
              free := removed.foldl (fun free part =>
                PhysicalMemory.addFreeRange free part.1 part.2) s.free
              allocated := s.allocated.flatMap (remainingBlocks vaddr size)
              allocatedTotal := s.allocatedTotal - total },
              found.head?.map fun first => first.1.gpuMode)
        else some (s, none)

/-- `Snapshot`. -/
def snapshot (s : State) (vaddr size : ℕ) : Option (List FlexibleBlock) :=
  if size = 0 ∨ uint64Max - vaddr < size then none
  else
    let last := vaddr + size
    (follow last s.allocated vaddr).map fun found =>
      found.map fun (block, current) =>
        { block with
          mapVaddr := current, mapSize := min last (block.mapVaddr + block.mapSize) - current
          backingOffset := block.backingOffset + (current - block.mapVaddr) }

/-- `Restore`. -/
def restoreFlexible (sizes : Sizes) (s : State) (blocks : List FlexibleBlock) :
    Option (State × Bool) :=
  if blocks = [] ∨ blocks.any fun block => (freeFor s.free block).isNone then some (s, false)
  else
    (mapBlocks sizes false blocks [] s).bind fun (s, ok) =>
      if ok then
        (takeFree (fun free block => (free.upTo block.backingOffset).getLast?) s.free blocks).map
          fun free => ({ s with
            free, allocated := sortBlocks (s.allocated ++ blocks)
            allocatedTotal :=
              s.allocatedTotal + (blocks.map FlexibleBlock.mapSize).foldl (· + ·) 0 },
            true)
      else some (s, false)

end Prosperismo.KernelMemory
