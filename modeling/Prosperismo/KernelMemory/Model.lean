import Prosperismo.KernelMemory.Owners

/-!
# Mapping memory

`KernelMapDirectMemory`, `KernelMapNamedFlexibleMemory` and
`KernelReserveVirtualRange` of `kernel/memory.cpp`, with
`ReplaceFixedRangeWithReserved`. Each runs under `g_memory_operation_mutex`.

The GPU and the callbacks of the allocator are told about what is mapped; they give
no answer, and are left out. Arguments are 32 and 64 bit numbers, so nothing is
assumed about them. A call that stops the process returns `none`.
-/

namespace Prosperismo.KernelMemory

open GuestAddressSpace (pageSize findGuestFreeRange findContaining contains commit
  releaseCommitted)
open PhysicalMemory (Mode GpuAccessMode)
open VirtualRanges (Range RangeType uint64Max wrap endOf isReservedRangeType
  kernelMaximumNameLength)

/-- The errors of the calls. -/
inductive KernelError
  | enomem
  | eacces
  | efault
  | ebusy
  | einval
  | enametoolong
  deriving DecidableEq, Repr

/-! ### Protections -/

/-- A bit of a number. -/
def bit {w : ℕ} (value mask : BitVec w) : Bool := value &&& mask ≠ 0

/-- `PROT_CPU_EXEC`. -/
def protCpuExec : BitVec 32 := 0x04

/-- `DecodeMemoryProtection`. -/
def decodeMemoryProtection (prot : BitVec 32) : Option (Mode × GpuAccessMode) :=
  let cpuRead := bit prot 0x01
  let cpuWrite := bit prot 0x02
  let cpuExec := bit prot protCpuExec
  let gpuRead := bit prot 0x10
  let gpuWrite := bit prot 0x20
  if !bit prot 0x37 ∧ prot ≠ 0 then none
  else
    let gpuMode : GpuAccessMode :=
      if gpuRead && gpuWrite then .readWrite
      else if gpuRead then .read
      else if gpuWrite then .write
      else .noAccess
    let hostWrite := cpuWrite || gpuWrite
    let hostRead := cpuRead || gpuRead || hostWrite
    let mode : Mode :=
      if cpuExec then
        if hostWrite then .executeReadWrite else if hostRead then .executeRead else .execute
      else if hostWrite then .readWrite
      else if hostRead then .read
      else .noAccess
    some (mode, gpuMode)

/-- The protection of a record, decoded; nothing is written if that fails. -/
def decodeRecord (protection : ℤ) : Mode × GpuAccessMode :=
  (decodeMemoryProtection (BitVec.ofInt 32 protection)).getD (.noAccess, .noAccess)

/-! ### Queries of the book -/

/-- `Query`; with `flags` 1 the next record does too. -/
def query (ranges : List Range) (addr flags : ℕ) : Option Range :=
  let upTo := ranges.takeWhile fun r => decide (r.start ≤ addr)
  let next := ranges.dropWhile fun r => decide (r.start ≤ addr)
  match upTo.getLast?.filter fun r => decide (addr < endOf r.start r.size) with
  | some current => some current
  | none => if flags = 1 then next.head? else none

/-- The loop of `QuerySpan`. -/
def spanParts (last : ℕ) : List Range → ℕ → Option (List Range)
  | [], _ => none
  | r :: ranges, current =>
    let rangeEnd := endOf r.start r.size
    if rangeEnd ≤ current then spanParts last ranges current
    else if r.start > current then none
    else
      let part := { r with
        start := current, size := min last rangeEnd - current
        offset := if r.type = .direct then wrap (r.offset + (current - r.start)) else r.offset }
      if min last rangeEnd = last then some [part]
      else (spanParts last ranges (min last rangeEnd)).map (part :: ·)

/-- `QuerySpan`. -/
def querySpan (ranges : List Range) (start size : ℕ) : Option (List Range) :=
  if start = 0 ∨ size = 0 ∨ size > uint64Max - start then none
  else spanParts (start + size) ranges start

/-- The span, if all of it is reserved. -/
def reservedSpan (ranges : List Range) (start size : ℕ) : Option (List Range) :=
  (querySpan ranges start size).filter fun parts => parts.all fun r => decide (r.type = .reserved)

/-! ### `ReplaceFixedRangeWithReserved` -/

/-- `ReplacedChunk`. -/
structure ReplacedChunk where
  range : Range
  mode : Mode
  gpuMode : GpuAccessMode
  flexibleBlocks : List FlexibleBlock
  hostUnmapped : Bool
  backendUnmapped : Bool
  deriving DecidableEq, Repr

/-- How the loop that gathers the chunks ends. -/
inductive Gathered
  | chunks (chunks : List ReplacedChunk)
  | refused
  | exit
  deriving DecidableEq, Repr

/-- The chunk is put in front of those gathered later. -/
def Gathered.push (chunk : ReplacedChunk) : Gathered → Gathered
  | chunks rest => chunks (chunk :: rest)
  | other => other

/-- The first loop: the parts of the range by their records. A part is not empty where
`current` lies in the record; otherwise the loop would not end, and the process counts as
stopped. -/
def gather (s : State) (last current : ℕ) : Gathered :=
  if hcurrent : current < last then
    match query s.ranges current 1 with
    | none => .chunks []
    | some range =>
      if range.start ≥ last then .chunks []
      else if hgap : current < range.start then gather s last (min last range.start)
      else
        let rangeEnd := wrap (range.start + range.size)
        let chunk := min last rangeEnd - current
        let moved := { range with
          start := current, size := chunk
          offset := if range.type = .direct then wrap (range.offset + (current - range.start))
            else range.offset }
        let replaced : ReplacedChunk :=
          { range := moved, mode := (decodeRecord range.protection).1
            gpuMode := (decodeRecord range.protection).2, flexibleBlocks := []
            hostUnmapped := false, backendUnmapped := false }
        if range.type = .direct ∧ !contains s.space.maps current chunk then .refused
        else if range.type = .pooled then .exit
        else if range.type = .flexible then
          match snapshot s current chunk with
          | none => .refused
          | some flexibleBlocks =>
            if hchunk : 0 < chunk then
              (gather s last (current + chunk)).push { replaced with flexibleBlocks }
            else .exit
        else if hchunk : 0 < chunk then (gather s last (current + chunk)).push replaced
        else .exit
  else .chunks []
termination_by last - current

/-- What the second loop does to one chunk: whether it was unmapped, and the chunk as it is
then marked. -/
def unmapChunk (sizes : Sizes) (s : State) (chunk : ReplacedChunk) :
    Option (State × Bool × ReplacedChunk) :=
  let start := chunk.range.start
  let size := chunk.range.size
  match chunk.range.type with
  | .direct =>
    (unmapSpace sizes s start size).map fun (s, ok) =>
      if ok then
        match directUnmap s start size with
        | (s, some gpuMode) =>
          (s, true, { chunk with hostUnmapped := true, backendUnmapped := true, gpuMode })
        | (s, none) => (s, false, { chunk with hostUnmapped := true, gpuMode := .noAccess })
      else (s, false, { chunk with gpuMode := .noAccess })
  | .flexible =>
    (flexibleUnmap sizes s start size).map fun (s, found) =>
      (s, found.isSome, { chunk with
        hostUnmapped := found.isSome, backendUnmapped := found.isSome
        gpuMode := found.getD .noAccess })
  | .stack | .code | .runtime =>
    (releaseCommitted s.space start size).map fun (space, ok) =>
      ({ s with space }, ok, { chunk with hostUnmapped := ok, backendUnmapped := ok })
  | .reserved | .poolReserved =>
    some (s, (findContaining s.space.free start size).isSome, chunk)
  | .pooled => some (s, false, chunk)

/-- The second loop, with the chunks it has marked, the last one first. -/
def unmapChunks (sizes : Sizes) :
    List ReplacedChunk → List ReplacedChunk → State → Option (State × Bool × List ReplacedChunk)
  | [], done, s => some (s, true, done.reverse)
  | chunk :: chunks, done, s =>
    (unmapChunk sizes s chunk).bind fun (s, ok, chunk) =>
      if ok then unmapChunks sizes chunks (chunk :: done) s
      else some (s, false, done.reverse ++ chunk :: chunks)

/-- What `restore_chunks` does to one chunk in its first loop. -/
def restoreChunk (sizes : Sizes) (s : State) (chunk : ReplacedChunk) : Option (State × Bool) :=
  let range := chunk.range
  match range.type with
  | .direct =>
    (if chunk.hostUnmapped then mapSpace sizes s range.start range.size range.offset chunk.mode
      else some (s, true)).map fun (s, host) =>
        if chunk.backendUnmapped then
          let (s, backend) := directMap s range.start range.offset range.size range.protection
            chunk.mode chunk.gpuMode
          (s, host && backend)
        else (s, host)
  | .flexible =>
    if chunk.backendUnmapped then restoreFlexible sizes s chunk.flexibleBlocks else some (s, true)
  | .stack | .code | .runtime =>
    if chunk.hostUnmapped then
      (commit s.space range.start range.size chunk.mode).map fun (space, ok) =>
        ({ s with space }, ok)
    else some (s, true)
  | _ => some (s, true)

/-- `Add` for a chunk. -/
def addChunk (ranges : List Range) (chunk : ReplacedChunk) : List Range × Bool :=
  VirtualRanges.add ranges chunk.range.start chunk.range.size chunk.range.offset
    chunk.range.protection chunk.range.memoryType chunk.range.type (some chunk.range.name)
    chunk.range.disallowMerge

/-- `restore_chunks`; its callers stop the process where it fails. -/
def restoreChunks (sizes : Sizes) (chunks : List ReplacedChunk) (s : State) : Option State :=
  (chunks.reverse.foldlM (fun (acc : State × Bool) chunk =>
    (restoreChunk sizes acc.1 chunk).map fun (s, ok) => (s, ok && acc.2)) (s, true)).bind
    fun (s, ok) =>
      let (ranges, added) := chunks.foldl (fun (acc : List Range × Bool) chunk =>
        let (ranges, added) := addChunk acc.1 chunk
        (ranges, added && acc.2)) (s.ranges, true)
      if ok && added then some { s with ranges } else none

/-- `ReserveFixed`. -/
def reserveFixed (s : State) (vaddr size : ℕ) : Bool :=
  if vaddr = 0 ∨ size = 0 ∨ vaddr % pageSize ≠ 0 ∨ size % pageSize ≠ 0 then false
  else (findContaining s.space.free vaddr size).isSome

/-- "anon". -/
def anon : List UInt8 := [0x61, 0x6e, 0x6f, 0x6e]

/-- The ranges between the chunks and around them, which the last cleanup releases. -/
def gaps (last : ℕ) : List ReplacedChunk → ℕ → List (ℕ × ℕ)
  | [], freeStart => if freeStart < last then [(freeStart, last - freeStart)] else []
  | chunk :: chunks, freeStart =>
    (if freeStart < chunk.range.start then [(freeStart, chunk.range.start - freeStart)] else []) ++
      gaps last chunks (chunk.range.start + chunk.range.size)

/-- `ReplaceFixedRangeWithReserved`. -/
def replaceFixedRangeWithReserved (sizes : Sizes) (s : State) (start size : ℕ) :
    Option (State × Bool) :=
  let last := wrap (start + size)
  match gather s last start with
  | .exit => none
  | .refused => some (s, false)
  | .chunks chunks =>
    let s := { s with ranges := (VirtualRanges.remove s.ranges start size).1 }
    (unmapChunks sizes chunks [] s).bind fun (s, ok, chunks) =>
      if !ok then (restoreChunks sizes chunks s).map fun s => (s, false)
      else if !reserveFixed s start size then (restoreChunks sizes chunks s).map fun s => (s, false)
      else
        let (ranges, added) := VirtualRanges.add s.ranges start size 0 0 0 .reserved (some anon)
          false
        if added then some ({ s with ranges }, true)
        else
          (restoreChunks sizes chunks s).bind fun s =>
            if (gaps last chunks start).all fun gap =>
              (findContaining s.space.free gap.1 gap.2).isSome then some (s, false)
            else none

/-! ### The calls -/

/-- What a call returns, and what it leaves in `*addr`. -/
structure Answer where
  error : Option KernelError
  addr : ℕ
  deriving DecidableEq, Repr

/-- A refusal, with what is in `*addr` then. -/
def refuse (s : State) (addr : ℕ) (error : KernelError) : Option (State × Answer) :=
  some (s, ⟨some error, addr⟩)

/-- `GUEST_MAP_FIXED`. -/
def guestMapFixed : BitVec 32 := 0x10

/-- `GUEST_MAP_NO_OVERWRITE`. -/
def guestMapNoOverwrite : BitVec 32 := 0x80

/-- The check of an alignment: no power of two and no multiple of the page size. -/
def badAlignment (alignment : ℕ) : Bool :=
  decide (alignment ≠ 0 ∧ alignment &&& (alignment - 1) ≠ 0 ∧ alignment % pageSize ≠ 0)

/-- Put a consumed reservation back. -/
def putBack (s : State) (start size : ℕ) (name : Option (List UInt8)) : State × Bool :=
  let (ranges, added) := VirtualRanges.add s.ranges start size 0 0 0 .reserved name false
  ({ s with ranges }, added)

/-- Put a consumed reservation back, where the process stops if that fails. -/
def mustPutBack (s : State) (start size : ℕ) (consumed : Option (List UInt8)) : Option State :=
  match consumed with
  | none => some s
  | some name =>
    let (s, added) := putBack s start size (some name)
    if added then some s else none

/-- The way to a fixed range: consume the reservation that covers it, or replace what is
there by one first. Returns the name of what was consumed. -/
def consumeFixed (sizes : Sizes) (s : State) (start size : ℕ) :
    Option (State × Option (List UInt8)) :=
  match reservedSpan s.ranges start size with
  | some (first :: _) =>
    let (ranges, consumed, _) := VirtualRanges.consumeReservedSpan s.ranges start size .reserved
    if consumed then some ({ s with ranges }, some first.name)
    else replace s
  | _ => replace s
where
  replace (s : State) : Option (State × Option (List UInt8)) :=
    (replaceFixedRangeWithReserved sizes s start size).map fun (s, replaced) =>
      if replaced then
        let (ranges, consumed, first) :=
          VirtualRanges.consumeReservedSpan s.ranges start size .reserved
        if consumed then ({ s with ranges }, some ((first.map Range.name).getD []))
        else (s, none)
      else (s, none)

/-- The end of `KernelMapDirectMemory`, once the backing is mapped at `outAddr`. -/
def finishDirect (sizes : Sizes) (s : State) (inAddr outAddr len directMemoryStart : ℕ)
    (prot : BitVec 32) (mode : Mode) (gpuMode : GpuAccessMode) (consumed : Option (List UInt8)) :
    Option (State × Answer) :=
  match directMap s outAddr directMemoryStart len prot.toInt mode gpuMode with
  | (s, false) =>
    (mustUnmap sizes s outAddr len).bind fun s =>
      (mustPutBack s inAddr len consumed).map fun s => (s, ⟨some .ebusy, outAddr⟩)
  | (s, true) =>
    let memoryType := ((findBlock s.physical directMemoryStart).map
      PhysicalMemory.AllocatedBlock.memoryType).getD 0
    match VirtualRanges.add s.ranges outAddr len directMemoryStart prot.toInt memoryType .direct
        (some []) false with
    | (_, false) =>
      match directUnmap s outAddr len with
      | (_, none) => none
      | (s, some _) =>
        (mustUnmap sizes s outAddr len).bind fun s =>
          (mustPutBack s inAddr len consumed).map fun s => (s, ⟨some .ebusy, outAddr⟩)
    | (ranges, true) => some ({ s with ranges }, ⟨none, outAddr⟩)

/-- Map the backing at `target` and finish; without success a consumed reservation is put
back and `*addr` is 0. -/
def mapAt (sizes : Sizes) (s : State) (inAddr target len directMemoryStart : ℕ) (prot : BitVec 32)
    (mode : Mode) (gpuMode : GpuAccessMode) (consumed : Option (List UInt8)) :
    Option (State × Answer) :=
  (mapSpace sizes s target len directMemoryStart mode).bind fun (s, shared) =>
    if shared ∧ target ≠ 0 then
      finishDirect sizes s inAddr target len directMemoryStart prot mode gpuMode consumed
    else
      let s := match consumed with
        | some name => (putBack s inAddr len (some name)).1
        | none => s
      refuse s 0 .enomem

/-- The part of `KernelMapDirectMemory` without the fixed flag: the hint, if it lies in a
reservation, and else a search. -/
def mapDirectAnywhere (sizes : Sizes) (s : State) (inAddr len directMemoryStart alignment : ℕ)
    (prot : BitVec 32) (mode : Mode) (gpuMode : GpuAccessMode) : Option (State × Answer) :=
  let alignment := if alignment ≠ 0 then alignment else pageSize
  let search (s : State) : Option (State × Answer) :=
    let outAddr := findGuestFreeRange s.space.free s.ranges inAddr len alignment
    if outAddr ≠ 0 then
      mapAt sizes s inAddr outAddr len directMemoryStart prot mode gpuMode none
    else refuse s 0 .enomem
  match (if inAddr ≠ 0 then reservedSpan s.ranges inAddr len else none) with
  | some (first :: _) =>
    let (ranges, consumed, _) := VirtualRanges.consumeReservedSpan s.ranges inAddr len .reserved
    if consumed then
      mapAt sizes { s with ranges } inAddr inAddr len directMemoryStart prot mode gpuMode
        (some first.name)
    else search s
  | _ => search s

/-- `KernelMapDirectMemory`. -/
def kernelMapDirectMemory (sizes : Sizes) (s : State) (addr : Option (BitVec 64))
    (len : BitVec 64) (prot flags : BitVec 32) (directMemoryStart alignment : BitVec 64) :
    Option (State × Answer) :=
  match addr with
  | none => refuse s 0 .efault
  | some addr =>
    let inAddr := addr.toNat
    let len := len.toNat
    let alignment := alignment.toNat
    if len = 0 ∨ len % pageSize ≠ 0 ∨ directMemoryStart.toInt < 0 ∨
      directMemoryStart.toNat % pageSize ≠ 0 ∨ badAlignment alignment then refuse s inAddr .einval
    else if bit prot protCpuExec then refuse s inAddr .eacces
    else
      match decodeMemoryProtection prot with
      | none => refuse s inAddr .einval
      | some (mode, gpuMode) =>
        let direct := directMemoryStart.toNat
        if !canMapDirect s.physical direct len then refuse s inAddr .enomem
        else if bit flags guestMapFixed then
          if inAddr = 0 ∨ inAddr % pageSize ≠ 0 ∨ (alignment ≠ 0 ∧ inAddr % alignment ≠ 0) then
            refuse s inAddr .einval
          else if bit flags guestMapNoOverwrite ∧ VirtualRanges.hasOverlap s.ranges inAddr len then
            refuse s inAddr .enomem
          else
            (consumeFixed sizes s inAddr len).bind fun (s, consumed) =>
              if consumed.isSome then
                mapAt sizes s inAddr inAddr len direct prot mode gpuMode consumed
              else refuse s inAddr .enomem
        else mapDirectAnywhere sizes s inAddr len direct alignment prot mode gpuMode

/-- `MAXIMUM_NAME_SIZE`. -/
def maximumNameSize : ℕ := 32

/-- `DEFAULT_PS5_BASE`. -/
def defaultPs5Base : ℕ := 0x200000000

/-- `SUPPORTED_MAP_BITS`. -/
def supportedMapBits : BitVec 32 := 0xff408490

/-- `GUEST_MAP_NO_COALESCE`. -/
def guestMapNoCoalesce : BitVec 32 := 0x400000

/-- `alignment_shift`. -/
def alignmentShift (flags : BitVec 32) : ℕ := flags.toNat / 0x1000000

/-- `map_alignment`. -/
def mapAlignment (flags : BitVec 32) : ℕ :=
  if alignmentShift flags ≠ 0 then 1 <<< alignmentShift flags else pageSize

/-- The end of `KernelMapNamedFlexibleMemory`, once the address is known. -/
def finishFlexible (sizes : Sizes) (s : State) (inAddr outAddr len : ℕ) (prot flags : BitVec 32)
    (mode : Mode) (gpuMode : GpuAccessMode) (name : List UInt8)
    (consumed : Option (List UInt8)) : Option (State × Answer) :=
  if outAddr = 0 then
    let s := match consumed with
      | some name => (putBack s inAddr len (some name)).1
      | none => s
    refuse s outAddr .enomem
  else
    (flexibleMap sizes s outAddr len prot.toInt mode gpuMode name).bind fun (s, mapped) =>
      if mapped then
        match VirtualRanges.add s.ranges outAddr len 0 prot.toInt 0 .flexible (some name)
            (bit flags guestMapNoCoalesce) with
        | (ranges, true) => some ({ s with ranges }, ⟨none, outAddr⟩)
        | (_, false) =>
          (flexibleUnmap sizes s outAddr len).bind fun (s, unmapped) =>
            if unmapped.isSome then
              (mustPutBack s outAddr len consumed).map fun s => (s, ⟨some .ebusy, outAddr⟩)
            else none
      else (mustPutBack s outAddr len consumed).map fun s => (s, ⟨some .enomem, outAddr⟩)

/-- `KernelMapNamedFlexibleMemory`; the name is what stands before its terminator. -/
def kernelMapNamedFlexibleMemory (sizes : Sizes) (s : State) (addrInOut : Option (BitVec 64))
    (len : BitVec 64) (prot flags : BitVec 32) (name : Option (List UInt8)) :
    Option (State × Answer) :=
  match addrInOut with
  | none => none
  | some addr =>
    let inAddr := addr.toNat
    let len := len.toNat
    if len = 0 ∨ len % pageSize ≠ 0 then refuse s inAddr .einval
    else if len > available sizes s then refuse s inAddr .enomem
    else
      match name with
      | none => refuse s inAddr .efault
      | some name =>
        if name.length ≥ maximumNameSize then refuse s inAddr .enametoolong
        else if bit flags (~~~supportedMapBits) ∨
          (alignmentShift flags ≠ 0 ∧ (alignmentShift flags < 14 ∨ alignmentShift flags > 31)) then
          refuse s inAddr .einval
        else
          match decodeMemoryProtection prot with
          | none => none
          | some (mode, gpuMode) =>
            if bit flags guestMapFixed then
              if inAddr = 0 ∨ inAddr % pageSize ≠ 0 ∨ inAddr % mapAlignment flags ≠ 0 then
                refuse s inAddr .einval
              else if bit flags guestMapNoOverwrite ∧
                VirtualRanges.hasOverlap s.ranges inAddr len then refuse s inAddr .enomem
              else
                (consumeFixed sizes s inAddr len).bind fun (s, consumed) =>
                  finishFlexible sizes s inAddr (if consumed.isSome then inAddr else 0) len prot
                    flags mode gpuMode name consumed
            else
              finishFlexible sizes s inAddr
                (findGuestFreeRange s.space.free s.ranges
                  (if inAddr ≠ 0 then inAddr else defaultPs5Base) len (mapAlignment flags))
                len prot flags mode gpuMode name none

/-- `KernelReserveVirtualRange`. -/
def kernelReserveVirtualRange (sizes : Sizes) (s : State) (addr : Option (BitVec 64))
    (len : BitVec 64) (flags : BitVec 32) (alignment : BitVec 64) : Option (State × Answer) :=
  let inAddr := (addr.map BitVec.toNat).getD 0
  let len := len.toNat
  let alignment := alignment.toNat
  if addr.isNone ∨ len = 0 ∨ len % pageSize ≠ 0 then refuse s inAddr .einval
  else if badAlignment alignment then refuse s inAddr .einval
  else if bit flags guestMapFixed then
    if inAddr = 0 ∨ inAddr % pageSize ≠ 0 then refuse s inAddr .einval
    else if bit flags guestMapNoOverwrite ∧ VirtualRanges.hasOverlap s.ranges inAddr len then
      refuse s inAddr .enomem
    else
      (replaceFixedRangeWithReserved sizes s inAddr len).bind fun (s, replaced) =>
        if replaced then some (s, ⟨none, inAddr⟩) else refuse s inAddr .enomem
  else
    let outAddr := findGuestFreeRange s.space.free s.ranges inAddr len
      (if alignment ≠ 0 then alignment else pageSize)
    if outAddr = 0 then refuse s inAddr .enomem
    else
      match VirtualRanges.add s.ranges outAddr len 0 0 0 .reserved (some anon) false with
      | (_, false) => refuse s inAddr .ebusy
      | (ranges, true) => some ({ s with ranges }, ⟨none, outAddr⟩)

end Prosperismo.KernelMemory
