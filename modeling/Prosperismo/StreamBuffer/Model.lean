import Mathlib.Data.Nat.GCD.Basic
import Prosperismo.Base.Run

/-!
# Stream buffers

A stream buffer hands out ranges of one mapped Vulkan buffer in rising order. `Map` reserves a
range and `Commit` marks it as used by the commands of the current tick. When a range does not
fit any more the buffer starts a new lap at offset zero, and from then on `Map` waits for the
ticks of the lap before as far as its range reaches.

A watch says that the commands of a tick use the buffer up to a bound. The watches of the lap
under way and those of the lap before are kept in two vectors that change places with every lap;
`m_current_watch_cursor` and `m_invalidation_mark` say how many of their elements count.

`m_gpu_tick` is what the host knows of the GPU's progress. Each `Refresh` may read any newer
value; `gpu` stands for the values that are read while a `Map` waits.

The flush of memory that is not coherent, and the wait for priority operations, touch nothing
that is modelled.
-/

namespace Prosperismo.StreamBuffer

/-- `UINT64_MAX`. -/
def uint64Max : ℕ := 0xffffffffffffffff

/-- `AlignUp`. -/
def alignUp (value alignment : ℕ) : Option ℕ :=
  if alignment = 0 then some value
  else if value % alignment = 0 then some value
  else if uint64Max - (alignment - value % alignment) < value then none
  else some (value + (alignment - value % alignment))

/-- The fixed part of a `Buffer`: its size, whether it is mapped and coherent, and the device's
`nonCoherentAtomSize`. -/
structure Buffer where
  size : ℕ
  mapped : Bool
  coherent : Bool
  atom : ℕ

/-- `Watch`. -/
structure Watch where
  tick : ℕ
  upperBound : ℕ
  deriving DecidableEq, Inhabited

/-- The mutable part of a `StreamBuffer`. -/
structure Ring where
  offset : ℕ
  mappedSize : ℕ
  currentWatches : List Watch
  currentWatchCursor : ℕ
  invalidationMark : Option ℕ
  previousWatches : List Watch
  waitCursor : ℕ
  waitBound : ℕ
  deriving DecidableEq

/-- `WATCHES_INITIAL_RESERVE`. -/
def watchesInitialReserve : ℕ := 0x4000

/-- `WATCHES_RESERVE_CHUNK`. -/
def watchesReserveChunk : ℕ := 0x1000

/-- `ReserveWatches`. -/
def reserveWatches (watches : List Watch) (growSize : ℕ) : List Watch :=
  watches ++ List.replicate growSize ⟨0, 0⟩

/-- The constructor of `StreamBuffer`. -/
def Ring.new : Ring where
  offset := 0
  mappedSize := 0
  currentWatches := reserveWatches [] watchesInitialReserve
  currentWatchCursor := 0
  invalidationMark := none
  previousWatches := reserveWatches [] watchesInitialReserve
  waitCursor := 0
  waitBound := 0

/-- `NormalizeReservation`: the size and the alignment. -/
def normalizeReservation (coherent : Bool) (atom size alignment : ℕ) : Option (ℕ × ℕ) :=
  if coherent then some (size, alignment)
  else
    match alignUp size atom with
    | none => none
    | some size =>
      if alignment ≠ 0 ∧ uint64Max / atom < alignment / Nat.gcd alignment atom then none
      else
        some (size, if alignment = 0 then atom else alignment / Nat.gcd alignment atom * atom)

/-- How `WaitPendingOperations` ends: what it returns, its two references, and `m_gpu_tick`. -/
structure Waited where
  ok : Bool
  waitCursor : ℕ
  waitBound : ℕ
  gpuTick : ℕ

/-- `m_gpu_tick` after `IsFree`: it is refreshed if it does not do. -/
def refreshFor (tick gpuTick counter : ℕ) : ℕ :=
  if tick ≤ gpuTick then gpuTick else max gpuTick counter

/-- The loop of `WaitPendingOperations` over the watches from `waitCursor` up to the mark. -/
def waitPending (requested : ℕ) (allowWait : Bool) (gpu : ℕ → ℕ) :
    List Watch → ℕ → ℕ → ℕ → Waited
  | [], waitCursor, waitBound, gpuTick => ⟨true, waitCursor, waitBound, gpuTick⟩
  | watch :: rest, waitCursor, waitBound, gpuTick =>
    if waitBound < requested then
      let polled := refreshFor watch.tick gpuTick (gpu waitCursor)
      if polled < watch.tick ∧ !allowWait then ⟨false, waitCursor, waitBound, polled⟩
      else
        -- `Scheduler().Wait(watch.tick)`
        waitPending requested allowWait gpu rest (waitCursor + 1) watch.upperBound
          (max polled watch.tick)
    else ⟨true, waitCursor, waitBound, gpuTick⟩

/-- `WaitPendingOperations`. -/
def waitPendingOperations (watches : List Watch) (invalidationMark : Option ℕ) (requested : ℕ)
    (allowWait : Bool) (waitCursor waitBound gpuTick : ℕ) (gpu : ℕ → ℕ) : Waited :=
  match invalidationMark with
  | none => ⟨true, waitCursor, waitBound, gpuTick⟩
  | some mark =>
    waitPending requested allowWait gpu ((watches.take mark).drop waitCursor) waitCursor waitBound
      gpuTick

/-- How `Map` ends: the offset it returns, unless that is null, the ring, and `m_gpu_tick`. -/
structure Mapped where
  offset : Option ℕ
  ring : Ring
  gpuTick : ℕ

namespace Ring

/-- The second half of `Map`, in the lap under way: `mappedSize` bytes at `alignedOffset`. -/
def stay (ring : Ring) (alignedOffset mappedSize : ℕ) (allowWait : Bool) (gpuTick : ℕ)
    (gpu : ℕ → ℕ) : Mapped :=
  let waited := waitPendingOperations ring.previousWatches ring.invalidationMark
    (alignedOffset + mappedSize) allowWait ring.waitCursor ring.waitBound gpuTick gpu
  if waited.ok then
    { offset := some alignedOffset
      ring := { ring with
        waitCursor := waited.waitCursor
        waitBound := waited.waitBound
        offset := alignedOffset
        mappedSize := mappedSize }
      gpuTick := waited.gpuTick }
  else ⟨none, ring, waited.gpuTick⟩

/-- The second half of `Map`, in a new lap. -/
def wrap (ring : Ring) (mappedSize : ℕ) (allowWait : Bool) (gpuTick : ℕ) (gpu : ℕ → ℕ) : Mapped :=
  let waited := waitPendingOperations ring.currentWatches (some ring.currentWatchCursor)
    (0 + mappedSize) allowWait 0 0 gpuTick gpu
  if waited.ok then
    { offset := some 0
      ring := { ring with
        invalidationMark := some ring.currentWatchCursor
        currentWatchCursor := 0
        previousWatches := ring.currentWatches
        currentWatches := ring.previousWatches
        waitCursor := waited.waitCursor
        waitBound := waited.waitBound
        offset := 0
        mappedSize := mappedSize }
      gpuTick := waited.gpuTick }
  else ⟨none, ring, waited.gpuTick⟩

/-- `Map`. -/
def map (ring : Ring) (buffer : Buffer) (size alignment : ℕ) (allowWait : Bool) (gpuTick : ℕ)
    (gpu : ℕ → ℕ) : Mapped :=
  if buffer.mapped = false then ⟨none, ring, gpuTick⟩
  else
    match normalizeReservation buffer.coherent buffer.atom size alignment with
    | none => ⟨none, ring, gpuTick⟩
    | some (mappedSize, alignment) =>
      if buffer.size < mappedSize then ⟨none, ring, gpuTick⟩
      else
        match alignUp ring.offset alignment with
        | none => ⟨none, ring, gpuTick⟩
        | some alignedOffset =>
          if buffer.size - mappedSize < alignedOffset then
            ring.wrap mappedSize allowWait gpuTick gpu
          else ring.stay alignedOffset mappedSize allowWait gpuTick gpu

/-- The last watch that counts, if its tick is the given one. -/
def extends? (ring : Ring) (tick : ℕ) : Bool :=
  ring.currentWatchCursor ≠ 0 ∧
    (ring.currentWatches.getD (ring.currentWatchCursor - 1) default).tick = tick

/-- `Commit`. -/
def commit (ring : Ring) (tick : ℕ) : Ring :=
  let offset := ring.offset + ring.mappedSize
  if ring.extends? tick then
    { ring with
      offset := offset
      currentWatches := ring.currentWatches.set (ring.currentWatchCursor - 1) ⟨tick, offset⟩ }
  else
    let watches :=
      if ring.currentWatches.length ≤ ring.currentWatchCursor + 1 then
        reserveWatches ring.currentWatches watchesReserveChunk
      else ring.currentWatches
    { ring with
      offset := offset
      currentWatches := watches.set ring.currentWatchCursor ⟨tick, offset⟩
      currentWatchCursor := ring.currentWatchCursor + 1 }

end Ring

/-! ### Steps -/

/-- The ring, the known progress of the GPU, and the scheduler's current tick. -/
structure State where
  ring : Ring
  gpuTick : ℕ
  currentTick : ℕ

/-- Before the first call. -/
def State.new (gpuTick currentTick : ℕ) : State :=
  ⟨.new, gpuTick, currentTick⟩

/-- What a step shows: a `Map` that returns a range, one that returns null, a `Commit` of the
range from `lower` to `upper`, or progress of the scheduler. -/
inductive Event
  | mapped (size alignment offset mappedSize : ℕ)
  | refused
  | committed (lower upper tick : ℕ)
  | progress

/-- What a `Map` of this size and alignment shows. -/
def Mapped.event (mapped : Mapped) (size alignment : ℕ) : Event :=
  match mapped.offset with
  | some offset => .mapped size alignment offset mapped.ring.mappedSize
  | none => .refused

/-- `Step buffer s e s'`: a call returns, or the scheduler makes progress. The sum in `Commit`
stays in the range of a `uint64_t`; after a `Map` it does by itself. -/
inductive Step (buffer : Buffer) : State → Event → State → Prop
  | map {s : State} (size alignment : ℕ) (allowWait : Bool) (gpu : ℕ → ℕ) :
      Step buffer s
        ((s.ring.map buffer size alignment allowWait s.gpuTick gpu).event size alignment)
        { s with
          ring := (s.ring.map buffer size alignment allowWait s.gpuTick gpu).ring
          gpuTick := (s.ring.map buffer size alignment allowWait s.gpuTick gpu).gpuTick }
  | commit {s : State} (hrange : s.ring.offset + s.ring.mappedSize ≤ uint64Max) :
      Step buffer s
        (.committed s.ring.offset (s.ring.offset + s.ring.mappedSize) s.currentTick)
        { s with ring := s.ring.commit s.currentTick }
  | progress {s : State} {gpuTick currentTick : ℕ} (hgpu : s.gpuTick ≤ gpuTick)
      (htick : s.currentTick ≤ currentTick) :
      Step buffer s .progress { s with gpuTick := gpuTick, currentTick := currentTick }

end Prosperismo.StreamBuffer
