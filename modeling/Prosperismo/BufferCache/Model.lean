import Prosperismo.Base.Stores
import Prosperismo.GuestAddressSpace.Model
import Prosperismo.StreamBuffer.Model

/-!
# Downloads of the buffer cache

What the GPU has written into the cached buffers goes back to the guest in batches.
`RecordDownloads` reserves one range of the download stream for a whole batch and records a copy
from each owner into a slot of it; once the GPU has executed the copies, `PublishDownloads`
writes the bytes from the stream to the guest's memory.

Copies on the GPU move whole dwords and slots are aligned to 64 bytes, so a download copy is
widened to its envelope, and the widening is undone when the bytes are read from the stream.

An owner is a cached buffer, so never the stream itself, and the test of `CopyFrom` for a copy of
a buffer onto itself does not apply. Where the source stops the program, a function has no value.
Barriers and the flush of memory that is not coherent move no bytes.
-/

namespace Prosperismo.BufferCache

open GuestAddressSpace (MapEntry MapEntries findContainingUnlocked rangeOk walk)
open StreamBuffer (Ring uint64Max)

/-! ### Recording -/

/-- A cached `Buffer`: which one it is, and its size. -/
structure Owner where
  handle : ℕ
  size : ℕ
  size_le : size ≤ uint64Max
  deriving DecidableEq

/-- `DownloadCopy`. -/
structure DownloadCopy where
  owner : Option Owner
  sourceOffset : ℕ
  address : ℕ
  size : ℕ

/-- `DownloadRange`. -/
structure DownloadRange where
  address : ℕ
  size : ℕ
  offset : ℕ
  deriving DecidableEq

/-- `DOWNLOAD_ALIGNMENT`. -/
def downloadAlignment : ℕ := 64

/-- `AlignDownload`; its callers see to it that the sum is in range. -/
def alignDownload (size : ℕ) : ℕ :=
  (size + downloadAlignment - 1) / downloadAlignment * downloadAlignment

/-- `DownloadEnvelope`: where the envelope begins in the owner, and its size. -/
def downloadEnvelope (copy : DownloadCopy) : Option (ℕ × ℕ) :=
  match copy.owner with
  | none => none
  | some owner =>
    if copy.size = 0 ∨ owner.size < copy.sourceOffset ∨
        owner.size - copy.sourceOffset < copy.size then none
    else
      let first := copy.sourceOffset / 4 * 4
      if uint64Max - copy.size < copy.sourceOffset ∨
          uint64Max - 3 < copy.sourceOffset + copy.size then none
      else
        let last := (copy.sourceOffset + copy.size + 3) / 4 * 4
        if owner.size < last then none else some (first, last - first)

/-- The first loop of `RecordDownloads`, from a `reservation_size` on. -/
def reservationSize : List DownloadCopy → ℕ → Option ℕ
  | [], reserved => some reserved
  | copy :: copies, reserved =>
    match downloadEnvelope copy with
    | none => none
    | some (_, envelopeSize) =>
      if uint64Max - (downloadAlignment - 1) < envelopeSize then none
      else if uint64Max - reserved < alignDownload envelopeSize then none
      else reservationSize copies (reserved + alignDownload envelopeSize)

/-- A copy on the GPU into the stream. -/
structure BufferCopy where
  owner : Owner
  sourceOffset : ℕ
  destinationOffset : ℕ
  size : ℕ

/-- `CopyFrom`, into a stream of the given size. -/
def copyFrom (streamSize : ℕ) (owner : Owner) (sourceOffset destinationOffset size : ℕ) :
    Option BufferCopy :=
  if size = 0 ∨ owner.size < sourceOffset ∨ owner.size - sourceOffset < size ∨
      streamSize < destinationOffset ∨ streamSize - destinationOffset < size then none
  else some ⟨owner, sourceOffset, destinationOffset, size⟩

/-- The second loop of `RecordDownloads`, from a `cursor` on: what it records and what it returns
for each copy. -/
def recordCopies (streamSize baseOffset : ℕ) :
    List DownloadCopy → ℕ → Option (List (BufferCopy × DownloadRange))
  | [], _ => some []
  | copy :: copies, cursor =>
    match downloadEnvelope copy, copy.owner with
    | some (sourceBegin, envelopeSize), some owner =>
      match copyFrom streamSize owner sourceBegin (baseOffset + cursor) envelopeSize with
      | none => none
      | some command =>
        let range := ⟨copy.address, copy.size,
          baseOffset + cursor + (copy.sourceOffset - sourceBegin)⟩
        (recordCopies streamSize baseOffset copies (cursor + alignDownload envelopeSize)).map
          ((command, range) :: ·)
    | _, _ => none

/-- What `RecordDownloads` leaves: the copies and the ranges, and the stream. -/
structure Batch where
  recorded : List (BufferCopy × DownloadRange)
  ring : Ring
  gpuTick : ℕ

/-- The copies that are recorded. -/
def Batch.commands (batch : Batch) : List BufferCopy := batch.recorded.map Prod.fst

/-- What `RecordDownloads` returns. -/
def Batch.downloads (batch : Batch) : List DownloadRange := batch.recorded.map Prod.snd

/-- `RecordDownloads`. -/
def recordDownloads (buffer : StreamBuffer.Buffer) (ring : Ring) (gpuTick currentTick : ℕ)
    (gpu : ℕ → ℕ) (copies : List DownloadCopy) : Option Batch :=
  match reservationSize copies 0 with
  | none => none
  | some 0 => some ⟨[], ring, gpuTick⟩
  | some reserved =>
    let mapped := ring.map buffer reserved downloadAlignment true gpuTick gpu
    match mapped.offset with
    | none => none
    | some baseOffset =>
      (recordCopies buffer.size baseOffset copies 0).map fun recorded =>
        ⟨recorded, mapped.ring.commit currentTick, mapped.gpuTick⟩

/-! ### On the GPU -/

/-- The contents of the stream after the copies. -/
def execute (device : Owner → ℕ → UInt8) (commands : List BufferCopy) (stream : ℕ → UInt8) :
    ℕ → UInt8 :=
  commands.foldl (fun stream command =>
    copyObject command.size command.sourceOffset command.destinationOffset (device command.owner)
      stream) stream

/-! ### Publishing -/

/-- `WriteBacking`: the bytes from `source` on go to the positions of the backing that the entries
record for the range. The first loop of `TryTransferBacking` looks at every part before the second
one moves a byte. -/
def writeBacking (maps : MapEntries) (backingSize vaddr : ℕ) (source : ℕ → UInt8) (size : ℕ)
    (backing : ℕ → UInt8) : Option (ℕ → UInt8) :=
  if size = 0 ∨ uint64Max - vaddr < size then none
  else
    let last := vaddr + size
    match walk (findContainingUnlocked maps) (fun entry => entry.vaddr + entry.size) last vaddr with
    | none => none
    | some parts =>
      if parts.all fun (entry, current) =>
          rangeOk backingSize (entry.backingOffset + current - entry.vaddr)
            (min last (entry.vaddr + entry.size) - current) then
        some (parts.foldl (fun backing (entry, current) =>
          copyObject (min last (entry.vaddr + entry.size) - current) (current - vaddr)
            (entry.backingOffset + current - entry.vaddr) source backing) backing)
      else none

/-- `PublishDownloads`, with `mapped` the contents of the stream. -/
def publishDownloads (maps : MapEntries) (backingSize streamSize : ℕ) (mapped : ℕ → UInt8) :
    List DownloadRange → (ℕ → UInt8) → Option (ℕ → UInt8)
  | [], backing => some backing
  | range :: downloads, backing =>
    -- the checks of `Invalidate`
    if streamSize < range.offset ∨ streamSize - range.offset < range.size then none
    else
      (writeBacking maps backingSize range.address (fun i => mapped (range.offset + i)) range.size
        backing).bind (publishDownloads maps backingSize streamSize mapped downloads)

end Prosperismo.BufferCache
