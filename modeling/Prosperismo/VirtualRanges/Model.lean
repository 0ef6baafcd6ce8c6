import Mathlib.Data.List.Basic
import Mathlib.Order.Lattice

/-!
# The book of virtual ranges

`VirtualRanges` of `kernel/memory.cpp`: a vector of records, sorted by start,
each of which describes one stretch of the guest's address space. Every method
runs under the object's mutex.

Addresses, sizes and offsets are 64 bit numbers; sums the source writes without
a guard wrap. A name is the part of the character array before its terminator.
-/

namespace Prosperismo.VirtualRanges

/-- `UINT64_MAX`. -/
def uint64Max : ℕ := 0xffffffffffffffff

/-- A sum of 64 bit numbers. -/
def wrap (n : ℕ) : ℕ := n % 0x10000000000000000

/-- `KERNEL_MAXIMUM_NAME_LENGTH`. -/
def kernelMaximumNameLength : ℕ := 32

/-- `VirtualRangeType`. -/
inductive RangeType
  | reserved
  | poolReserved
  | direct
  | flexible
  | pooled
  | stack
  | code
  | runtime
  deriving DecidableEq, Repr

/-- `IsReservedRangeType`. -/
def isReservedRangeType (type : RangeType) : Bool := type = .reserved || type = .poolReserved

/-- `CopyVirtualRangeName`: at most 31 characters, up to the terminator; a null
pointer gives the empty name. -/
def copyVirtualRangeName (name : Option (List UInt8)) : List UInt8 :=
  match name with
  | some name => (name.takeWhile fun c => c ≠ 0).take (kernelMaximumNameLength - 1)
  | none => []

/-- `VirtualRangesOverlap`. -/
def virtualRangesOverlap (leftStart leftSize rightStart rightSize : ℕ) : Bool :=
  if leftSize = 0 ∨ rightSize = 0 then false
  else
    let leftEnd := if uint64Max - leftStart < leftSize then uint64Max else leftStart + leftSize
    let rightEnd :=
      if uint64Max - rightStart < rightSize then uint64Max else rightStart + rightSize
    decide (leftStart < rightEnd ∧ rightStart < leftEnd)

/-- `VirtualRanges::Range`. -/
structure Range where
  start : ℕ
  size : ℕ
  offset : ℕ
  protection : ℤ
  memoryType : ℤ
  type : RangeType
  disallowMerge : Bool
  name : List UInt8
  deriving DecidableEq, Repr

/-- `End`. -/
def endOf (start size : ℕ) : ℕ := if uint64Max - start < size then uint64Max else start + size

/-- The end of a record. -/
def Range.stop (r : Range) : ℕ := endOf r.start r.size

/-- `SameMergeKey`. -/
def sameMergeKey (left right : Range) : Bool :=
  if left.disallowMerge || right.disallowMerge || left.type = .direct || right.type = .direct then
    false
  else
    left.type = right.type && left.protection = right.protection &&
      left.memoryType = right.memoryType && left.name = right.name

/-- `AddPiece`: the part `[start, stop)` of `source`, if there is one. -/
def addPiece (source : Range) (start stop : ℕ) : List Range :=
  if stop ≤ start then []
  else [{ source with
    start, size := stop - start
    offset := if source.type = .direct then wrap (source.offset + (start - source.start))
      else source.offset }]

/-- What `LowerBound` leaves behind: the records that start before `start`. -/
def before (ranges : List Range) (start : ℕ) : List Range :=
  ranges.takeWhile fun r => decide (r.start < start)

/-- `LowerBound`: the records from the iterator on. -/
def lowerBound (ranges : List Range) (start : ℕ) : List Range :=
  ranges.dropWhile fun r => decide (r.start < start)

/-- The test both merge loops make, and the record they grow. -/
def merge (left right : Range) : Option Range :=
  if left.stop = right.start ∧ sameMergeKey left right then
    some { left with size := wrap (left.size + right.size) }
  else none

/-- The loop of `MergeAroundUnlocked`: `current` takes over the records after it
until one does not merge. -/
def mergeFollowing : Range → List Range → List Range
  | current, [] => [current]
  | current, next :: ranges =>
    match merge current next with
    | some current => mergeFollowing current ranges
    | none => current :: next :: ranges

/-- `MergeAroundUnlocked`. -/
def mergeAroundUnlocked (ranges : List Range) (index : ℕ) : List Range :=
  match ranges.drop index with
  | [] => ranges
  | current :: following =>
    match (ranges.take index).getLast? with
    | none => ranges.take index ++ mergeFollowing current following
    | some previous =>
      match merge previous current with
      | some grown => (ranges.take index).dropLast ++ mergeFollowing grown following
      | none => ranges.take index ++ mergeFollowing current following

/-- One round of the loop of `MergeUnlocked`. -/
def pushMerged (merged : List Range) (r : Range) : List Range :=
  match merged.getLast? with
  | none => merged ++ [r]
  | some last =>
    match merge last r with
    | some grown => merged.dropLast ++ [grown]
    | none => merged ++ [r]

/-- `MergeUnlocked`. -/
def mergeUnlocked (ranges : List Range) : List Range :=
  if ranges.length < 2 then ranges
  else (ranges.mergeSort fun left right => decide (left.start ≤ right.start)).foldl pushMerged []

/-- What `EditUnlocked` makes of one record. -/
def editPieces (start size : ℕ) (edit : Range → Range) (r : Range) : List Range :=
  if virtualRangesOverlap start size r.start r.size then
    let midStart := max start r.start
    let midEnd := min (endOf start size) r.stop
    addPiece r r.start midStart ++
      edit { r with
        start := midStart, size := midEnd - midStart
        offset := if r.type = .direct then wrap (r.offset + (midStart - r.start)) else r.offset } ::
      addPiece r midEnd r.stop
  else [r]

/-- `EditUnlocked`. -/
def editUnlocked (ranges : List Range) (start size : ℕ) (edit : Range → Range) : List Range :=
  if size = 0 then ranges else mergeUnlocked (ranges.flatMap (editPieces start size edit))

/-- What `RemoveUnlocked` makes of one record. -/
def removePieces (start size : ℕ) (r : Range) : List Range :=
  if virtualRangesOverlap start size r.start r.size then
    addPiece r r.start (max start r.start) ++ addPiece r (min (endOf start size) r.stop) r.stop
  else [r]

/-- `RemoveUnlocked`, with its result. -/
def removeUnlocked (ranges : List Range) (start size : ℕ) : List Range × Bool :=
  if size = 0 then (ranges, false)
  else (ranges.flatMap (removePieces start size),
    ranges.any fun r => virtualRangesOverlap start size r.start r.size)

/-- `FindOverlap`. -/
def findOverlap (ranges : List Range) (start size : ℕ) : Option Range :=
  match (lowerBound ranges start).head?.filter
      fun r => virtualRangesOverlap start size r.start r.size with
  | some position => some position
  | none => (before ranges start).getLast?.filter
      fun r => virtualRangesOverlap start size r.start r.size

/-! ### The methods -/

/-- `Add`. -/
def add (ranges : List Range) (start size offset : ℕ) (protection memoryType : ℤ)
    (type : RangeType) (name : Option (List UInt8)) (disallowMerge : Bool) : List Range × Bool :=
  if start = 0 ∨ size = 0 then (ranges, false)
  else
    let overlaps := fun r : Range => virtualRangesOverlap start size r.start r.size
    if (lowerBound ranges start).head?.any overlaps ∨ (before ranges start).getLast?.any overlaps
    then (ranges, false)
    else
      let r : Range :=
        { start, size, offset, protection, memoryType, type, disallowMerge
          name := copyVirtualRangeName name }
      (mergeAroundUnlocked (before ranges start ++ r :: lowerBound ranges start)
        (before ranges start).length, true)

/-- The record the fast paths of `Remove` and `Rename` look for. -/
def exactMatch (ranges : List Range) (start size : ℕ) : Option Range :=
  (lowerBound ranges start).head?.filter fun r => decide (r.start = start ∧ r.size = size)

/-- `Remove`. -/
def remove (ranges : List Range) (start size : ℕ) : List Range × Bool :=
  match exactMatch ranges start size with
  | some _ => (before ranges start ++ (lowerBound ranges start).tail, true)
  | none =>
    let (ranges, removed) := removeUnlocked ranges start size
    (mergeUnlocked ranges, removed)

/-- `HasOverlap`. -/
def hasOverlap (ranges : List Range) (start size : ℕ) : Bool := (findOverlap ranges start size).isSome

/-- `QueryOverlap`: the range it writes, when it returns true. -/
def queryOverlap (ranges : List Range) (start size : ℕ) : Option Range := findOverlap ranges start size

/-- `ReleaseReserved`. -/
def releaseReserved (ranges : List Range) (start size : ℕ) : List Range × Bool :=
  (ranges.eraseP fun r => decide (r.start = start ∧ r.size = size) && isReservedRangeType r.type,
    true)

/-- `ConsumeReserved`. -/
def consumeReserved (ranges : List Range) (start size : ℕ) (type : RangeType) : List Range × Bool :=
  if ranges.any fun r => decide (r.type = type ∧ start ≥ r.start ∧ endOf start size ≤ r.stop) then
    (mergeUnlocked (removeUnlocked ranges start size).1, true)
  else (ranges, false)

/-- The record of type `type` that contains `current`. -/
def reservedAt (ranges : List Range) (type : RangeType) (current : ℕ) : Option Range :=
  ranges.find? fun r => decide (r.type = type ∧ current ≥ r.start ∧ current < r.stop)

theorem stop_of_reservedAt {ranges : List Range} {type : RangeType} {current : ℕ} {r : Range}
    (h : reservedAt ranges type current = some r) : current < r.stop := by
  have := List.find?_some h
  rw [decide_eq_true_eq] at this
  exact this.2.2

/-- The loop of `ConsumeReservedSpan`: whether records of the type follow each
other from `current` to `stop`. -/
def spanReserved (ranges : List Range) (type : RangeType) (stop current : ℕ) : Bool :=
  if current < stop then
    match _hcandidate : reservedAt ranges type current with
    | none => false
    | some candidate => spanReserved ranges type stop (min stop candidate.stop)
  else true
termination_by stop - current
decreasing_by
  have := stop_of_reservedAt _hcandidate
  omega

/-- `ConsumeReservedSpan`, with the range it writes to `first_range`. -/
def consumeReservedSpan (ranges : List Range) (start size : ℕ) (type : RangeType) :
    List Range × Bool × Option Range :=
  if size = 0 then (ranges, false, none)
  else
    let stop := endOf start size
    let firstRange := if start < stop then reservedAt ranges type start else none
    if spanReserved ranges type stop start then
      (mergeUnlocked (removeUnlocked ranges start size).1, true, firstRange)
    else (ranges, false, firstRange)

/-- The edit of `Rename`. -/
def setName (name : Option (List UInt8)) (r : Range) : Range :=
  { r with name := copyVirtualRangeName name }

/-- `Rename`. -/
def rename (ranges : List Range) (start size : ℕ) (name : Option (List UInt8)) : List Range :=
  match exactMatch ranges start size with
  | some r => mergeAroundUnlocked
      (before ranges start ++ setName name r :: (lowerBound ranges start).tail)
      (before ranges start).length
  | none => editUnlocked ranges start size (setName name)

/-- `Protect`. -/
def protect (ranges : List Range) (start size : ℕ) (protection : ℤ) : List Range :=
  editUnlocked ranges start size fun r => { r with protection }

/-- `SetMemoryType`. -/
def setMemoryType (ranges : List Range) (start size : ℕ) (memoryType : ℤ) : List Range :=
  editUnlocked ranges start size fun r => { r with memoryType }

/-- A call of a method that may change the book. -/
inductive Call
  | add (start size offset : ℕ) (protection memoryType : ℤ) (type : RangeType)
      (name : Option (List UInt8)) (disallowMerge : Bool)
  | remove (start size : ℕ)
  | releaseReserved (start size : ℕ)
  | consumeReserved (start size : ℕ) (type : RangeType)
  | consumeReservedSpan (start size : ℕ) (type : RangeType)
  | rename (start size : ℕ) (name : Option (List UInt8))
  | protect (start size : ℕ) (protection : ℤ)
  | setMemoryType (start size : ℕ) (memoryType : ℤ)
  deriving DecidableEq, Repr

/-- The book after a call, and what the call returns; a method without a result
counts as returning true. -/
def Call.apply (ranges : List Range) : Call → List Range × Bool
  | add start size offset protection memoryType type name disallowMerge =>
    VirtualRanges.add ranges start size offset protection memoryType type name disallowMerge
  | remove start size => VirtualRanges.remove ranges start size
  | releaseReserved start size => VirtualRanges.releaseReserved ranges start size
  | consumeReserved start size type => VirtualRanges.consumeReserved ranges start size type
  | consumeReservedSpan start size type =>
    let (ranges, consumed, _) := VirtualRanges.consumeReservedSpan ranges start size type
    (ranges, consumed)
  | rename start size name => (VirtualRanges.rename ranges start size name, true)
  | protect start size protection => (VirtualRanges.protect ranges start size protection, true)
  | setMemoryType start size memoryType =>
    (VirtualRanges.setMemoryType ranges start size memoryType, true)

/-- The calls made one after another on a fresh object. -/
def run (calls : List Call) : List Range := calls.foldl (fun ranges c => (c.apply ranges).1) []

end Prosperismo.VirtualRanges
