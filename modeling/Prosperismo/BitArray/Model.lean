import Prosperismo.Base.Runs

/-!
# Arrays of bits

`BitArray` of `common/bitArray.h`: `N` bits in words of 64, with operations on ranges
of indices and searches for runs of set bits. Of `N` there is the number of words, so
the model is of all positive multiples of 64.

Indices and sizes are numbers, as none of their sums is larger than `N`. Reading a
word that is not there gives 0, and writing it does nothing; the operations do
neither.
-/

namespace Prosperismo

/-- `m_data` of `BitArray<N>` for `N` 64 times `wordCount`. -/
structure BitArray (wordCount : ℕ) where
  data : Vector (BitVec 64) wordCount
  deriving DecidableEq

namespace BitArray

/-- `BITS_PER_WORD`. -/
abbrev bitsPerWord : ℕ := 64

/-- `Range`: the first index and the one after the last. -/
abbrev Range := ℕ × ℕ

/-- `std::countr_zero`. -/
def countrZero (word : BitVec 64) : ℕ := word.ctz.toNat

/-- `std::countr_one`. -/
def countrOne (word : BitVec 64) : ℕ := countrZero (~~~word)

/-- `std::countl_zero`. -/
def countlZero (word : BitVec 64) : ℕ := word.clz.toNat

/-- `std::countl_one`. -/
def countlOne (word : BitVec 64) : ℕ := countlZero (~~~word)

variable {wordCount : ℕ}

/-- `N`. -/
def size (wordCount : ℕ) : ℕ := wordCount * bitsPerWord

/-- The default constructor. -/
def empty : BitArray wordCount := ⟨Vector.replicate wordCount 0⟩

/-- A word of `m_data`. -/
def word (a : BitArray wordCount) (index : ℕ) : BitVec 64 := a.data[index]?.getD 0

/-- `Get`. -/
def get (a : BitArray wordCount) (index : ℕ) : Bool :=
  a.word (index / bitsPerWord) &&& (1#64 <<< (index % bitsPerWord)) ≠ 0

/-! ### Ranges of indices -/

/-- All bits of a word from `startBit` on. -/
def maskFrom (startBit : ℕ) : BitVec 64 := ~~~0#64 <<< startBit

/-- All bits of a word up to `endBit`. -/
def maskTo (endBit : ℕ) : BitVec 64 :=
  if endBit = bitsPerWord - 1 then ~~~0#64 else (1#64 <<< (endBit + 1)) - 1

/-- All bits of a word below `startBit`. -/
def maskBelow (startBit : ℕ) : BitVec 64 := (1#64 <<< startBit) - 1

/-- All bits of a word above `endBit`. -/
def maskAbove (endBit : ℕ) : BitVec 64 :=
  if endBit = bitsPerWord - 1 then 0#64 else ~~~((1#64 <<< (endBit + 1)) - 1)

/-- What an operation makes of the words of a range: of the only one, of the first, of those
between, and of the last. Each is given the index of the word. -/
structure Edit where
  both : ℕ → BitVec 64 → BitVec 64
  first : ℕ → BitVec 64 → BitVec 64
  between : ℕ → BitVec 64 → BitVec 64
  last : ℕ → BitVec 64 → BitVec 64

/-- Change one word. -/
def modify (a : BitArray wordCount) (index : ℕ) (f : ℕ → BitVec 64 → BitVec 64) :
    BitArray wordCount :=
  ⟨a.data.setIfInBounds index (f index (a.word index))⟩

/-- The shape that `SetRange`, `UnsetRange` and the masking constructor have: nothing for an empty
range or one that does not end in the array, one word, or a loop between two. -/
def editRange (a : BitArray wordCount) (start stop : ℕ) (edit : Edit) :
    BitArray wordCount :=
  if start ≥ stop ∨ stop > size wordCount then a
  else
    let firstWord := start / bitsPerWord
    let lastWord := (stop - 1) / bitsPerWord
    if firstWord = lastWord then a.modify firstWord edit.both
    else
      let a := a.modify firstWord edit.first
      let a := (List.range' (firstWord + 1) (lastWord - (firstWord + 1))).foldl
        (fun a word => a.modify word edit.between) a
      a.modify lastWord edit.last

/-- `SetRange`. -/
def setRange (a : BitArray wordCount) (start stop : ℕ) : BitArray wordCount :=
  let startMask := maskFrom (start % bitsPerWord)
  let endMask := maskTo ((stop - 1) % bitsPerWord)
  a.editRange start stop
    { both := fun _ word => word ||| (startMask &&& endMask)
      first := fun _ word => word ||| startMask
      between := fun _ _ => ~~~0#64
      last := fun _ word => word ||| endMask }

/-- `UnsetRange`, whose masks are those of the bits to keep. -/
def unsetRange (a : BitArray wordCount) (start stop : ℕ) : BitArray wordCount :=
  let startMask := maskBelow (start % bitsPerWord)
  let endMask := maskAbove ((stop - 1) % bitsPerWord)
  a.editRange start stop
    { both := fun _ word => word &&& (startMask ||| endMask)
      first := fun _ word => word &&& startMask
      between := fun _ _ => 0#64
      last := fun _ word => word &&& endMask }

/-- The masking constructor. -/
def masked (other : BitArray wordCount) (start stop : ℕ) : BitArray wordCount :=
  let startMask := maskFrom (start % bitsPerWord)
  let endMask := maskTo ((stop - 1) % bitsPerWord)
  BitArray.empty.editRange start stop
    { both := fun word _ => other.word word &&& startMask &&& endMask
      first := fun word _ => other.word word &&& startMask
      between := fun word _ => other.word word
      last := fun word _ => other.word word &&& endMask }

/-! ### Runs of set bits -/

/-- The first loop of `FirstRangeFrom`: the word with the first set bit, and its index. -/
def firstWord (a : BitArray wordCount) (wordIndex : ℕ) (word : BitVec 64) :
    Option (ℕ × BitVec 64) :=
  if word = 0 then
    if wordIndex + 1 ≥ wordCount then none
    else a.firstWord (wordIndex + 1) (a.word (wordIndex + 1))
  else some (wordIndex, word)
termination_by wordCount - wordIndex

/-- The second loop: where the run ends that fills every word before this one. -/
def runEnd (a : BitArray wordCount) (wordIndex : ℕ) : ℕ :=
  if wordIndex < wordCount then
    if a.word wordIndex ≠ ~~~0#64 then wordIndex * bitsPerWord + countrOne (a.word wordIndex)
    else a.runEnd (wordIndex + 1)
  else size wordCount
termination_by wordCount - wordIndex

/-- `FirstRangeFrom`. -/
def firstRangeFrom (a : BitArray wordCount) (start : ℕ) : Range :=
  if start ≥ size wordCount then (size wordCount, size wordCount)
  else
    let wordIndex := start / bitsPerWord
    match a.firstWord wordIndex (a.word wordIndex &&& (~~~0#64 <<< (start % bitsPerWord))) with
    | none => (size wordCount, size wordCount)
    | some (wordIndex, word) =>
      let first := wordIndex * bitsPerWord + countrZero word
      let firstBit := first % bitsPerWord
      let firstOnes := countrOne (a.word wordIndex >>> firstBit)
      if firstBit + firstOnes < bitsPerWord then (first, first + firstOnes)
      else (first, a.runEnd (wordIndex + 1))

/-- The first loop of `LastRangeFrom`: the word with the last set bit, and its index. -/
def lastWord (a : BitArray wordCount) : ℕ → BitVec 64 → Option (ℕ × BitVec 64)
  | 0, word => if word = 0 then none else some (0, word)
  | wordIndex + 1, word =>
    if word = 0 then a.lastWord wordIndex (a.word wordIndex) else some (wordIndex + 1, word)

/-- The second loop: where the run starts that fills every word from this one on. -/
def runStart (a : BitArray wordCount) : ℕ → ℕ
  | 0 => 0
  | wordIndex + 1 =>
    if a.word wordIndex ≠ ~~~0#64 then
      (wordIndex + 1) * bitsPerWord - countlOne (a.word wordIndex)
    else a.runStart wordIndex

/-- `LastRangeFrom`. -/
def lastRangeFrom (a : BitArray wordCount) (stop : ℕ) : Range :=
  if stop = 0 then (0, 0)
  else
    let stop := if stop > size wordCount then size wordCount else stop
    let wordIndex := (stop - 1) / bitsPerWord
    match a.lastWord wordIndex (a.word wordIndex &&& maskTo ((stop - 1) % bitsPerWord)) with
    | none => (0, 0)
    | some (wordIndex, word) =>
      let emptyBits := countlZero word
      let ones := countlOne (word <<< emptyBits)
      let last := (wordIndex + 1) * bitsPerWord - emptyBits
      if emptyBits + ones < bitsPerWord then (last - ones, last)
      else (a.runStart wordIndex, last)

end BitArray

end Prosperismo
