import Prosperismo.Base.OrderedMap

/-!
# Range sets

`graphics/host_gpu/rangeSet.h`. A `RangeSet` keeps a set of bytes as a
`std::map` from the first address of a range to the address after its last. The
methods position an iterator with `lower_bound` or `upper_bound`, step it back
when the entry before it reaches into the request, and walk from there.

An iterator is the list of the entries it still has in front of it. A method
that stops the process on a bad request returns `none`.
-/

namespace Prosperismo.RangeSet

/-- `UINT64_MAX`. -/
def uint64Max : ℕ := 0xffffffffffffffff

/-- `RangeSet::Range`, what a callback is given. -/
structure Range where
  address : ℕ
  size : ℕ
  deriving DecidableEq, Repr

/-- `m_ranges`: the first address of a stored range, and the address after it. -/
abbrev Ranges := OrderedMap ℕ ℕ

/-- `End`. The process stops on address 0, on size 0 and on a range that leaves
the address space. -/
def endOf (address size : ℕ) : Option ℕ :=
  if address = 0 ∨ size = 0 ∨ size > uint64Max - address then none else some (address + size)

/-- `if (it != begin && std::prev(it)->second ...) it = std::prev(it)`, with the
entries behind and in front of `it`. -/
def stepBack (reaches : ℕ → Bool) (behind ahead : List (ℕ × ℕ)) : List (ℕ × ℕ) :=
  match behind.getLast? with
  | some prev => if reaches prev.2 then prev :: ahead else ahead
  | none => ahead

/-- The loop of `Add`: erase every entry that starts at `last` or before and
grow `[begin, last)` over it. -/
def absorb : List (ℕ × ℕ) → ℕ → ℕ → Ranges → ℕ × ℕ × Ranges
  | [], first, last, ranges => (first, last, ranges)
  | it :: rest, first, last, ranges =>
    if it.1 ≤ last then absorb rest (min first it.1) (max last it.2) (ranges.erase it.1)
    else (first, last, ranges)

/-- `Add`. -/
def add (ranges : Ranges) (address size : ℕ) : Option Ranges := do
  let stop ← endOf address size
  let it := stepBack (fun last => decide (last ≥ address)) (ranges.below address)
    (ranges.lowerBound address)
  let (first, last, ranges) := absorb it address stop ranges
  return ranges.emplace first last

/-- The loop of `Subtract`: erase every entry that starts before `stop` and put
back what sticks out to the left of `address` and to the right of `stop`. -/
def carve (address stop : ℕ) : List (ℕ × ℕ) → Ranges → Ranges
  | [], ranges => ranges
  | it :: rest, ranges =>
    if it.1 < stop then
      let ranges := ranges.erase it.1
      let ranges := if it.1 < address then ranges.emplace it.1 address else ranges
      if it.2 > stop then ranges.emplace stop it.2 else carve address stop rest ranges
    else ranges

/-- `Subtract`. -/
def subtract (ranges : Ranges) (address size : ℕ) : Option Ranges := do
  let stop ← endOf address size
  let it := stepBack (fun last => decide (last > address)) (ranges.below address)
    (ranges.lowerBound address)
  return carve address stop it ranges

/-- `Contains`. -/
def contains (ranges : Ranges) (address size : ℕ) : Option Bool := do
  let stop ← endOf address size
  let it := (ranges.upTo address).getLast?
  return it.any fun it => decide (it.1 ≤ address ∧ it.2 ≥ stop)

/-- `Intersects`. -/
def intersects (ranges : Ranges) (address size : ℕ) : Option Bool := do
  let stop ← endOf address size
  let prev := (ranges.upTo address).getLast?
  let it := (ranges.upperBound address).head?
  return if prev.any fun prev => decide (prev.2 > address) then true
    else it.any fun it => decide (it.1 < stop)

/-- One round of the loop of `ForEachIntersection`: what of an entry lies in the
request. -/
def clip (address stop : ℕ) (it : ℕ × ℕ) : Option Range :=
  let first := max address it.1
  let last := min stop it.2
  if first < last then some ⟨first, last - first⟩ else none

/-- `ForEachIntersection`: the ranges it calls `func` with, in order. -/
def forEachIntersection (ranges : Ranges) (address size : ℕ) : Option (List Range) := do
  let stop ← endOf address size
  let it := match (ranges.upTo address).getLast? with
    | none => ranges.upperBound address
    | some prev => prev :: ranges.upperBound address
  return (it.takeWhile fun it => decide (it.1 < stop)).filterMap (clip address stop)

/-- A call that changes the set. -/
inductive Call
  | add (address size : ℕ)
  | subtract (address size : ℕ)
  deriving DecidableEq, Repr

/-- What a call does. -/
def Call.apply (ranges : Ranges) : Call → Option Ranges
  | add address size => RangeSet.add ranges address size
  | subtract address size => RangeSet.subtract ranges address size

/-- The calls made one after another on a fresh object. -/
def run (calls : List Call) : Option Ranges := calls.foldlM Call.apply OrderedMap.empty

end Prosperismo.RangeSet
