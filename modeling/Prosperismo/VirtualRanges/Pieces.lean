import Prosperismo.Base.Coalesce
import Prosperismo.VirtualRanges.Model

/-!
# Cutting and joining records

What the two private walks over the vector do to the function the book stands
for, `view`: what it says about each address.

* A cut piece says about its addresses what the record it is cut from said;
  `lookup_editPieces` and `lookup_removePieces` are the two cuts of a record.
* Joining two records is harmless (`merging`), so that `MergeUnlocked`, which is
  the `coalesceAll` of the library on a sorted list, settles the list without
  changing the view.
* Around one changed record of a settled list `MergeAroundUnlocked` does what
  `MergeUnlocked` does (`mergeAroundUnlocked_eq`).
-/

namespace Prosperismo.VirtualRanges

open Extent

/-- What the book says about one address; only memory of type Direct has a
physical offset. -/
structure Attributes where
  type : RangeType
  protection : ℤ
  memoryType : ℤ
  name : List UInt8
  offset : Option ℕ
  deriving DecidableEq, Repr

/-- What a record says about an address. -/
def Range.attributes (r : Range) (a : ℕ) : Attributes where
  type := r.type
  protection := r.protection
  memoryType := r.memoryType
  name := r.name
  offset := if r.type = .direct then some (wrap (r.offset + (a - r.start))) else none

/-- A record is the interval from its start, of its size. -/
def extent : Extent Range ℕ := ⟨Range.start, fun r => r.start + r.size⟩

/-- What the book says about an address. -/
def view (ranges : List Range) (a : ℕ) : Option Attributes :=
  extent.lookup Range.attributes ranges a

/-- The end of the interval and the offset can be represented. -/
structure Bounded (r : Range) : Prop where
  stop_le : r.start + r.size ≤ uint64Max
  offset_le : r.offset ≤ uint64Max

theorem covers_iff {r : Range} {a : ℕ} :
    extent.Covers r a ↔ r.start ≤ a ∧ a < r.start + r.size := Iff.rfl

theorem endOf_eq {start size : ℕ} (h : start + size ≤ uint64Max) :
    endOf start size = start + size := if_neg (by omega)

theorem Bounded.stop_eq {r : Range} (h : Bounded r) : r.stop = r.start + r.size :=
  endOf_eq h.stop_le

theorem overlap_iff {start size : ℕ} {r : Range} (hsize : 0 < size)
    (hbound : start + size ≤ uint64Max) (h : Bounded r) (hpos : 0 < r.size) :
    virtualRangesOverlap start size r.start r.size = true ↔
      start < r.start + r.size ∧ r.start < start + size := by
  have hstop := h.stop_le
  unfold virtualRangesOverlap
  rw [if_neg (by omega), if_neg (by omega), if_neg (by omega), decide_eq_true_eq]

/-! ### Pieces -/

theorem wrap_add_wrap (m n : ℕ) : wrap (wrap m + n) = wrap (m + n) := Nat.mod_add_mod m _ n

theorem wrap_le (n : ℕ) : wrap n ≤ uint64Max :=
  Nat.le_of_lt_succ (Nat.mod_lt n (by decide))

/-- The part of a record from `start` to `stop`. -/
def piece (r : Range) (start stop : ℕ) : Range :=
  { r with
    start, size := stop - start
    offset := if r.type = .direct then wrap (r.offset + (start - r.start)) else r.offset }

theorem offset_piece_le {r : Range} (h : Bounded r) (start stop : ℕ) :
    (piece r start stop).offset ≤ uint64Max := by
  unfold piece
  dsimp only
  split
  · exact wrap_le _
  · exact h.offset_le

theorem addPiece_eq (r : Range) (start stop : ℕ) :
    addPiece r start stop = if stop ≤ start then [] else [piece r start stop] := rfl

/-- A piece says about its addresses what the record said. -/
theorem attributes_piece {r : Range} {start stop a : ℕ} (hstart : r.start ≤ start)
    (ha : start ≤ a) : (piece r start stop).attributes a = r.attributes a := by
  unfold Range.attributes piece
  dsimp only
  by_cases hdirect : r.type = .direct
  · have hsum : r.offset + (start - r.start) + (a - start) = r.offset + (a - r.start) := by omega
    rw [if_pos hdirect, if_pos hdirect, if_pos hdirect, wrap_add_wrap, hsum]
  · rw [if_neg hdirect, if_neg hdirect]

theorem lookup_addPiece {r : Range} {start stop : ℕ} (hstart : r.start ≤ start) (a : ℕ) :
    extent.lookup Range.attributes (addPiece r start stop) a
      = if start ≤ a ∧ a < stop then some (r.attributes a) else none := by
  rw [addPiece_eq]
  split
  · rw [if_neg (by omega), lookup_nil]
  · rename_i hlt
    have hcovers : extent.Covers (piece r start stop) a ↔ start ≤ a ∧ a < stop := by
      rw [covers_iff]
      show start ≤ a ∧ a < start + (stop - start) ↔ _
      omega
    by_cases ha : start ≤ a ∧ a < stop
    · rw [if_pos ha, lookup_cons_pos (hcovers.mpr ha), attributes_piece hstart ha.1]
    · rw [if_neg ha, lookup_cons_neg (fun h => ha (hcovers.mp h)), lookup_nil]

/-- What is known of a list of pieces of a record. -/
structure Cut (r : Range) (l : List Range) : Prop where
  tidy : extent.Tidy l
  within : Within (e := extent) extent r l
  bounded : ∀ i ∈ l, Bounded i

theorem cut_self {r : Range} (hpos : 0 < r.size) (h : Bounded r) : Cut r [r] where
  tidy := tidy_cons.mpr ⟨Nat.lt_add_of_pos_right hpos, Tidy.nil,
    fun _ hj => absurd hj List.not_mem_nil⟩
  within := fun i hi => by rw [List.mem_singleton.mp hi]; exact ⟨le_rfl, le_rfl⟩
  bounded := fun i hi => by rw [List.mem_singleton.mp hi]; exact h

theorem cut_addPiece {r : Range} {start stop : ℕ} (h : Bounded r) (hstart : r.start ≤ start)
    (hstop : stop ≤ r.start + r.size) : Cut r (addPiece r start stop) := by
  rw [addPiece_eq]
  split
  · exact ⟨Tidy.nil, fun _ hi => absurd hi List.not_mem_nil,
      fun _ hi => absurd hi List.not_mem_nil⟩
  · rename_i hlt
    have hend : extent.hi (piece r start stop) = stop := by
      show start + (stop - start) = stop
      omega
    refine ⟨tidy_cons.mpr ⟨?_, Tidy.nil, fun _ hj => absurd hj List.not_mem_nil⟩, ?_, ?_⟩
    · rw [hend]
      exact not_le.mp hlt
    · intro i hi
      rw [List.mem_singleton.mp hi, hend]
      exact ⟨hstart, hstop⟩
    · intro i hi
      rw [List.mem_singleton.mp hi]
      exact ⟨hend.le.trans (hstop.trans h.stop_le), offset_piece_le h start stop⟩

/-- Pieces of a record, one part before the other. -/
theorem Cut.append {r : Range} {l l' : List Range} (mid : ℕ) (h : Cut r l) (h' : Cut r l')
    (hl : ∀ i ∈ l, i.start + i.size ≤ mid) (hl' : ∀ i ∈ l', mid ≤ i.start) : Cut r (l ++ l') where
  tidy := tidy_append.mpr ⟨h.tidy, h'.tidy, fun i hi j hj => (hl i hi).trans (hl' j hj)⟩
  within := fun i hi => (List.mem_append.mp hi).elim (h.within i) (h'.within i)
  bounded := fun i hi => (List.mem_append.mp hi).elim (h.bounded i) (h'.bounded i)

theorem mem_addPiece {r i : Range} {start stop : ℕ} (h : i ∈ addPiece r start stop) :
    start = i.start ∧ i.start + i.size = stop := by
  rw [addPiece_eq] at h
  split at h
  · exact absurd h List.not_mem_nil
  · rw [List.mem_singleton.mp h]
    exact ⟨rfl, by show start + (stop - start) = stop; omega⟩

/-! ### The two cuts -/

section Cuts

variable {start size : ℕ} {r : Range}

/-- The part of a record that a request names, and the parts before and after. -/
theorem removePieces_eq (hsize : 0 < size) (hbound : start + size ≤ uint64Max) (h : Bounded r)
    (hpos : 0 < r.size) : removePieces start size r =
      if start < r.start + r.size ∧ r.start < start + size then
        addPiece r r.start (max start r.start) ++
          addPiece r (min (start + size) (r.start + r.size)) (r.start + r.size)
      else [r] := by
  rw [removePieces, endOf_eq hbound, h.stop_eq]
  exact if_congr (overlap_iff hsize hbound h hpos) rfl rfl

theorem cut_removePieces (hsize : 0 < size) (hbound : start + size ≤ uint64Max) (h : Bounded r)
    (hpos : 0 < r.size) : Cut r (removePieces start size r) := by
  rw [removePieces_eq hsize hbound h hpos]
  split
  · refine Cut.append (max start r.start) (cut_addPiece h le_rfl ?_)
      (cut_addPiece h ?_ le_rfl) (fun i hi => (mem_addPiece hi).2.le) fun i hi => ?_
    · omega
    · omega
    · have := (mem_addPiece hi).1
      omega
  · exact cut_self hpos h

/-- Cutting the request out of a record. -/
theorem lookup_removePieces (hsize : 0 < size) (hbound : start + size ≤ uint64Max)
    (h : Bounded r) (hpos : 0 < r.size) {a : ℕ} (ha : extent.Covers r a) :
    extent.lookup Range.attributes (removePieces start size r) a
      = if start ≤ a ∧ a < start + size then none else some (r.attributes a) := by
  obtain ⟨hlo, hhi⟩ := covers_iff.mp ha
  rw [removePieces_eq hsize hbound h hpos]
  split
  · rw [lookup_append, lookup_addPiece le_rfl, lookup_addPiece (by omega)]
    by_cases hin : start ≤ a ∧ a < start + size
    · rw [if_pos hin, if_neg (by omega), if_neg (by omega), Option.or_none]
    · rw [if_neg hin]
      by_cases hleft : a < start
      · rw [if_pos (by omega), Option.some_or]
      · rw [if_neg (by omega), if_pos (by omega), Option.none_or]
  · rw [lookup_cons_pos ha, if_neg (by omega)]

variable {edit : Range → Range} {change : Attributes → Attributes}

/-- An edit that leaves the interval alone and changes what is said about it. -/
structure Edits (edit : Range → Range) (change : Attributes → Attributes) : Prop where
  start : ∀ r, (edit r).start = r.start
  size : ∀ r, (edit r).size = r.size
  offset : ∀ r, (edit r).offset = r.offset
  attributes : ∀ r a, (edit r).attributes a = change (r.attributes a)

theorem editPieces_eq (hsize : 0 < size) (hbound : start + size ≤ uint64Max) (h : Bounded r)
    (hpos : 0 < r.size) : editPieces start size edit r =
      if start < r.start + r.size ∧ r.start < start + size then
        addPiece r r.start (max start r.start) ++
          ([edit (piece r (max start r.start) (min (start + size) (r.start + r.size)))] ++
          addPiece r (min (start + size) (r.start + r.size)) (r.start + r.size))
      else [r] := by
  rw [editPieces, endOf_eq hbound, h.stop_eq]
  exact if_congr (overlap_iff hsize hbound h hpos) rfl rfl

theorem cut_edit (E : Edits edit change) {first last : ℕ} (h : Bounded r)
    (hstart : r.start ≤ first) (hlt : first < last) (hlast : last ≤ r.start + r.size) :
    Cut r [edit (piece r first last)] := by
  have hlo : (edit (piece r first last)).start = first := E.start _
  have hsize : (edit (piece r first last)).size = last - first := E.size _
  have hstop := h.stop_le
  refine ⟨tidy_cons.mpr ⟨?_, Tidy.nil, fun _ hj => absurd hj List.not_mem_nil⟩, ?_, ?_⟩
  · show (edit _).start < (edit _).start + (edit _).size
    omega
  · intro i hi
    rw [List.mem_singleton.mp hi]
    exact ⟨by show r.start ≤ (edit _).start; omega,
      by show (edit _).start + (edit _).size ≤ r.start + r.size; omega⟩
  · intro i hi
    rw [List.mem_singleton.mp hi]
    exact ⟨by omega, (E.offset _).trans_le (offset_piece_le h first last)⟩

theorem cut_editPieces (E : Edits edit change) (hsize : 0 < size)
    (hbound : start + size ≤ uint64Max) (h : Bounded r) (hpos : 0 < r.size) :
    Cut r (editPieces start size edit r) := by
  rw [editPieces_eq hsize hbound h hpos]
  split
  · have hmid : Cut r [edit (piece r (max start r.start)
        (min (start + size) (r.start + r.size)))] := cut_edit E h (by omega) (by omega) (by omega)
    refine Cut.append (max start r.start) (cut_addPiece h le_rfl (by omega))
      (hmid.append (min (start + size) (r.start + r.size))
        (cut_addPiece h (by omega) le_rfl) (fun i hi => ?_) fun i hi => ?_)
      (fun i hi => (mem_addPiece hi).2.le) fun i hi => ?_
    · rw [List.mem_singleton.mp hi, E.start, E.size]
      show max start r.start + (min (start + size) (r.start + r.size) - max start r.start) ≤ _
      omega
    · exact (mem_addPiece hi).1.le
    · obtain hi | hi := List.mem_append.mp hi
      · rw [List.mem_singleton.mp hi, E.start]
        exact le_rfl
      · have := (mem_addPiece hi).1
        omega
  · exact cut_self hpos h

/-- Editing the request in a record. -/
theorem lookup_editPieces (E : Edits edit change) (hsize : 0 < size)
    (hbound : start + size ≤ uint64Max) (h : Bounded r) (hpos : 0 < r.size) {a : ℕ}
    (ha : extent.Covers r a) :
    extent.lookup Range.attributes (editPieces start size edit r) a
      = some (if start ≤ a ∧ a < start + size then change (r.attributes a)
          else r.attributes a) := by
  obtain ⟨hlo, hhi⟩ := covers_iff.mp ha
  rw [editPieces_eq hsize hbound h hpos]
  split
  · rw [lookup_append, lookup_append, lookup_addPiece le_rfl, lookup_addPiece (by omega)]
    have hcovers : extent.Covers (edit (piece r (max start r.start)
        (min (start + size) (r.start + r.size)))) a ↔ start ≤ a ∧ a < start + size := by
      rw [covers_iff, E.start, E.size]
      show max start r.start ≤ a ∧ a < max start r.start +
        (min (start + size) (r.start + r.size) - max start r.start) ↔ _
      omega
    by_cases hin : start ≤ a ∧ a < start + size
    · rw [if_pos hin, if_neg (by omega), Option.none_or, lookup_cons_pos (hcovers.mpr hin),
        Option.some_or, E.attributes, attributes_piece (by omega) (by omega)]
    · rw [if_neg hin, lookup_cons_neg (fun hc => hin (hcovers.mp hc)), lookup_nil,
        Option.none_or]
      by_cases hleft : a < start
      · rw [if_pos (by omega), Option.some_or]
      · rw [if_neg (by omega), if_pos (by omega), Option.none_or]
  · rw [lookup_cons_pos ha, if_neg (by omega)]

end Cuts

end Prosperismo.VirtualRanges
