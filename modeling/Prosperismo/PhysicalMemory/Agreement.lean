import Mathlib.Algebra.Order.Ring.Nat
import Prosperismo.PhysicalMemory.Free

/-!
# What is free and what is allocated

`Sound` ties the two maps together: the free ranges are kept apart, the blocks
are not empty and disjoint, and a byte of `[0, Size())` is free exactly if it
lies in no block. Every call keeps it: a block is put into a free range
(`alloc_spec`), and the released part of a block is replaced by what is left of
it (`Sound.giveBack`), in one of the four shapes of `Release`.

`Alloc` stops at the first free range with room, `Available` goes over all of
them for the largest room. They agree because both read the room off a range
with `freePos`, and because the ranges `Alloc` does not look at end where the
window starts (`alloc_isSome_iff`, `available_iff`).
-/

namespace Prosperismo.PhysicalMemory

open Extent

/-- A block is the interval from its key, of its size. -/
def blockExtent : Extent (ℕ × AllocatedBlock) ℕ := ⟨Prod.fst, fun it => it.1 + it.2.size⟩

theorem block_covers_iff {it : ℕ × AllocatedBlock} {a : ℕ} :
    blockExtent.Covers it a ↔ it.1 ≤ a ∧ a < it.1 + it.2.size := Iff.rfl

/-- The byte is free. -/
def State.Free (s : State) (a : ℕ) : Prop := freeExtent.Covered s.free.entries a

/-- The byte is allocated. -/
def State.Allocated (s : State) (a : ℕ) : Prop := blockExtent.Covered s.physical.entries a

/-- The invariant of the two maps. -/
structure Sound (size : ℕ) (s : State) : Prop where
  coalesced : freeExtent.Apart s.free.entries
  disjoint : blockExtent.Tidy s.physical.entries
  keys : ∀ it ∈ s.physical.entries, it.2.startAddr = it.1
  complement : ∀ a, s.Free a ↔ a < size ∧ ¬ s.Allocated a
  bounded : ∀ a, s.Allocated a → a < size

theorem sound_initial {size : ℕ} (hsize : 0 < size) : Sound size (initial size) where
  coalesced := @apart_singleton (0, size) hsize
  disjoint := Tidy.nil
  keys := fun _ hit => absurd hit List.not_mem_nil
  complement := fun a => by
    have hnone : ¬ (initial size).Allocated a := covered_nil blockExtent a
    show freeExtent.Covered [(0, size)] a ↔ _
    rw [covered_cons, free_covers_iff]
    simp only [covered_nil, or_false, hnone, not_false_eq_true, and_true]
    omega
  bounded := fun a ha => absurd ha (covered_nil blockExtent a)

/-! ### Room in a free range -/

/-- `GetAlignedPos` gives an aligned position, at `pos` or after it. -/
theorem getAlignedPos_spec {pos alignment aligned : ℕ}
    (h : getAlignedPos pos alignment = some aligned) : pos ≤ aligned ∧ alignment ∣ aligned ∨
      pos = aligned ∧ alignment = 0 := by
  unfold getAlignedPos at h
  split at h
  · exact Or.inr ⟨Option.some.inj h, ‹_›⟩
  · rename_i hne
    dsimp only at h
    have hdvd : alignment ∣ pos +
        if pos % alignment ≠ 0 then alignment - pos % alignment else 0 := by
      have hlt := Nat.mod_lt pos (Nat.pos_of_ne_zero hne)
      have hdiv := Nat.div_add_mod pos alignment
      split
      · refine ⟨pos / alignment + 1, ?_⟩
        rw [Nat.mul_add, Nat.mul_one]
        omega
      · exact ⟨pos / alignment, by omega⟩
    generalize (if pos % alignment ≠ 0 then alignment - pos % alignment else 0) = increment
      at h hdvd
    split at h
    · cases h
    · obtain rfl := Option.some.inj h
      exact Or.inl ⟨Nat.le_add_right _ _, hdvd⟩

section Room

variable {searchStart searchEnd len alignment : ℕ}

/-- A position `freePos` gives lies in the range and in the window, as far as its
start is concerned. -/
theorem freePos_spec {range : ℕ × ℕ} {pos rangeEnd : ℕ}
    (h : freePos searchStart searchEnd alignment range = some (pos, rangeEnd)) :
    range.1 ≤ pos ∧ searchStart ≤ pos ∧ (alignment ∣ pos ∨ alignment = 0) ∧
      rangeEnd = min (range.1 + range.2) searchEnd := by
  unfold freePos at h
  dsimp only at h
  obtain ⟨aligned, haligned, hpos⟩ := Option.bind_eq_some_iff.mp h
  split at hpos
  · cases hpos
  · obtain ⟨rfl, rfl⟩ := Prod.mk.inj (Option.some.inj hpos)
    obtain ⟨hle, hdvd⟩ | ⟨heq, hzero⟩ := getAlignedPos_spec haligned
    · exact ⟨by omega, by omega, Or.inl hdvd, rfl⟩
    · exact ⟨by omega, by omega, Or.inr hzero, rfl⟩

/-- The range has room for the request. -/
def Room (searchStart searchEnd len alignment : ℕ) (range : ℕ × ℕ) : Prop :=
  ∃ pos rangeEnd, freePos searchStart searchEnd alignment range = some (pos, rangeEnd) ∧
    pos + len ≤ rangeEnd

theorem allocIn_eq_some {range range' : ℕ × ℕ} {pos : ℕ} :
    allocIn searchStart searchEnd len alignment range = some (range', pos) ↔ range' = range ∧
      ∃ rangeEnd, freePos searchStart searchEnd alignment range = some (pos, rangeEnd) ∧
        pos + len ≤ rangeEnd := by
  unfold allocIn
  constructor
  · intro h
    obtain ⟨⟨pos', rangeEnd⟩, hfree, hpos⟩ := Option.bind_eq_some_iff.mp h
    dsimp only at hpos
    split at hpos
    · cases hpos
    · obtain ⟨rfl, rfl⟩ := Prod.mk.inj (Option.some.inj hpos)
      exact ⟨rfl, rangeEnd, hfree, by omega⟩
  · rintro ⟨rfl, rangeEnd, hfree, hle⟩
    rw [hfree, Option.bind_some]
    exact if_neg (by omega)

/-- A range that ends where the window starts has no room. -/
theorem not_room_of_ends {range : ℕ × ℕ} (hlen : 0 < len)
    (hends : range.1 + range.2 ≤ searchStart) : ¬ Room searchStart searchEnd len alignment range := by
  rintro ⟨pos, rangeEnd, hfree, hle⟩
  obtain ⟨-, hstart, -, rfl⟩ := freePos_spec hfree
  omega

/-- A range that starts where the window ends has no room. -/
theorem not_room_of_starts {range : ℕ × ℕ} (hlen : 0 < len) (hstarts : searchEnd ≤ range.1) :
    ¬ Room searchStart searchEnd len alignment range := by
  rintro ⟨pos, rangeEnd, hfree, hle⟩
  obtain ⟨hstart, -, -, rfl⟩ := freePos_spec hfree
  omega

/-- Leaving a loop over ascending ranges at the end of the window passes no room. -/
theorem room_takeWhile {l : List (ℕ × ℕ)} (hl : l.Pairwise fun x y => x.1 < y.1) (hlen : 0 < len) :
    (∃ range ∈ l.takeWhile fun range => decide (range.1 < searchEnd),
      Room searchStart searchEnd len alignment range) ↔
        ∃ range ∈ l, Room searchStart searchEnd len alignment range := by
  constructor
  · rintro ⟨range, hrange, hroom⟩
    exact ⟨range, (List.takeWhile_prefix _).subset hrange, hroom⟩
  · rintro ⟨range, hrange, hroom⟩
    rw [← List.takeWhile_append_dropWhile (l := l)
      (p := fun range : ℕ × ℕ => decide (range.1 < searchEnd))] at hrange
    obtain hrange | hrange := List.mem_append.mp hrange
    · exact ⟨range, hrange, hroom⟩
    · have hfar := OrderedMap.not_of_mem_dropWhile (R := fun x y : ℕ × ℕ => x.1 < y.1)
        (p := fun range : ℕ × ℕ => decide (range.1 < searchEnd))
        (fun x y hxy hy => decide_eq_true (hxy.trans (of_decide_eq_true hy))) hl hrange
      rw [decide_eq_false_iff_not, not_lt] at hfar
      exact absurd hroom (not_room_of_starts hlen hfar)

/-- The loop of `Available` finds the largest room. -/
theorem foldl_better {len : ℕ} (hlen : 0 < len) : ∀ (l : List (ℕ × ℕ)) (best : ℕ × ℕ),
    len ≤ (l.foldl (better searchStart searchEnd alignment) best).2 ↔ len ≤ best.2 ∨
      ∃ range ∈ l, Room searchStart searchEnd len alignment range
  | [], best => by simp
  | range :: l, best => by
    rw [List.foldl_cons, foldl_better hlen l, List.exists_mem_cons_iff, ← or_assoc]
    refine or_congr_left ?_
    -- one round takes over the room of the range if it is larger
    unfold better Room
    cases hfree : freePos searchStart searchEnd alignment range with
    | none => simp
    | some found =>
      obtain ⟨pos, rangeEnd⟩ := found
      dsimp only
      have hroom : (∃ pos' rangeEnd', some (pos, rangeEnd) = some (pos', rangeEnd') ∧
          pos' + len ≤ rangeEnd') ↔ pos + len ≤ rangeEnd := by
        constructor
        · rintro ⟨pos', rangeEnd', heq, hle⟩
          obtain ⟨rfl, rfl⟩ := Prod.mk.inj (Option.some.inj heq)
          exact hle
        · exact fun hle => ⟨pos, rangeEnd, rfl, hle⟩
      rw [hroom]
      split <;> omega

end Room

/-! ### Allocating -/

section Alloc

variable {size : ℕ} {s : State} (h : Sound size s) {searchStart searchEnd len alignment : ℕ}
include h

/-- The ranges `Alloc` looks at are those with room. -/
theorem Sound.room_iff (hlen : 0 < len) :
    (∃ range ∈ ((s.free.upTo searchStart).getLast?.toList ++
        s.free.upperBound searchStart).takeWhile fun range => decide (range.1 < searchEnd),
      Room searchStart searchEnd len alignment range) ↔
        ∃ range ∈ s.free.entries, Room searchStart searchEnd len alignment range := by
  have hsplit := s.free.upTo_append_upperBound searchStart
  have hsorted := s.free.sorted
  have hapart := h.coalesced
  rw [← hsplit] at hsorted hapart
  obtain hnil | ⟨front, last, hfront⟩ := (s.free.upTo searchStart).eq_nil_or_concat'
  · rw [hnil] at hsplit hsorted ⊢
    rw [List.getLast?_nil, Option.toList_none, room_takeWhile hsorted hlen, ← hsplit]
  · have hlast : (s.free.upTo searchStart).getLast?.toList = [last] := by
      rw [hfront, List.getLast?_concat]
      rfl
    rw [hlast, ← hsplit, hfront]
    rw [hfront, List.append_assoc] at hsorted
    rw [hfront] at hapart
    rw [room_takeWhile (List.pairwise_append.mp hsorted).2.1 hlen]
    constructor
    · rintro ⟨range, hrange, hroom⟩
      refine ⟨range, ?_, hroom⟩
      rw [List.append_assoc]
      exact List.mem_append_right front hrange
    · rintro ⟨range, hrange, hroom⟩
      rw [List.append_assoc] at hrange
      obtain hrange | hrange := List.mem_append.mp hrange
      · -- a range before the last one ends before that one starts
        have hgap : range.1 + range.2 < last.1 :=
          (apart_append.mp (apart_append.mp hapart).1).2.2 range hrange last List.mem_cons_self
        have hkey : last.1 ≤ searchStart := OrderedMap.le_of_mem_upTo
          (hfront ▸ List.mem_append_right front List.mem_cons_self :
            last ∈ s.free.upTo searchStart)
        exact absurd hroom (not_room_of_ends hlen (hgap.le.trans hkey))
      · exact ⟨range, hrange, hroom⟩

/-- Putting a block into free bytes. -/
theorem Sound.place {pos : ℕ} {b : AllocatedBlock} (hlen : 0 < b.size) (hkey : b.startAddr = pos)
    {range : ℕ × ℕ} (hrange : range ∈ s.free.entries) (hstart : range.1 ≤ pos)
    (hend : pos + b.size ≤ range.1 + range.2) :
    s.physical.contains pos = false ∧
      Sound size ⟨s.physical.emplace pos b, consumeFreeRange s.free range pos b.size⟩ ∧
      ∀ a, (State.Allocated ⟨s.physical.emplace pos b, consumeFreeRange s.free range pos b.size⟩ a ↔
        s.Allocated a ∨ (pos ≤ a ∧ a < pos + b.size)) := by
  have hfree : ∀ a, pos ≤ a → a < pos + b.size → s.Free a := fun a hlo hhi =>
    ⟨range, hrange, free_covers_iff.mpr ⟨hstart.trans hlo, hhi.trans_le hend⟩⟩
  have hproper : ∀ it ∈ s.physical.entries, it.1 < it.1 + it.2.size := h.disjoint.proper
  -- no block has a byte of the new one
  have hno : ∀ it ∈ s.physical.entries, ¬ (pos < it.1 + it.2.size ∧ it.1 < pos + b.size) := by
    rintro it hit ⟨hlo, hhi⟩
    have hpos := hproper it hit
    have hcovers : blockExtent.Covers it (max pos it.1) := block_covers_iff.mpr (by omega)
    exact ((h.complement _).mp (hfree (max pos it.1) (by omega) (by omega))).2 ⟨it, hit, hcovers⟩
  have hsplit := s.physical.below_append_lowerBound pos
  have hleft : ∀ it ∈ s.physical.below pos, it.1 + it.2.size ≤ pos := by
    intro it hit
    have := hno it (hsplit ▸ List.mem_append_left _ hit)
    have := OrderedMap.lt_of_mem_below hit
    omega
  have hright : ∀ it ∈ s.physical.lowerBound pos, pos + b.size ≤ it.1 := by
    intro it hit
    have hmem : it ∈ s.physical.entries := hsplit ▸ List.mem_append_right _ hit
    have := hno it hmem
    have := OrderedMap.le_of_mem_lowerBound hit
    have := hproper it hmem
    omega
  have hentries : (s.physical.emplace pos b).entries
      = s.physical.below pos ++ (pos, b) :: s.physical.lowerBound pos :=
    OrderedMap.emplace_of_split b hsplit.symm (fun it hit => OrderedMap.lt_of_mem_below hit)
      fun it hit => by have := hright it hit; omega
  have htidy := h.disjoint
  rw [← hsplit] at htidy
  obtain ⟨hbelow, habove, hgap⟩ := tidy_append.mp htidy
  have hallocated : ∀ a, blockExtent.Covered (s.physical.emplace pos b).entries a ↔
      s.Allocated a ∨ (pos ≤ a ∧ a < pos + b.size) := by
    intro a
    rw [hentries, covered_append, covered_cons, block_covers_iff, State.Allocated, ← hsplit,
      covered_append]
    exact ⟨by rintro (hl | hn | hr); exacts [Or.inl (Or.inl hl), Or.inr hn, Or.inl (Or.inr hr)],
      by rintro ((hl | hr) | hn); exacts [Or.inl hl, Or.inr (Or.inr hr), Or.inr (Or.inl hn)]⟩
  obtain ⟨hcoalesced, hconsumed⟩ := consumeFreeRange_spec h.coalesced hrange hstart hlen hend
  refine ⟨?_, ⟨hcoalesced, ?_, fun it hit => ?_, fun a => ?_, fun a ha => ?_⟩, hallocated⟩
  · rw [← Bool.not_eq_true]
    intro hcontains
    obtain ⟨it, hit, heq⟩ := List.any_eq_true.mp hcontains
    rw [decide_eq_true_eq] at heq
    have := hno it hit
    have := hproper it hit
    omega
  · rw [hentries]
    refine tidy_append.mpr ⟨hbelow, tidy_cons.mpr
      ⟨Nat.lt_add_of_pos_right hlen, habove, hright⟩, fun i hi j hj => ?_⟩
    obtain rfl | hj := List.mem_cons.mp hj
    · exact hleft i hi
    · exact hgap i hi j hj
  · rw [hentries] at hit
    obtain hit | hit := List.mem_append.mp hit
    · exact h.keys it (hsplit ▸ List.mem_append_left _ hit)
    · obtain rfl | hit := List.mem_cons.mp hit
      · exact hkey
      · exact h.keys it (hsplit ▸ List.mem_append_right _ hit)
  · show freeExtent.Covered _ a ↔ a < size ∧ ¬ blockExtent.Covered _ a
    rw [hconsumed a, hallocated a]
    have := h.complement a
    unfold State.Free at this
    rw [this, not_or, and_assoc]
  · obtain hold | ⟨hlo, hhi⟩ := (hallocated a).mp ha
    · exact h.bounded a hold
    · exact ((h.complement a).mp (hfree a hlo hhi)).1

/-- What a successful `Alloc` does: the block lies in the window, is aligned and
was free, and no other byte changes. -/
structure Placed (size : ℕ) (s s' : State) (searchStart searchEnd len alignment addr : ℕ) :
    Prop where
  window : searchStart ≤ addr ∧ addr + len ≤ searchEnd ∧ addr + len ≤ size
  aligned : alignment ∣ addr ∨ alignment = 0
  free : ∀ a, addr ≤ a → a < addr + len → s.Free a
  allocated : ∀ a, addr ≤ a → a < addr + len → s'.Allocated a ∧ ¬ s'.Free a
  frame : ∀ a, ¬ (addr ≤ a ∧ a < addr + len) → (s'.Free a ↔ s.Free a) ∧
    (s'.Allocated a ↔ s.Allocated a)

/-- **`Alloc`** succeeds exactly if some free range has room, and never stops the
process. -/
theorem Sound.alloc_spec (searchStart searchEnd : ℕ) (hlen : 0 < len) (alignment : ℕ)
    (memoryType : ℤ) (poolExpansion : Bool) :
    ∃ s' r, alloc size s searchStart searchEnd len alignment memoryType poolExpansion
        = some (s', r) ∧ Sound size s' ∧
      (r.isSome ↔ ∃ range ∈ s.free.entries,
        Room searchStart (min searchEnd size) len alignment range) ∧
      ∀ addr, r = some addr → Placed size s s' searchStart searchEnd len alignment addr := by
  unfold alloc
  dsimp only
  split
  · rename_i hempty
    refine ⟨s, none, rfl, h, ?_, fun addr haddr => by cases haddr⟩
    simp only [Option.isSome_none, Bool.false_eq_true, false_iff]
    rintro ⟨range, -, pos, rangeEnd, hfree, hle⟩
    obtain ⟨-, hstart, -, rfl⟩ := freePos_spec hfree
    omega
  · rw [← h.room_iff hlen]
    cases hfound : (((s.free.upTo searchStart).getLast?.toList ++
        s.free.upperBound searchStart).takeWhile
          fun range => decide (range.1 < min searchEnd size)).findSome?
            (allocIn searchStart (min searchEnd size) len alignment) with
    | none =>
      refine ⟨s, none, rfl, h, ?_, fun addr haddr => by cases haddr⟩
      simp only [Option.isSome_none, Bool.false_eq_true, false_iff]
      rintro ⟨range, hrange, pos, rangeEnd, hroom⟩
      have hnone := List.findSome?_eq_none_iff.mp hfound range hrange
      rw [allocIn_eq_some.mpr ⟨rfl, rangeEnd, hroom⟩] at hnone
      cases hnone
    | some found =>
      obtain ⟨range, pos⟩ := found
      obtain ⟨range', hmem, heq⟩ := List.exists_of_findSome?_eq_some hfound
      obtain ⟨rfl, rangeEnd, hfree, hle⟩ := allocIn_eq_some.mp heq
      obtain ⟨hbase, hstart, haligned, rfl⟩ := freePos_spec hfree
      have hrange : range ∈ s.free.entries := by
        have hmem := (List.takeWhile_prefix _).subset hmem
        rw [← s.free.upTo_append_upperBound searchStart]
        refine (List.mem_append.mp hmem).elim (fun hlast => ?_) (List.mem_append_right _)
        exact List.mem_append_left _ (List.mem_of_getLast? (Option.mem_toList.mp hlast))
      obtain ⟨hnew, hsound, hallocated⟩ := h.place
        (b := ⟨pos, len, 0, 0, 0, .noAccess, .noAccess, memoryType, poolExpansion⟩) hlen rfl
        hrange hbase (by show pos + len ≤ _; omega)
      dsimp only
      rw [if_neg (by rw [hnew]; exact Bool.false_ne_true)]
      refine ⟨_, _, rfl, hsound, iff_of_true rfl ⟨range, hmem, pos, _, hfree, hle⟩, ?_⟩
      intro addr haddr
      obtain rfl := Option.some.inj haddr
      have hwas : ∀ a, pos ≤ a → a < pos + len → s.Free a := fun a hlo hhi =>
        ⟨range, hrange, free_covers_iff.mpr ⟨hbase.trans hlo, by omega⟩⟩
      have hnow : ∀ a, pos ≤ a → a < pos + len → State.Allocated _ a := fun a hlo hhi =>
        (hallocated a).mpr (Or.inr ⟨hlo, hhi⟩)
      refine ⟨⟨hstart, by omega, by omega⟩, haligned, hwas,
        fun a hlo hhi => ⟨hnow a hlo hhi, fun hfree => ?_⟩, fun a hout => ?_⟩
      · exact ((hsound.complement a).mp hfree).2 (hnow a hlo hhi)
      · have hsame := (hallocated a).trans (or_iff_left hout)
        exact ⟨(hsound.complement a).trans ((and_congr_right fun _ => not_congr hsame).trans
          (h.complement a).symm), hsame⟩

omit h in
/-- **`Available`** reports the largest room. -/
theorem available_iff (hlen : 0 < len) :
    (∃ addr room, available size s searchStart searchEnd alignment = some (addr, room) ∧
      len ≤ room) ↔
        ∃ range ∈ s.free.entries, Room searchStart (min searchEnd size) len alignment range := by
  unfold available
  dsimp only
  split
  · rename_i hempty
    constructor
    · rintro ⟨addr, room, hnone, -⟩
      cases hnone
    · rintro ⟨range, -, pos, rangeEnd, hfree, hle⟩
      obtain ⟨-, hstart, -, rfl⟩ := freePos_spec hfree
      omega
  · rw [← room_takeWhile s.free.sorted hlen]
    have hbest : len ≤ ((s.free.entries.takeWhile fun range =>
        decide (range.1 < min searchEnd size)).foldl
          (better searchStart (min searchEnd size) alignment) (0, 0)).2 ↔
        ∃ range ∈ s.free.entries.takeWhile fun range => decide (range.1 < min searchEnd size),
          Room searchStart (min searchEnd size) len alignment range :=
      (foldl_better hlen _ _).trans (or_iff_right (not_le.mpr hlen))
    rw [← hbest]
    generalize (s.free.entries.takeWhile fun range => decide (range.1 < min searchEnd size)).foldl
      (better searchStart (min searchEnd size) alignment) (0, 0) = best
    split
    · rename_i hzero
      constructor
      · rintro ⟨addr, room, hnone, -⟩
        cases hnone
      · intro hle
        omega
    · constructor
      · rintro ⟨addr, room, hsome, hle⟩
        rwa [Option.some.inj hsome]
      · exact fun hle => ⟨best.1, best.2, rfl, hle⟩

end Alloc

end Prosperismo.PhysicalMemory
