import Prosperismo.VirtualRanges.Pieces

/-!
# The canonical form of the book

The invariant is `Canonical`: the records are not empty, sorted and disjoint,
their ends can be represented, and no two of them touch and agree in their
merge key.

`mergeUnlocked_eq` and `mergeAroundUnlocked_eq` say that both ways to merge are
the library's `coalesceAll`, the second next to records that are settled
already. With that, the general paths `EditUnlocked` and `RemoveUnlocked`
re-establish the canonical form and change `view` exactly on the request
(`Canonical.editUnlocked`, `Canonical.removeUnlocked`).
-/

namespace Prosperismo.VirtualRanges

open Extent

/-! ### Merging -/

theorem merge_eq_some {left right r : Range} : merge left right = some r ↔
    left.stop = right.start ∧ sameMergeKey left right = true ∧
      r = { left with size := wrap (left.size + right.size) } := by
  unfold merge
  split
  · rename_i h
    rw [Option.some.injEq]
    exact ⟨fun hr => ⟨h.1, h.2, hr.symm⟩, fun hr => hr.2.2.symm⟩
  · rename_i h
    simp only [reduceCtorEq, false_iff]
    exact fun hr => h ⟨hr.1, hr.2.1⟩

theorem merge_eq_none {left right : Range} : merge left right = none ↔
    ¬ (left.stop = right.start ∧ sameMergeKey left right = true) := by
  unfold merge
  split
  · rename_i h
    simp only [reduceCtorEq, false_iff, not_not]
    exact h
  · rename_i h
    exact ⟨fun _ => h, fun _ => rfl⟩

/-- Records with one merge key agree in all but the interval and the offset,
and are not Direct. -/
theorem sameMergeKey_iff {left right : Range} : sameMergeKey left right = true ↔
    left.disallowMerge = false ∧ right.disallowMerge = false ∧ left.type ≠ .direct ∧
      right.type ≠ .direct ∧ left.type = right.type ∧ left.protection = right.protection ∧
      left.memoryType = right.memoryType ∧ left.name = right.name := by
  unfold sameMergeKey
  split
  · rename_i h
    simp only [Bool.or_eq_true, decide_eq_true_eq] at h
    simp only [Bool.false_eq_true, false_iff, not_and]
    intro hl hr hlt hrt
    simp [hl, hr, hlt, hrt] at h
  · rename_i h
    simp only [Bool.or_eq_true, decide_eq_true_eq, not_or, Bool.not_eq_true] at h
    simp only [Bool.and_eq_true, decide_eq_true_eq, h.1.1.1, h.1.1.2, true_and, ne_eq, h.1.2, h.2,
      not_false_eq_true, and_assoc]

/-- **Joining two records is harmless.** -/
theorem merging : Merging extent Range.attributes Bounded merge where
  keeps {i j k} hi hj hm := by
    obtain ⟨htouch, -, rfl⟩ := merge_eq_some.mp hm
    rw [hi.stop_eq] at htouch
    have hend := hj.stop_le
    refine ⟨?_, hi.offset_le⟩
    show i.start + wrap (i.size + j.size) ≤ uint64Max
    unfold wrap uint64Max at *
    omega
  lo {i j k} _ _ hm := by
    obtain ⟨-, -, rfl⟩ := merge_eq_some.mp hm
    rfl
  hi {i j k} hi hj hm := by
    obtain ⟨htouch, -, rfl⟩ := merge_eq_some.mp hm
    rw [hi.stop_eq] at htouch
    have hend := hj.stop_le
    show i.start + wrap (i.size + j.size) = j.start + j.size
    unfold wrap uint64Max at *
    omega
  touch {i j k} hi _ hm := by
    obtain ⟨htouch, -, -⟩ := merge_eq_some.mp hm
    exact hi.stop_eq.symm.trans htouch
  view_left {i j k} _ _ hm a _ := by
    obtain ⟨-, -, rfl⟩ := merge_eq_some.mp hm
    rfl
  view_right {i j k} _ _ hm a _ := by
    obtain ⟨-, hkey, rfl⟩ := merge_eq_some.mp hm
    obtain ⟨-, -, hi, hj, htype, hprotection, hmemory, hname⟩ := sameMergeKey_iff.mp hkey
    unfold Range.attributes
    simp only [htype, hprotection, hmemory, hname, if_neg hj]
  left {i j k} _ _ hm x := by
    obtain ⟨-, -, rfl⟩ := merge_eq_some.mp hm
    rw [merge_eq_none, merge_eq_none]
    rfl

theorem mergeFollowing_eq : ∀ (current : Range) (ranges : List Range),
    mergeFollowing current ranges = absorb merge current ranges
  | _, [] => rfl
  | current, next :: ranges => by
    cases hm : merge current next with
    | none => simp only [mergeFollowing, absorb, hm]
    | some grown => simp only [mergeFollowing, absorb, hm, mergeFollowing_eq grown ranges]

theorem foldl_pushMerged : ∀ (ranges : List Range) (front : List Range) (last : Range),
    ranges.foldl pushMerged (front ++ [last]) = front ++ coalesce merge last ranges
  | [], _, _ => rfl
  | r :: ranges, front, last => by
    rw [List.foldl_cons]
    have hlast : (front ++ [last]).getLast? = some last := List.getLast?_concat
    cases hm : merge last r with
    | none =>
      have hpush : pushMerged (front ++ [last]) r = (front ++ [last]) ++ [r] := by
        simp only [pushMerged, hlast, hm]
      rw [hpush, foldl_pushMerged ranges (front ++ [last]) r]
      simp only [coalesce, hm, List.append_assoc, List.singleton_append]
    | some grown =>
      have hpush : pushMerged (front ++ [last]) r = front ++ [grown] := by
        simp only [pushMerged, hlast, hm, List.dropLast_concat]
      rw [hpush, foldl_pushMerged ranges front grown]
      simp only [coalesce, hm]

/-- **`MergeUnlocked`** joins the neighbours of a sorted list. -/
theorem mergeUnlocked_eq {ranges : List Range} (h : extent.Tidy ranges) :
    mergeUnlocked ranges = coalesceAll merge ranges := by
  have hsort : (ranges.mergeSort fun left right => decide (left.start ≤ right.start)) = ranges :=
    List.mergeSort_of_pairwise (h.lo_lt.imp fun {l r} hlt => decide_eq_true (hlt.le : l.start ≤ r.start))
  unfold mergeUnlocked
  rw [hsort]
  match ranges with
  | [] => rfl
  | [_] => rfl
  | r :: r' :: ranges =>
    rw [if_neg (by simp)]
    exact foldl_pushMerged (r' :: ranges) [] r

/-- **`MergeAroundUnlocked`** does the same next to records that are settled. -/
theorem mergeAroundUnlocked_eq {pre post : List Range} (r : Range) (hpre : Settled merge pre)
    (hpost : Settled merge post) :
    mergeAroundUnlocked (pre ++ r :: post) pre.length = coalesceAll merge (pre ++ r :: post) := by
  have hdrop : (pre ++ r :: post).drop pre.length = r :: post := List.drop_left
  have htake : (pre ++ r :: post).take pre.length = pre := List.take_left
  obtain rfl | ⟨front, previous, rfl⟩ := pre.eq_nil_or_concat'
  · show mergeFollowing r post = coalesce merge r post
    rw [mergeFollowing_eq, coalesce_eq_absorb hpost]
  · have hlast : (front ++ [previous]).getLast? = some previous := List.getLast?_concat
    have hall : coalesceAll merge (front ++ [previous] ++ r :: post)
        = front ++ coalesce merge previous (r :: post) := by
      rw [List.append_assoc, List.singleton_append]
      exact coalesceAll_append (r :: post) hpre
    unfold mergeAroundUnlocked
    rw [hdrop, htake, hall]
    cases hm : merge previous r with
    | none =>
      simp only [hlast, hm, coalesce]
      rw [mergeFollowing_eq, coalesce_eq_absorb hpost, List.append_assoc, List.singleton_append]
    | some grown =>
      simp only [hlast, hm, coalesce, List.dropLast_concat]
      rw [mergeFollowing_eq, coalesce_eq_absorb hpost]

/-! ### The invariant -/

/-- The canonical form of a book. -/
structure Canonical (ranges : List Range) : Prop where
  tidy : extent.Tidy ranges
  bounded : ∀ r ∈ ranges, Bounded r
  settled : Settled merge ranges

theorem Canonical.nil : Canonical [] :=
  ⟨Tidy.nil, fun _ hr => absurd hr List.not_mem_nil, List.Pairwise.nil⟩

theorem Canonical.pos {ranges : List Range} (h : Canonical ranges) {r : Range} (hr : r ∈ ranges) :
    0 < r.size := by
  have hproper : r.start < r.start + r.size := h.tidy.proper r hr
  omega

/-- Merging a tidy list of records makes it canonical, and keeps what it says. -/
theorem canonical_coalesceAll {ranges : List Range} (h : extent.Tidy ranges)
    (hbounded : ∀ r ∈ ranges, Bounded r) : Canonical (coalesceAll merge ranges) ∧
      view (coalesceAll merge ranges) = view ranges := by
  obtain ⟨htidy, hbounded', hsettled, hview⟩ := merging.coalesceAll_spec h hbounded
  exact ⟨⟨htidy, hbounded', hsettled⟩, funext hview⟩

/-- Leaving records out keeps the canonical form. -/
theorem Canonical.sublist {ranges ranges' : List Range} (h : Canonical ranges)
    (hsub : List.Sublist ranges' ranges) : Canonical ranges' where
  tidy := ⟨fun r hr => h.tidy.proper r (hsub.subset hr), h.tidy.ordered.sublist hsub⟩
  bounded := fun r hr => h.bounded r (hsub.subset hr)
  settled := h.settled.sublist hsub

theorem Canonical.mergeUnlocked_eq_self {ranges : List Range} (h : Canonical ranges) :
    mergeUnlocked ranges = ranges :=
  (mergeUnlocked_eq h.tidy).trans (coalesceAll_eq_self h.settled)

/-- An address the book says something about. -/
theorem isSome_view {ranges : List Range} {a : ℕ} :
    (view ranges a).isSome ↔ extent.Covered ranges a := by
  rw [view, ← not_iff_not, Bool.not_eq_true, Option.isSome_eq_false_iff,
    Option.isNone_iff_eq_none, lookup_eq_none]

/-- A request meets a record exactly if they share an address the book says
something about. -/
theorem Canonical.exists_overlap {ranges : List Range} (h : Canonical ranges) (start : ℕ)
    {size : ℕ} (hsize : 0 < size) :
    (∃ r ∈ ranges, start < r.start + r.size ∧ r.start < start + size) ↔
      ∃ a, start ≤ a ∧ a < start + size ∧ (view ranges a).isSome := by
  constructor
  · rintro ⟨r, hr, hlo, hhi⟩
    have hpos := h.pos hr
    -- the first address they share
    exact ⟨max start r.start, by omega, by omega,
      isSome_view.mpr ⟨r, hr, covers_iff.mpr ⟨by omega, by omega⟩⟩⟩
  · rintro ⟨a, hlo, hhi, ha⟩
    obtain ⟨r, hr, hra⟩ := isSome_view.mp ha
    obtain ⟨hra, hra'⟩ := covers_iff.mp hra
    exact ⟨r, hr, by omega, by omega⟩

/-! ### The general paths -/

section General

variable {ranges : List Range} (h : Canonical ranges) {start size : ℕ}
include h

/-- The list after a walk that cuts every record, merged. -/
theorem Canonical.flatMap {f : Range → List Range} (hcut : ∀ r ∈ ranges, Cut r (f r)) :
    Canonical (mergeUnlocked (ranges.flatMap f)) ∧
      view (mergeUnlocked (ranges.flatMap f)) = view (ranges.flatMap f) := by
  have htidy : extent.Tidy (ranges.flatMap f) :=
    h.tidy.flatMap (fun r hr => (hcut r hr).tidy) fun r hr => (hcut r hr).within
  rw [mergeUnlocked_eq htidy]
  refine canonical_coalesceAll htidy fun i hi => ?_
  obtain ⟨r, hr, hir⟩ := List.mem_flatMap.mp hi
  exact (hcut r hr).bounded i hir

/-- What a walk that cuts every record does to an address. -/
theorem Canonical.view_flatMap {f : Range → List Range} {g : ℕ → Attributes → Option Attributes}
    (hcut : ∀ r ∈ ranges, Cut r (f r))
    (hf : ∀ r ∈ ranges, ∀ a, extent.Covers r a →
      extent.lookup Range.attributes (f r) a = g a (r.attributes a)) (a : ℕ) :
    view (ranges.flatMap f) a = (view ranges a).bind (g a) := by
  rw [view, h.tidy.lookup_flatMap (fun r hr => (hcut r hr).within) a, view, lookup]
  cases hfind : ranges.find? fun r => decide (extent.Covers r a) with
  | none => rfl
  | some r =>
    rw [Option.bind_some, Option.map_some, Option.bind_some]
    exact hf r (List.mem_of_find?_eq_some hfind) a (by simpa using List.find?_some hfind)

/-- **`EditUnlocked`** changes what is said about the addresses of the request. -/
theorem Canonical.editUnlocked {edit : Range → Range} {change : Attributes → Attributes}
    (E : Edits edit change) (hbound : start + size ≤ uint64Max) :
    Canonical (editUnlocked ranges start size edit) ∧
      ∀ a, view (editUnlocked ranges start size edit) a
        = if start ≤ a ∧ a < start + size then (view ranges a).map change else view ranges a := by
  unfold VirtualRanges.editUnlocked
  split
  · rename_i hzero
    exact ⟨h, fun a => by rw [if_neg (by omega)]⟩
  · rename_i hpos
    have hsize : 0 < size := Nat.pos_of_ne_zero hpos
    have hcut : ∀ r ∈ ranges, Cut r (editPieces start size edit r) := fun r hr =>
      cut_editPieces E hsize hbound (h.bounded r hr) (h.pos hr)
    obtain ⟨hcanonical, hview⟩ := h.flatMap hcut
    refine ⟨hcanonical, fun a => ?_⟩
    rw [hview, h.view_flatMap hcut (g := fun a v =>
      some (if start ≤ a ∧ a < start + size then change v else v)) fun r hr a ha =>
        lookup_editPieces E hsize hbound (h.bounded r hr) (h.pos hr) ha]
    split <;> cases view ranges a <;> rfl

/-- **`RemoveUnlocked`**, merged, forgets the addresses of the request. -/
theorem Canonical.removeUnlocked (hbound : start + size ≤ uint64Max) :
    Canonical (mergeUnlocked (removeUnlocked ranges start size).1) ∧
      ∀ a, view (mergeUnlocked (VirtualRanges.removeUnlocked ranges start size).1) a
        = if start ≤ a ∧ a < start + size then none else view ranges a := by
  unfold VirtualRanges.removeUnlocked
  split
  · rename_i hzero
    rw [h.mergeUnlocked_eq_self]
    exact ⟨h, fun a => by rw [if_neg (by omega)]⟩
  · rename_i hpos
    have hsize : 0 < size := Nat.pos_of_ne_zero hpos
    have hcut : ∀ r ∈ ranges, Cut r (removePieces start size r) := fun r hr =>
      cut_removePieces hsize hbound (h.bounded r hr) (h.pos hr)
    obtain ⟨hcanonical, hview⟩ := h.flatMap hcut
    refine ⟨hcanonical, fun a => ?_⟩
    rw [hview, h.view_flatMap hcut (g := fun a v =>
      if start ≤ a ∧ a < start + size then none else some v) fun r hr a ha =>
        lookup_removePieces hsize hbound (h.bounded r hr) (h.pos hr) ha]
    split <;> cases view ranges a <;> rfl

/-- `RemoveUnlocked` tells whether it found something to remove. -/
theorem Canonical.removed_iff (hbound : start + size ≤ uint64Max) :
    (VirtualRanges.removeUnlocked ranges start size).2 = true ↔
      ∃ a, start ≤ a ∧ a < start + size ∧ (view ranges a).isSome := by
  unfold VirtualRanges.removeUnlocked
  split
  · rename_i hzero
    simp only [Bool.false_eq_true, false_iff]
    rintro ⟨a, hlo, hhi, -⟩
    omega
  · rename_i hpos
    have hsize : 0 < size := Nat.pos_of_ne_zero hpos
    rw [← h.exists_overlap start hsize, List.any_eq_true]
    exact exists_congr fun r => and_congr_right fun hr =>
      overlap_iff hsize hbound (h.bounded r hr) (h.pos hr)

end General

end Prosperismo.VirtualRanges
