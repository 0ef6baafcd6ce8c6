import Prosperismo.Base.OrderedMap
import Prosperismo.VirtualRanges.Canonical

/-!
# The book is a function of the address

For every method: it keeps the book canonical, and it changes what the book says
on the addresses it names and nowhere else. Which addresses a call names depends
on whether it goes through (`Call.GoesThrough`: `Add` into free space, the
consuming methods on what is reserved), and `Call.effect` is what it does there.

The fast paths of `Remove` and `Rename` find a record that is the request. They
give the records the general paths give (`remove_eq_general`,
`rename_eq_general`), so that nothing is left to prove about them.
-/

namespace Prosperismo.VirtualRanges

open Extent

/-! ### Positions in the vector -/

section Position

variable {ranges : List Range} {start size : ℕ}

theorem before_append_lowerBound (ranges : List Range) (start : ℕ) :
    before ranges start ++ lowerBound ranges start = ranges :=
  List.takeWhile_append_dropWhile

theorem start_lt_of_mem_before {r : Range} (h : r ∈ before ranges start) : r.start < start := by
  simpa using List.mem_takeWhile_imp h

theorem Canonical.start_le (h : Canonical ranges) {r : Range} (hr : r ∈ lowerBound ranges start) :
    start ≤ r.start := by
  have := OrderedMap.not_of_mem_dropWhile (R := fun r r' : Range => r.start < r'.start)
    (p := fun r : Range => decide (r.start < start))
    (fun x y hxy hy => decide_eq_true (hxy.trans (of_decide_eq_true hy))) h.tidy.lo_lt hr
  simpa using this

theorem mem_of_mem_before {r : Range} (h : r ∈ before ranges start) : r ∈ ranges :=
  before_append_lowerBound ranges start ▸ List.mem_append_left _ h

theorem mem_of_mem_lowerBound {r : Range} (h : r ∈ lowerBound ranges start) : r ∈ ranges :=
  before_append_lowerBound ranges start ▸ List.mem_append_right _ h

/-- **`FindOverlap`** finds a record that overlaps the request, if there is one:
it is enough to look at the two records next to the start of the request. -/
theorem Canonical.findOverlap_eq_none (h : Canonical ranges) (hbound : start + size ≤ uint64Max)
    (hsize : 0 < size) : findOverlap ranges start size = none ↔
      ∀ r ∈ ranges, ¬ (start < r.start + r.size ∧ r.start < start + size) := by
  have hoverlap : ∀ r ∈ ranges, virtualRangesOverlap start size r.start r.size = true ↔
      start < r.start + r.size ∧ r.start < start + size := fun r hr =>
    overlap_iff hsize hbound (h.bounded r hr) (h.pos hr)
  have htidy := h.tidy
  rw [← before_append_lowerBound ranges start] at htidy
  obtain ⟨hbefore, hafter, -⟩ := tidy_append.mp htidy
  unfold findOverlap
  constructor
  · intro hnone r hr hrange
    split at hnone
    · cases hnone
    · rename_i hposition
      rw [← before_append_lowerBound ranges start] at hr
      obtain hr | hr := List.mem_append.mp hr
      · -- only the last record before the request reaches into it
        have hstart := start_lt_of_mem_before hr
        obtain hnil | ⟨front, last, hsplit⟩ := (before ranges start).eq_nil_or_concat'
        · rw [hnil] at hr
          exact List.not_mem_nil hr
        · have hlast : last ∈ before ranges start :=
            hsplit ▸ List.mem_append_right _ List.mem_cons_self
          rw [hsplit, List.getLast?_concat, Option.filter_eq_none_iff] at hnone
          rw [hsplit] at hr hbefore
          obtain hr | hr := List.mem_append.mp hr
          · have hends : r.start + r.size ≤ last.start :=
              (tidy_append.mp hbefore).2.2 r hr last List.mem_cons_self
            have := start_lt_of_mem_before hlast
            omega
          · obtain rfl := List.mem_singleton.mp hr
            exact hnone r rfl ((hoverlap r (mem_of_mem_before hlast)).mpr hrange)
      · -- the first record from the request on starts in it, if any of them does
        cases hlist : lowerBound ranges start with
        | nil =>
          rw [hlist] at hr
          exact List.not_mem_nil hr
        | cons first rest =>
          have hfirst : first ∈ lowerBound ranges start := hlist ▸ List.mem_cons_self
          rw [hlist, List.head?_cons, Option.filter_eq_none_iff] at hposition
          refine hposition first rfl ((hoverlap first (mem_of_mem_lowerBound hfirst)).mpr ?_)
          have hstart := h.start_le hfirst
          have hpos := h.pos (mem_of_mem_lowerBound hfirst)
          rw [hlist] at hr hafter
          obtain rfl | hr := List.mem_cons.mp hr
          · exact hrange
          · have hends : first.start + first.size ≤ r.start := (tidy_cons.mp hafter).2.2 r hr
            omega
  · intro hall
    have hno : ∀ r ∈ ranges, ¬ virtualRangesOverlap start size r.start r.size = true :=
      fun r hr hr' => hall r hr ((hoverlap r hr).mp hr')
    have hposition : (lowerBound ranges start).head?.filter
        (fun r => virtualRangesOverlap start size r.start r.size) = none :=
      Option.filter_eq_none_iff.mpr fun r hr =>
        hno r (mem_of_mem_lowerBound (List.mem_of_head? hr))
    rw [hposition]
    exact Option.filter_eq_none_iff.mpr fun r hr =>
      hno r (mem_of_mem_before (List.mem_of_getLast? hr))

/-- What `FindOverlap` finds is a record of the book that overlaps the request. -/
theorem findOverlap_eq_some {r : Range} (h : findOverlap ranges start size = some r) :
    r ∈ ranges ∧ virtualRangesOverlap start size r.start r.size = true := by
  unfold findOverlap at h
  split at h
  · rename_i position hposition
    obtain rfl := Option.some.inj h
    obtain ⟨hhead, hoverlap⟩ := Option.filter_eq_some_iff.mp hposition
    exact ⟨mem_of_mem_lowerBound (List.mem_of_head? hhead), hoverlap⟩
  · obtain ⟨hlast, hoverlap⟩ := Option.filter_eq_some_iff.mp h
    exact ⟨mem_of_mem_before (List.mem_of_getLast? hlast), hoverlap⟩

/-- The record of the fast paths, and where it lies. -/
theorem exactMatch_eq_some {r : Range} (h : exactMatch ranges start size = some r) :
    lowerBound ranges start = r :: (lowerBound ranges start).tail ∧
      ranges = before ranges start ++ r :: (lowerBound ranges start).tail ∧
      r.start = start ∧ r.size = size := by
  obtain ⟨hhead, hexact⟩ := Option.filter_eq_some_iff.mp h
  rw [decide_eq_true_eq] at hexact
  have hlist : lowerBound ranges start = r :: (lowerBound ranges start).tail := by
    cases hl : lowerBound ranges start with
    | nil =>
      rw [hl] at hhead
      cases hhead
    | cons first rest =>
      rw [hl] at hhead
      rw [List.tail_cons, Option.some.inj hhead]
  exact ⟨hlist, by rw [← hlist, before_append_lowerBound], hexact⟩

end Position

/-! ### The fast paths -/

section FastPaths

variable {ranges : List Range} {start size : ℕ}

theorem flatMap_eq_self {f : Range → List Range} :
    ∀ {l : List Range}, (∀ r ∈ l, f r = [r]) → l.flatMap f = l
  | [], _ => rfl
  | r :: l, h => by
    rw [List.flatMap_cons, h r List.mem_cons_self,
      flatMap_eq_self fun x hx => h x (List.mem_cons_of_mem r hx), List.singleton_append]

/-- The records around one that is the request lie outside of it. -/
theorem Canonical.not_overlap {pre post : List Range} {r x : Range}
    (h : Canonical (pre ++ r :: post)) (hx : x ∈ pre ∨ x ∈ post) :
    virtualRangesOverlap r.start r.size x.start x.size = false := by
  have hr : r ∈ pre ++ r :: post := List.mem_append_right _ List.mem_cons_self
  have hmem : x ∈ pre ++ r :: post := hx.elim (List.mem_append_left _) fun hx =>
    List.mem_append_right _ (List.mem_cons_of_mem r hx)
  rw [← Bool.not_eq_true,
    overlap_iff (h.pos hr) (h.bounded r hr).stop_le (h.bounded x hmem) (h.pos hmem)]
  obtain ⟨-, hrest, hgap⟩ := tidy_append.mp h.tidy
  obtain hx | hx := hx
  · have : x.start + x.size ≤ r.start := hgap x hx r List.mem_cons_self
    omega
  · have : r.start + r.size ≤ x.start := (tidy_cons.mp hrest).2.2 x hx
    omega

/-- **The fast path of `Remove`** returns what the general path returns. -/
theorem remove_eq_general (h : Canonical ranges) (start size : ℕ) :
    remove ranges start size = (mergeUnlocked (removeUnlocked ranges start size).1,
      (removeUnlocked ranges start size).2) := by
  unfold remove
  cases hexact : exactMatch ranges start size with
  | none => rfl
  | some r =>
    obtain ⟨-, hsplit, rfl, rfl⟩ := exactMatch_eq_some hexact
    generalize before ranges r.start = pre at hsplit ⊢
    generalize (lowerBound ranges r.start).tail = post at hsplit ⊢
    subst hsplit
    have hr : r ∈ pre ++ r :: post := List.mem_append_right _ List.mem_cons_self
    have hpos := h.pos hr
    have hself : removePieces r.start r.size r = [] := by
      rw [removePieces_eq hpos (h.bounded r hr).stop_le (h.bounded r hr) hpos,
        if_pos ⟨by omega, by omega⟩, max_self, min_self, addPiece_eq, addPiece_eq,
        if_pos le_rfl, if_pos le_rfl, List.append_nil]
    have hothers : ∀ x, x ∈ pre ∨ x ∈ post → removePieces r.start r.size x = [x] := fun x hx => by
      rw [removePieces, h.not_overlap hx, if_neg Bool.false_ne_true]
    have hremoved : (removeUnlocked (pre ++ r :: post) r.start r.size).1 = pre ++ post := by
      rw [removeUnlocked, if_neg hpos.ne', List.flatMap_append, List.flatMap_cons, hself,
        List.nil_append, flatMap_eq_self fun x hx => hothers x (Or.inl hx),
        flatMap_eq_self fun x hx => hothers x (Or.inr hx)]
    have hflag : (removeUnlocked (pre ++ r :: post) r.start r.size).2 = true := by
      rw [h.removed_iff (h.bounded r hr).stop_le]
      refine ⟨r.start, le_rfl, by omega, ?_⟩
      rw [view, h.tidy.lookup_eq hr (covers_iff.mpr ⟨le_rfl, by omega⟩), Option.isSome_some]
    rw [hremoved, hflag,
      (h.sublist ((List.sublist_cons_self r post).append_left pre)).mergeUnlocked_eq_self]

/-- The edit of `Rename`. -/
theorem edits_setName (name : Option (List UInt8)) :
    Edits (setName name) fun v => { v with name := copyVirtualRangeName name } where
  start _ := rfl
  size _ := rfl
  offset _ := rfl
  attributes _ _ := rfl

theorem piece_self {r : Range} (h : Bounded r) : piece r r.start (r.start + r.size) = r := by
  have hoffset : wrap (r.offset + (r.start - r.start)) = r.offset := by
    rw [Nat.sub_self, Nat.add_zero]
    exact Nat.mod_eq_of_lt (Nat.lt_succ_of_le h.offset_le)
  unfold piece
  rw [hoffset, ite_self, Nat.add_sub_cancel_left]

/-- **The fast path of `Rename`** leaves the records the general path leaves. -/
theorem rename_eq_general (h : Canonical ranges) (start size : ℕ) (name : Option (List UInt8)) :
    rename ranges start size name = editUnlocked ranges start size (setName name) := by
  unfold rename
  cases hexact : exactMatch ranges start size with
  | none => rfl
  | some r =>
    obtain ⟨-, hsplit, rfl, rfl⟩ := exactMatch_eq_some hexact
    generalize before ranges r.start = pre at hsplit ⊢
    generalize (lowerBound ranges r.start).tail = post at hsplit ⊢
    subst hsplit
    have hr : r ∈ pre ++ r :: post := List.mem_append_right _ List.mem_cons_self
    have hpos := h.pos hr
    have hself : editPieces r.start r.size (setName name) r = [setName name r] := by
      rw [editPieces_eq hpos (h.bounded r hr).stop_le (h.bounded r hr) hpos,
        if_pos ⟨by omega, by omega⟩, max_self, min_self, addPiece_eq, addPiece_eq,
        if_pos le_rfl, if_pos le_rfl, piece_self (h.bounded r hr), List.nil_append,
        List.append_nil]
    have hothers : ∀ x, x ∈ pre ∨ x ∈ post → editPieces r.start r.size (setName name) x = [x] :=
      fun x hx => by rw [editPieces, h.not_overlap hx, if_neg Bool.false_ne_true]
    have hedited : (pre ++ r :: post).flatMap (editPieces r.start r.size (setName name))
        = pre ++ setName name r :: post := by
      rw [List.flatMap_append, List.flatMap_cons, hself, List.singleton_append,
        flatMap_eq_self fun x hx => hothers x (Or.inl hx),
        flatMap_eq_self fun x hx => hothers x (Or.inr hx)]
    -- the renamed record has the interval of the old one
    have htidy : extent.Tidy (pre ++ setName name r :: post) := by
      obtain ⟨hpre, hrest, hgap⟩ := tidy_append.mp h.tidy
      obtain ⟨hproper, hpost, hafter⟩ := tidy_cons.mp hrest
      refine tidy_append.mpr ⟨hpre, tidy_cons.mpr ⟨hproper, hpost, hafter⟩, fun x hx y hy => ?_⟩
      obtain rfl | hy := List.mem_cons.mp hy
      · exact hgap x hx r List.mem_cons_self
      · exact hgap x hx y (List.mem_cons_of_mem r hy)
    obtain ⟨hpre, hrest, -⟩ := List.pairwise_append.mp h.settled
    rw [editUnlocked, if_neg hpos.ne', hedited, mergeUnlocked_eq htidy]
    exact mergeAroundUnlocked_eq (setName name r) hpre hrest.tail

end FastPaths

/-! ### The methods -/

section Methods

variable {ranges : List Range} {start size : ℕ}

/-- The test of `Add` is the search of `FindOverlap`. -/
theorem any_overlaps_iff {before after : Option Range} {p : Range → Bool} :
    (after.any p = true ∨ before.any p = true) ↔
      (match after.filter p with
        | some position => some position
        | none => before.filter p) ≠ none := by
  cases after with
  | none => cases before <;> simp [Option.filter]
  | some r =>
    cases hp : p r with
    | true => simp [Option.filter, hp]
    | false => cases before <;> simp [Option.filter, hp]

/-- `Add` goes through exactly if the request has an address, does not start at
address 0, and the book says nothing about it. -/
theorem Canonical.add_eq (h : Canonical ranges) (hbound : start + size ≤ uint64Max)
    (offset : ℕ) (protection memoryType : ℤ) (type : RangeType) (name : Option (List UInt8))
    (disallowMerge : Bool) :
    ((start ≠ 0 ∧ size ≠ 0 ∧ ∀ a, start ≤ a → a < start + size → view ranges a = none) →
      add ranges start size offset protection memoryType type name disallowMerge
        = (mergeAroundUnlocked (before ranges start ++
          ⟨start, size, offset, protection, memoryType, type, disallowMerge,
            copyVirtualRangeName name⟩ :: lowerBound ranges start) (before ranges start).length,
          true)) ∧
    (¬ (start ≠ 0 ∧ size ≠ 0 ∧ ∀ a, start ≤ a → a < start + size → view ranges a = none) →
      add ranges start size offset protection memoryType type name disallowMerge
        = (ranges, false)) := by
  by_cases hzero : start = 0 ∨ size = 0
  · refine ⟨fun hfree => ?_, fun _ => by rw [add, if_pos hzero]⟩
    exact absurd hzero (by rintro (hstart | hsize); exacts [hfree.1 hstart, hfree.2.1 hsize])
  · obtain ⟨hstart, hsize⟩ := not_or.mp hzero
    have hpos : 0 < size := Nat.pos_of_ne_zero hsize
    have hfree : (∀ a, start ≤ a → a < start + size → view ranges a = none) ↔
        findOverlap ranges start size = none := by
      rw [h.findOverlap_eq_none hbound hpos]
      have hmeet := h.exists_overlap start hpos
      constructor
      · intro hnone r hr hrange
        obtain ⟨a, hlo, hhi, ha⟩ := hmeet.mp ⟨r, hr, hrange⟩
        rw [hnone a hlo hhi] at ha
        cases ha
      · intro hno a hlo hhi
        by_contra hsome
        obtain ⟨r, hr, hrange⟩ := hmeet.mpr ⟨a, hlo, hhi, Option.isSome_iff_ne_none.mpr hsome⟩
        exact hno r hr hrange
    rw [add, if_neg hzero]
    refine ⟨fun hall => if_neg ?_, fun hsome => if_pos ?_⟩
    · rw [any_overlaps_iff, not_not]
      exact hfree.mp hall.2.2
    · rw [any_overlaps_iff]
      exact fun hnone => hsome ⟨hstart, hsize, hfree.mpr hnone⟩

/-- The book with a record put into free space. -/
theorem Canonical.insert (h : Canonical ranges) {r : Range} (hpos : 0 < r.size) (hr : Bounded r)
    (hfree : ∀ a, r.start ≤ a → a < r.start + r.size → view ranges a = none) :
    Canonical (mergeAroundUnlocked (before ranges r.start ++ r :: lowerBound ranges r.start)
        (before ranges r.start).length) ∧
      ∀ a, view (mergeAroundUnlocked (before ranges r.start ++ r :: lowerBound ranges r.start)
        (before ranges r.start).length) a
          = if r.start ≤ a ∧ a < r.start + r.size then some (r.attributes a)
            else view ranges a := by
  have hno : ∀ x ∈ ranges, ¬ (r.start < x.start + x.size ∧ x.start < r.start + r.size) := by
    intro x hx hrange
    obtain ⟨a, hlo, hhi, ha⟩ := (h.exists_overlap _ hpos).mp ⟨x, hx, hrange⟩
    rw [hfree a hlo hhi] at ha
    cases ha
  have hsplit := before_append_lowerBound ranges r.start
  have htidy := h.tidy
  have hsettled := h.settled
  rw [← hsplit] at htidy hsettled
  obtain ⟨hbefore, hafter, hgap⟩ := tidy_append.mp htidy
  obtain ⟨hsbefore, hsafter, -⟩ := List.pairwise_append.mp hsettled
  have hright : ∀ x ∈ lowerBound ranges r.start, r.start + r.size ≤ x.start := by
    intro x hx
    have hstart := h.start_le hx
    have hsize := h.pos (mem_of_mem_lowerBound hx)
    have := hno x (mem_of_mem_lowerBound hx)
    omega
  have hleft : ∀ x ∈ before ranges r.start, x.start + x.size ≤ r.start := by
    intro x hx
    have hstart := start_lt_of_mem_before hx
    have := hno x (mem_of_mem_before hx)
    omega
  have htidy' : extent.Tidy (before ranges r.start ++ r :: lowerBound ranges r.start) := by
    refine tidy_append.mpr ⟨hbefore, tidy_cons.mpr
      ⟨Nat.lt_add_of_pos_right hpos, hafter, hright⟩, fun x hx y hy => ?_⟩
    obtain rfl | hy := List.mem_cons.mp hy
    · exact hleft x hx
    · exact hgap x hx y hy
  rw [mergeAroundUnlocked_eq r hsbefore hsafter]
  obtain ⟨hcanonical, hview⟩ := canonical_coalesceAll htidy' fun x hx => by
    obtain hx | hx := List.mem_append.mp hx
    · exact h.bounded x (mem_of_mem_before hx)
    · obtain rfl | hx := List.mem_cons.mp hx
      · exact hr
      · exact h.bounded x (mem_of_mem_lowerBound hx)
  refine ⟨hcanonical, fun a => ?_⟩
  rw [hview]
  show extent.lookup Range.attributes _ a = _
  rw [htidy'.lookup_insert, hsplit]
  exact if_congr covers_iff rfl rfl

/-- **`ReleaseReserved`** drops the reserved record that is the request. -/
theorem Canonical.releaseReserved (h : Canonical ranges) (start size : ℕ) :
    Canonical (releaseReserved ranges start size).1 ∧
      ((∃ r ∈ ranges, r.start = start ∧ r.size = size ∧ isReservedRangeType r.type = true) →
        ∀ a, view (releaseReserved ranges start size).1 a
          = if start ≤ a ∧ a < start + size then none else view ranges a) ∧
      ((¬ ∃ r ∈ ranges, r.start = start ∧ r.size = size ∧ isReservedRangeType r.type = true) →
        (releaseReserved ranges start size).1 = ranges) := by
  unfold VirtualRanges.releaseReserved
  refine ⟨h.sublist List.eraseP_sublist, ?_, ?_⟩
  · rintro ⟨r, hr, rfl, rfl, hreserved⟩ a
    obtain ⟨r', pre, post, -, hr', hsplit, herase⟩ := List.exists_of_eraseP
      (p := fun x : Range => decide (x.start = r.start ∧ x.size = r.size) &&
        isReservedRangeType x.type) hr (by simp [hreserved])
    simp only [Bool.and_eq_true, decide_eq_true_eq] at hr'
    rw [herase]
    show extent.lookup Range.attributes _ a = _
    have htidy := h.tidy
    rw [hsplit] at htidy
    rw [htidy.lookup_without, ← hsplit, ← hr'.1.1, ← hr'.1.2]
    exact if_congr covers_iff rfl rfl
  · intro hno
    refine List.eraseP_of_forall_not fun r hr htest => hno ⟨r, hr, ?_⟩
    simp only [Bool.and_eq_true, decide_eq_true_eq] at htest
    exact ⟨htest.1.1, htest.1.2, htest.2⟩

/-- **The loop of `ConsumeReservedSpan`** tells whether every address up to
`stop` is of the type. -/
theorem Canonical.spanReserved_iff (h : Canonical ranges) (type : RangeType) (stop current : ℕ) :
    spanReserved ranges type stop current = true ↔
      ∀ a, current ≤ a → a < stop → ∃ v, view ranges a = some v ∧ v.type = type := by
  have hat : ∀ a, (∃ v, view ranges a = some v ∧ v.type = type) ↔
      ∃ r ∈ ranges, r.type = type ∧ extent.Covers r a := by
    intro a
    constructor
    · rintro ⟨v, hv, htype⟩
      obtain ⟨r, hr, hra, rfl⟩ := h.tidy.lookup_eq_some.mp hv
      exact ⟨r, hr, htype, hra⟩
    · rintro ⟨r, hr, htype, hra⟩
      exact ⟨_, h.tidy.lookup_eq hr hra, htype⟩
  induction current using spanReserved.induct ranges type stop with
  | case1 current hlt hcandidate =>
    rw [spanReserved, if_pos hlt]
    split
    · simp only [Bool.false_eq_true, false_iff]
      -- no record of the type contains `current`
      intro hall
      obtain ⟨r, hr, htype, hra⟩ := (hat current).mp (hall current le_rfl hlt)
      obtain ⟨hlo, hhi⟩ := covers_iff.mp hra
      have := List.find?_eq_none.mp hcandidate r hr
      rw [(h.bounded r hr).stop_eq, decide_eq_true_eq] at this
      exact this ⟨htype, hlo, hhi⟩
    · rename_i hsome
      rw [hcandidate] at hsome
      cases hsome
  | case2 current hlt candidate hcandidate ih =>
    rw [spanReserved, if_pos hlt]
    have hmem := List.mem_of_find?_eq_some hcandidate
    have hcontains := List.find?_some hcandidate
    rw [decide_eq_true_eq, (h.bounded candidate hmem).stop_eq] at hcontains
    have hpass : (∀ a, current ≤ a → a < stop → ∃ v, view ranges a = some v ∧ v.type = type) ↔
        ∀ a, min stop candidate.stop ≤ a → a < stop →
          ∃ v, view ranges a = some v ∧ v.type = type := by
      rw [(h.bounded candidate hmem).stop_eq]
      constructor
      · exact fun hall a hlo hhi => hall a (by omega) hhi
      · intro hall a hlo hhi
        by_cases hinside : a < candidate.start + candidate.size
        · exact (hat a).mpr ⟨candidate, hmem, hcontains.1, covers_iff.mpr ⟨by omega, hinside⟩⟩
        · exact hall a (by omega) hhi
    rw [hpass]
    refine Iff.trans ?_ ih
    split
    · rename_i hnone
      rw [hcandidate] at hnone
      cases hnone
    · rename_i candidate' hsome
      rw [hcandidate] at hsome
      rw [Option.some.inj hsome]
  | case3 current hge =>
    rw [spanReserved, if_neg hge]
    exact ⟨fun _ a hlo hhi => absurd (hlo.trans_lt hhi) hge, fun _ => rfl⟩

end Methods

/-! ### Calls -/

/-- The first address of the request. -/
def Call.start : Call → ℕ
  | add start .. | remove start _ | releaseReserved start _ | consumeReserved start _ _
  | consumeReservedSpan start _ _ | rename start _ _ | protect start _ _
  | setMemoryType start _ _ => start

/-- The size of the request. -/
def Call.size : Call → ℕ
  | add _ size .. | remove _ size | releaseReserved _ size | consumeReserved _ size _
  | consumeReservedSpan _ size _ | rename _ size _ | protect _ size _
  | setMemoryType _ size _ => size

/-- The request does not overflow, and an offset is a 64 bit number. -/
def Call.Valid (c : Call) : Prop :=
  c.start + c.size ≤ uint64Max ∧
    match c with
    | add _ _ offset .. => offset ≤ uint64Max
    | _ => True

/-- The addresses of the request. -/
def Call.Names (c : Call) (a : ℕ) : Prop := c.start ≤ a ∧ a < c.start + c.size

/-- Whether a call is carried out: `Add` needs free space, and what is released
or consumed has to be there. -/
def Call.GoesThrough (ranges : List Range) (c : Call) : Prop :=
  match c with
  | add start size .. => start ≠ 0 ∧ size ≠ 0 ∧ ∀ a, c.Names a → view ranges a = none
  | releaseReserved start size =>
    ∃ r ∈ ranges, r.start = start ∧ r.size = size ∧ isReservedRangeType r.type = true
  | consumeReserved start size type =>
    ∃ r ∈ ranges, r.type = type ∧ r.start ≤ start ∧ start + size ≤ r.start + r.size
  | consumeReservedSpan _ size type =>
    size ≠ 0 ∧ ∀ a, c.Names a → ∃ v, view ranges a = some v ∧ v.type = type
  | _ => True

/-- What a call that is carried out makes of what the book says about an address
of its request. -/
def Call.effect (c : Call) (a : ℕ) (v : Option Attributes) : Option Attributes :=
  match c with
  | add start _ offset protection memoryType type name _ =>
    some ⟨type, protection, memoryType, copyVirtualRangeName name,
      if type = .direct then some (wrap (offset + (a - start))) else none⟩
  | remove .. | releaseReserved .. | consumeReserved .. | consumeReservedSpan .. => none
  | rename _ _ name => v.map fun v => { v with name := copyVirtualRangeName name }
  | protect _ _ protection => v.map fun v => { v with protection }
  | setMemoryType _ _ memoryType => v.map fun v => { v with memoryType }

/-- What a call returns; `Remove` tells whether it found something. -/
def Call.Returns (ranges : List Range) (c : Call) : Prop :=
  match c with
  | remove .. => ∃ a, c.Names a ∧ (view ranges a).isSome
  | add .. | consumeReserved .. | consumeReservedSpan .. => c.GoesThrough ranges
  | _ => True

/-- What is asked of a call on a canonical book. -/
structure Call.Sound (ranges : List Range) (c : Call) : Prop where
  canonical : Canonical (c.apply ranges).1
  changes : c.GoesThrough ranges → ∀ a, c.Names a →
    view (c.apply ranges).1 a = c.effect a (view ranges a)
  frame : ∀ a, ¬ (c.GoesThrough ranges ∧ c.Names a) →
    view (c.apply ranges).1 a = view ranges a
  returns : (c.apply ranges).2 = true ↔ c.Returns ranges

/-- A call that is carried out. -/
theorem Call.sound_of_apply {ranges ranges' : List Range} {c : Call} {result : Bool}
    (happly : c.apply ranges = (ranges', result)) (hthrough : c.GoesThrough ranges)
    (hcanonical : Canonical ranges')
    (hview : ∀ a, view ranges' a = if c.start ≤ a ∧ a < c.start + c.size then
      c.effect a (view ranges a) else view ranges a)
    (hreturns : result = true ↔ c.Returns ranges) : c.Sound ranges where
  canonical := by rwa [happly]
  changes := fun _ a ha => by rw [happly, hview a]; exact if_pos ha
  frame := fun a ha => by
    rw [happly, hview a]
    exact if_neg fun hnames => ha ⟨hthrough, hnames⟩
  returns := by rwa [happly]

/-- A call that is not carried out. -/
theorem Call.sound_of_stays {ranges : List Range} {c : Call} {result : Bool}
    (happly : c.apply ranges = (ranges, result)) (h : Canonical ranges)
    (hstays : ¬ c.GoesThrough ranges) (hreturns : result = true ↔ c.Returns ranges) :
    c.Sound ranges where
  canonical := by rwa [happly]
  changes := fun hthrough => absurd hthrough hstays
  frame := fun a _ => by rw [happly]
  returns := by rwa [happly]

theorem edits_protect (protection : ℤ) :
    Edits (fun r => { r with protection }) fun v => { v with protection } where
  start _ := rfl
  size _ := rfl
  offset _ := rfl
  attributes _ _ := rfl

theorem edits_setMemoryType (memoryType : ℤ) :
    Edits (fun r => { r with memoryType }) fun v => { v with memoryType } where
  start _ := rfl
  size _ := rfl
  offset _ := rfl
  attributes _ _ := rfl

/-- **Every call** on a canonical book keeps it canonical, has its effect on the
addresses it names if it goes through, and leaves all others alone. -/
theorem Call.sound {ranges : List Range} (h : Canonical ranges) :
    ∀ {c : Call}, c.Valid → c.Sound ranges
  | .add start size offset protection memoryType type name disallowMerge, hvalid => by
    have hbound : start + size ≤ uint64Max := hvalid.1
    obtain ⟨hadd, hkeep⟩ := h.add_eq hbound offset protection memoryType type name disallowMerge
    have hthrough : (Call.add start size offset protection memoryType type name
        disallowMerge).GoesThrough ranges ↔ start ≠ 0 ∧ size ≠ 0 ∧
          ∀ a, start ≤ a → a < start + size → view ranges a = none :=
      and_congr_right fun _ => and_congr_right fun _ => forall_congr' fun _ => and_imp
    by_cases hfree : start ≠ 0 ∧ size ≠ 0 ∧ ∀ a, start ≤ a → a < start + size →
        view ranges a = none
    · obtain ⟨hcanonical, hview⟩ := h.insert
        (r := ⟨start, size, offset, protection, memoryType, type, disallowMerge,
          copyVirtualRangeName name⟩) (Nat.pos_of_ne_zero hfree.2.1) ⟨hbound, hvalid.2⟩ hfree.2.2
      exact sound_of_apply (hadd hfree) (hthrough.mpr hfree) hcanonical hview
        (iff_of_true rfl (hthrough.mpr hfree))
    · have hstays := mt hthrough.mp hfree
      exact sound_of_stays (hkeep hfree) h hstays (iff_of_false Bool.false_ne_true hstays)
  | .remove start size, hvalid => by
    have hbound : start + size ≤ uint64Max := hvalid.1
    obtain ⟨hcanonical, hview⟩ := h.removeUnlocked hbound
    refine sound_of_apply (remove_eq_general h start size) trivial hcanonical hview ?_
    exact (h.removed_iff hbound).trans (exists_congr fun a => and_assoc.symm)
  | .releaseReserved start size, _ => by
    obtain ⟨hcanonical, hdrop, hkeep⟩ := h.releaseReserved start size
    by_cases hreserved : ∃ r ∈ ranges, r.start = start ∧ r.size = size ∧
        isReservedRangeType r.type = true
    · exact sound_of_apply rfl hreserved hcanonical (hdrop hreserved) (iff_of_true rfl trivial)
    · exact sound_of_stays (Prod.ext (hkeep hreserved) rfl) h hreserved (iff_of_true rfl trivial)
  | .consumeReserved start size type, hvalid => by
    have hbound : start + size ≤ uint64Max := hvalid.1
    have hany : (ranges.any fun r => decide (r.type = type ∧ start ≥ r.start ∧
        endOf start size ≤ r.stop)) = true ↔
          (Call.consumeReserved start size type).GoesThrough ranges := by
      rw [List.any_eq_true, endOf_eq hbound]
      refine exists_congr fun r => and_congr_right fun hr => ?_
      rw [decide_eq_true_eq, (h.bounded r hr).stop_eq]
    by_cases hthrough : (Call.consumeReserved start size type).GoesThrough ranges
    · obtain ⟨hcanonical, hview⟩ := h.removeUnlocked hbound
      exact sound_of_apply (if_pos (hany.mpr hthrough)) hthrough hcanonical hview
        (iff_of_true rfl hthrough)
    · exact sound_of_stays (if_neg fun hsome => hthrough (hany.mp hsome)) h hthrough
        (iff_of_false Bool.false_ne_true hthrough)
  | .consumeReservedSpan start size type, hvalid => by
    have hbound : start + size ≤ uint64Max := hvalid.1
    have hspan := h.spanReserved_iff type (start + size) start
    by_cases hthrough : (Call.consumeReservedSpan start size type).GoesThrough ranges
    · obtain ⟨hcanonical, hview⟩ := h.removeUnlocked hbound
      have hall := hspan.mpr fun a hlo hhi => hthrough.2 a ⟨hlo, hhi⟩
      refine sound_of_apply ?_ hthrough hcanonical hview (iff_of_true rfl hthrough)
      simp only [Call.apply, VirtualRanges.consumeReservedSpan, if_neg hthrough.1,
        endOf_eq hbound, hall, if_true]
    · refine sound_of_stays ?_ h hthrough (iff_of_false Bool.false_ne_true hthrough)
      by_cases hzero : size = 0
      · simp only [Call.apply, VirtualRanges.consumeReservedSpan, if_pos hzero]
      · have hnot : ¬ spanReserved ranges type (start + size) start = true := fun hall =>
          hthrough ⟨hzero, fun a ha => hspan.mp hall a ha.1 ha.2⟩
        simp only [Call.apply, VirtualRanges.consumeReservedSpan, if_neg hzero,
          endOf_eq hbound, if_neg hnot]
  | .rename start size name, hvalid => by
    have hbound : start + size ≤ uint64Max := hvalid.1
    obtain ⟨hcanonical, hview⟩ := h.editUnlocked (edits_setName name) hbound
    exact sound_of_apply (Prod.ext (rename_eq_general h start size name) rfl) trivial hcanonical
      hview (iff_of_true rfl trivial)
  | .protect start size protection, hvalid => by
    obtain ⟨hcanonical, hview⟩ := h.editUnlocked (edits_protect protection) hvalid.1
    exact sound_of_apply rfl trivial hcanonical hview (iff_of_true rfl trivial)
  | .setMemoryType start size memoryType, hvalid => by
    obtain ⟨hcanonical, hview⟩ := h.editUnlocked (edits_setMemoryType memoryType) hvalid.1
    exact sound_of_apply rfl trivial hcanonical hview (iff_of_true rfl trivial)

/-- Every reachable book is canonical. -/
theorem canonical_run {calls : List Call} (hvalid : ∀ c ∈ calls, c.Valid) :
    Canonical (run calls) := by
  have hfold : ∀ (calls : List Call) (ranges : List Range), Canonical ranges →
      (∀ c ∈ calls, c.Valid) →
      Canonical (calls.foldl (fun ranges c => (c.apply ranges).1) ranges) := by
    intro calls
    induction calls with
    | nil => exact fun _ h _ => h
    | cons c calls ih =>
      intro ranges h hvalid
      exact ih _ (Call.sound h (hvalid c List.mem_cons_self)).canonical
        fun d hd => hvalid d (List.mem_cons_of_mem c hd)
  exact hfold calls [] Canonical.nil hvalid

/-- **`VirtualRanges` is a pointwise map.** After any calls whose ranges do not
overflow, the records are not empty, sorted, disjoint and merged as far as they
go; the next such call changes what the book says exactly on the addresses it
names; and the fast paths of `Remove` and `Rename` leave the very records the
general paths leave. -/
theorem pointwise_map (calls : List Call) (hvalid : ∀ c ∈ calls, c.Valid) :
    Canonical (run calls) ∧ (∀ c : Call, c.Valid → c.Sound (run calls)) ∧
      ∀ start size,
        remove (run calls) start size
          = (mergeUnlocked (removeUnlocked (run calls) start size).1,
            (removeUnlocked (run calls) start size).2) ∧
        ∀ name, rename (run calls) start size name
          = editUnlocked (run calls) start size (setName name) := by
  have h := canonical_run hvalid
  exact ⟨h, fun c hc => Call.sound h hc, fun start size =>
    ⟨remove_eq_general h start size, rename_eq_general h start size⟩⟩

/-- The result after two neighbouring reservations, a part across the seam
renamed. -/
theorem pointwise_map_renamed :
    Canonical (run [.add 1 4 0 0 0 .reserved none false, .add 5 4 0 0 0 .reserved none false,
      .rename 3 4 (some [1])]) :=
  (pointwise_map [.add 1 4 0 0 0 .reserved none false, .add 5 4 0 0 0 .reserved none false,
    .rename 3 4 (some [1])] fun c hc => by
      simp only [List.mem_cons, List.not_mem_nil, or_false] at hc
      obtain rfl | rfl | rfl := hc <;> exact ⟨by decide, by decide⟩).1

end Prosperismo.VirtualRanges
