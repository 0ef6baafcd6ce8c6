import Prosperismo.VirtualRanges.Pointwise

/-!
# Requests that overflow

A request whose end is no 64 bit number ends at `UINT64_MAX` for every method but
`Add`, so it does what the request cut off there does (`clip`), and the book stays
canonical. Records are only added where memory is, so `Add` is never called with such
a request; `canonical_run_fair` asks for no more than that.
-/

namespace Prosperismo.VirtualRanges

/-- The size of a request up to `UINT64_MAX`. -/
def clip (start size : ℕ) : ℕ := min size (uint64Max - start)

section Clip

variable {start size : ℕ} (hstart : start ≤ uint64Max)
include hstart

theorem clip_bound : start + clip start size ≤ uint64Max := by
  unfold clip
  omega

theorem endOf_clip : endOf start size = endOf start (clip start size) := by
  rw [endOf_eq (clip_bound hstart)]
  unfold endOf clip
  split <;> omega

/-- A request without bytes up to `UINT64_MAX` meets no record. -/
theorem overlap_clip (r : Range) : virtualRangesOverlap start size r.start r.size
    = virtualRangesOverlap start (clip start size) r.start r.size := by
  have hend : endOf start size = _ := endOf_clip hstart
  unfold endOf at hend
  unfold virtualRangesOverlap
  by_cases hzero : size = 0 ∨ r.size = 0
  · have hzero' : clip start size = 0 ∨ r.size = 0 := hzero.imp_left fun h => by
      unfold clip
      omega
    rw [if_pos hzero, if_pos hzero']
  · rw [if_neg hzero, hend]
    by_cases hclip : clip start size = 0
    · -- the request starts at `UINT64_MAX`
      rw [if_pos (Or.inl hclip), hclip]
      have htop : uint64Max ≤ start := by
        unfold clip at hclip
        omega
      rw [decide_eq_false_iff_not]
      rintro ⟨hlo, -⟩
      revert hlo
      split <;> omega
    · rw [if_neg (not_or.mpr ⟨hclip, fun h => hzero (.inr h)⟩)]

theorem removePieces_clip (r : Range) :
    removePieces start size r = removePieces start (clip start size) r := by
  unfold removePieces
  rw [overlap_clip hstart, endOf_clip hstart]

theorem editPieces_clip (edit : Range → Range) (r : Range) :
    editPieces start size edit r = editPieces start (clip start size) edit r := by
  unfold editPieces
  rw [overlap_clip hstart, endOf_clip hstart]

omit hstart in
theorem removePieces_zero (r : Range) : removePieces start 0 r = [r] := by
  unfold removePieces virtualRangesOverlap
  rw [if_pos (Or.inl rfl), if_neg Bool.false_ne_true]

omit hstart in
theorem editPieces_zero (edit : Range → Range) (r : Range) : editPieces start 0 edit r = [r] := by
  unfold editPieces virtualRangesOverlap
  rw [if_pos (Or.inl rfl), if_neg Bool.false_ne_true]

/-- `RemoveUnlocked` does what it does for the request cut off. -/
theorem removeUnlocked_clip (ranges : List Range) :
    (removeUnlocked ranges start size).1 = (removeUnlocked ranges start (clip start size)).1 := by
  have hall : ∀ size, (removeUnlocked ranges start size).1
      = ranges.flatMap (removePieces start size) := by
    intro size
    unfold removeUnlocked
    split
    · rename_i hzero
      rw [hzero, funext removePieces_zero, List.flatMap_singleton']
    · rfl
  rw [hall, hall, funext (removePieces_clip hstart)]

theorem Canonical.removeUnlocked_fair {ranges : List Range} (h : Canonical ranges) :
    Canonical (mergeUnlocked (VirtualRanges.removeUnlocked ranges start size).1) := by
  rw [removeUnlocked_clip hstart]
  exact (h.removeUnlocked (clip_bound hstart)).1

theorem Canonical.editUnlocked_fair {ranges : List Range} (h : Canonical ranges)
    {edit : Range → Range} {change : Attributes → Attributes} (E : Edits edit change) :
    Canonical (VirtualRanges.editUnlocked ranges start size edit) := by
  have hall : ∀ size, VirtualRanges.editUnlocked ranges start size edit
      = mergeUnlocked (ranges.flatMap (editPieces start size edit)) := by
    intro size
    unfold VirtualRanges.editUnlocked
    split
    · rename_i hzero
      rw [hzero, funext (editPieces_zero edit), List.flatMap_singleton', h.mergeUnlocked_eq_self]
    · rfl
  rw [hall, funext (editPieces_clip hstart edit), ← hall]
  exact (h.editUnlocked E (clip_bound hstart)).1

end Clip

/-- The arguments are 64 bit numbers, and what is added ends in the address space. -/
def Call.Fair (c : Call) : Prop :=
  c.start ≤ uint64Max ∧
    match c with
    | add start size offset .. => start + size ≤ uint64Max ∧ offset ≤ uint64Max
    | _ => True

theorem Canonical.apply {ranges : List Range} (h : Canonical ranges) {c : Call} (hc : c.Fair) :
    Canonical (c.apply ranges).1 := by
  cases c with
  | add start size offset protection memoryType type name disallowMerge =>
    exact (Call.sound h (c := .add start size offset protection memoryType type name disallowMerge)
      hc.2).canonical
  | remove start size =>
    rw [show (Call.apply ranges (.remove start size)).1 = (remove ranges start size).1 from rfl,
      remove_eq_general h]
    exact h.removeUnlocked_fair hc.1
  | releaseReserved start size => exact h.sublist List.eraseP_sublist
  | consumeReserved start size type =>
    simp only [Call.apply, consumeReserved]
    split
    · exact h.removeUnlocked_fair hc.1
    · exact h
  | consumeReservedSpan start size type =>
    simp only [Call.apply, consumeReservedSpan]
    split
    · exact h
    split
    · exact h.removeUnlocked_fair hc.1
    · exact h
  | rename start size name =>
    rw [show (Call.apply ranges (.rename start size name)).1 = rename ranges start size name from
      rfl, rename_eq_general h]
    exact h.editUnlocked_fair hc.1 (edits_setName name)
  | protect start size protection => exact h.editUnlocked_fair hc.1 (edits_protect protection)
  | setMemoryType start size memoryType =>
    exact h.editUnlocked_fair hc.1 (edits_setMemoryType memoryType)

/-- Every book that is reached is canonical, whatever the requests are. -/
theorem canonical_run_fair {calls : List Call} (hfair : ∀ c ∈ calls, c.Fair) :
    Canonical (run calls) := by
  have hfold : ∀ (calls : List Call) (ranges : List Range), Canonical ranges →
      (∀ c ∈ calls, c.Fair) →
      Canonical (calls.foldl (fun ranges c => (c.apply ranges).1) ranges) := by
    intro calls
    induction calls with
    | nil => exact fun _ h _ => h
    | cons c calls ih =>
      intro ranges h hfair
      exact ih _ (h.apply (hfair c List.mem_cons_self)) fun d hd =>
        hfair d (List.mem_cons_of_mem c hd)
  exact hfold calls [] Canonical.nil hfair

end Prosperismo.VirtualRanges
