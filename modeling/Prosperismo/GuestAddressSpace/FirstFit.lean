import Mathlib.Algebra.Order.Ring.Nat
import Prosperismo.GuestAddressSpace.Model
import Prosperismo.VirtualRanges.Pointwise

/-!
# The search is an exact first fit

`First P result` says that a search gave the smallest address with `P`, or 0
when there is none. It composes:

* `alignUp_spec`: the next multiple of the alignment, `First` for the multiples
  from a value on;
* `findFreeAligned_first`: `First` for the addresses that fit the free map. As
  the entries come by ascending start, the candidates ascend too, so the first
  entry that takes its candidate has the smallest;
* `findIn_first`: a candidate that overlaps a virtual range is passed together
  with everything up to the end of that range, and nothing that fits is lost:
  what starts later and still before that end overlaps the same range.
-/

namespace Prosperismo.GuestAddressSpace

open VirtualRanges (uint64Max wrap queryOverlap Canonical)

/-- The search gave the smallest address with the property, or 0 if there is
none. -/
structure First (P : ℕ → Prop) (result : ℕ) : Prop where
  least : result ≠ 0 → P result ∧ ∀ a, P a → result ≤ a
  none : result = 0 → ∀ a, ¬ P a

theorem First.congr {P Q : ℕ → Prop} {result : ℕ} (h : First P result) (hPQ : ∀ a, P a ↔ Q a) :
    First Q result where
  least := fun hne => ⟨(hPQ result).mp (h.least hne).1,
    fun a ha => (h.least hne).2 a ((hPQ a).mpr ha)⟩
  none := fun heq a ha => h.none heq a ((hPQ a).mpr ha)

/-! ### Alignment -/

/-- **`AlignUp`** gives the first multiple of the alignment from a value on, if
it is an address. -/
theorem alignUp_spec (value : ℕ) {alignment : ℕ} (hvalue : 0 < value) (hmax : value ≤ uint64Max)
    (halign : 0 < alignment) :
    First (fun a => value ≤ a ∧ a ≤ uint64Max ∧ alignment ∣ a) (alignUp value alignment) := by
  -- `value + increment` is a multiple, and no smaller one is at `value` or above
  obtain ⟨increment, hincrement, hdvd, hmin⟩ : ∃ increment,
      (if value % alignment ≠ 0 then alignment - value % alignment else 0) = increment ∧
        alignment ∣ value + increment ∧ ∀ a, value ≤ a → alignment ∣ a → value + increment ≤ a := by
    refine ⟨_, rfl, ?_, ?_⟩
    · have hlt := Nat.mod_lt value halign
      have hdiv := Nat.div_add_mod value alignment
      split
      · refine ⟨value / alignment + 1, ?_⟩
        rw [Nat.mul_add, Nat.mul_one]
        omega
      · exact ⟨value / alignment, by omega⟩
    · rintro a ha ⟨k, rfl⟩
      have hlt := Nat.mod_lt value halign
      have hdiv := Nat.div_add_mod value alignment
      split
      · rename_i hne
        -- the quotient of a multiple above `value` is larger
        have hk : value / alignment < k := by
          by_contra hle
          have : alignment * k ≤ alignment * (value / alignment) :=
            Nat.mul_le_mul_left alignment (not_lt.mp hle)
          omega
        have : alignment * (value / alignment + 1) ≤ alignment * k :=
          Nat.mul_le_mul_left alignment hk
        rw [Nat.mul_add, Nat.mul_one] at this
        omega
      · omega
  have halignUp : alignUp value alignment
      = if increment ≤ uint64Max - value then value + increment else 0 := by
    rw [← hincrement]
    exact if_neg halign.ne'
  rw [halignUp]
  split
  · exact ⟨fun _ => ⟨⟨by omega, by omega, hdvd⟩, fun a ha => hmin a ha.1 ha.2.2⟩,
      fun hzero => by omega⟩
  · refine ⟨fun hne => absurd rfl hne, fun _ a ha => ?_⟩
    have := hmin a ha.1 ha.2.2
    omega

/-! ### The free map -/

/-- The size bytes from `a` on lie in an entry of the free map. An entry that
leaves the address space is no range. -/
def InRange (range : ℕ × ℕ) (size a : ℕ) : Prop :=
  range.1 ≤ a ∧ a + size ≤ range.1 + range.2 ∧ range.1 + range.2 ≤ uint64Max

/-- An address a search may give, as far as the request is concerned. -/
def Eligible (searchStart searchEnd size alignment a : ℕ) : Prop :=
  alignment ∣ a ∧ searchStart ≤ a ∧ a + size ≤ searchEnd

theorem guestFreeRangeContains_iff {range : ℕ × ℕ} {candidate size : ℕ} (hsize : 0 < size) :
    guestFreeRangeContains range.1 range.2 candidate size = true ↔
      InRange range size candidate := by
  unfold guestFreeRangeContains InRange
  split
  · simp only [Bool.false_eq_true, false_iff]
    omega
  · rw [decide_eq_true_eq]
    omega

section Search

variable {searchStart searchEnd size alignment : ℕ} (hstart : 0 < searchStart)
  (hmax : searchStart ≤ uint64Max) (hend : searchEnd ≤ uint64Max) (hsize : 0 < size)
  (halign : 0 < alignment)
include hstart hmax hend hsize halign

/-- An entry refuses its candidate only if nothing in it will do. -/
theorem candidateIn_none {range : ℕ × ℕ}
    (h : candidateIn searchStart searchEnd size alignment range = none) (a : ℕ) :
    ¬ (Eligible searchStart searchEnd size alignment a ∧ InRange range size a) := by
  rintro ⟨⟨hdvd, hlo, hhi⟩, hbase, hin, hlast⟩
  have hfirst := alignUp_spec (max range.1 searchStart) (by omega) (by omega) halign
  have hne : alignUp (max range.1 searchStart) alignment ≠ 0 := fun hzero =>
    hfirst.none hzero a ⟨by omega, by omega, hdvd⟩
  obtain ⟨⟨hge, -, -⟩, hleast⟩ := hfirst.least hne
  have hle := hleast a ⟨by omega, by omega, hdvd⟩
  unfold candidateIn at h
  dsimp only at h
  rw [if_pos] at h
  · cases h
  · exact ⟨by omega, by omega, (guestFreeRangeContains_iff hsize).mpr ⟨by omega, by omega, hlast⟩⟩

omit hend in
/-- The candidate of an entry will do, and it is the first multiple of the
alignment in the entry or after it; it is 0 when there is no such multiple. -/
theorem candidateIn_some {range : ℕ × ℕ} {candidate : ℕ}
    (h : candidateIn searchStart searchEnd size alignment range = some candidate) :
    (candidate ≠ 0 → Eligible searchStart searchEnd size alignment candidate ∧
      InRange range size candidate) ∧
    ∀ a, max range.1 searchStart ≤ a → a ≤ uint64Max → alignment ∣ a →
      candidate ≠ 0 ∧ candidate ≤ a := by
  unfold candidateIn at h
  dsimp only at h
  split at h
  · rename_i htest
    obtain rfl := Option.some.inj h
    have hin := (guestFreeRangeContains_iff hsize).mp htest.2.2
    have hvalue : max range.1 searchStart ≤ uint64Max := by
      obtain ⟨hbase, hfits, hlast⟩ := hin
      omega
    have hfirst := alignUp_spec (max range.1 searchStart) (by omega) hvalue halign
    constructor
    · intro hne
      obtain ⟨⟨hge, -, hdvd⟩, -⟩ := hfirst.least hne
      exact ⟨⟨hdvd, by omega, by omega⟩, hin⟩
    · intro a hlo hhi hdvd
      have hne : alignUp (max range.1 searchStart) alignment ≠ 0 := fun hzero =>
        hfirst.none hzero a ⟨hlo, hhi, hdvd⟩
      exact ⟨hne, (hfirst.least hne).2 a ⟨hlo, hhi, hdvd⟩⟩
  · cases h

/-- **The loop of `FindFreeAlignedUnlocked`** over entries in ascending order. -/
theorem findSome_first : ∀ {l : List (ℕ × ℕ)}, l.Pairwise (fun x y => x.1 < y.1) →
    First (fun a => Eligible searchStart searchEnd size alignment a ∧ ∃ range ∈ l,
      InRange range size a)
      ((l.findSome? (candidateIn searchStart searchEnd size alignment)).getD 0)
  | [], _ => ⟨fun hne => absurd rfl hne, fun _ a ha => by
      obtain ⟨-, range, hrange, -⟩ := ha
      exact List.not_mem_nil hrange⟩
  | range :: l, hl => by
    obtain ⟨hfirst, htail⟩ := List.pairwise_cons.mp hl
    cases hcandidate : candidateIn searchStart searchEnd size alignment range with
    | none =>
      rw [List.findSome?_cons, hcandidate]
      have hnone := candidateIn_none hstart hmax hend hsize halign hcandidate
      refine (findSome_first htail).congr fun a => and_congr_right fun heligible => ?_
      constructor
      · rintro ⟨range', hrange', hin⟩
        exact ⟨range', List.mem_cons_of_mem range hrange', hin⟩
      · rintro ⟨range', hrange', hin⟩
        obtain rfl | hrange' := List.mem_cons.mp hrange'
        · exact absurd ⟨heligible, hin⟩ (hnone a)
        · exact ⟨range', hrange', hin⟩
    | some candidate =>
      rw [List.findSome?_cons, hcandidate]
      obtain ⟨hgood, hleast⟩ := candidateIn_some hstart hmax hsize halign hcandidate
      have hall : ∀ a, (Eligible searchStart searchEnd size alignment a ∧
          ∃ range' ∈ range :: l, InRange range' size a) → candidate ≠ 0 ∧ candidate ≤ a := by
        rintro a ⟨⟨hdvd, hlo, hhi⟩, range', hrange', hin⟩
        -- later entries start later
        have hkey : range.1 ≤ range'.1 := by
          obtain rfl | hrange' := List.mem_cons.mp hrange'
          · exact le_rfl
          · exact (hfirst range' hrange').le
        obtain ⟨hbase, -, -⟩ := hin
        exact hleast a (by omega) (by omega) hdvd
      refine ⟨fun hne => ⟨⟨(hgood hne).1, range, List.mem_cons_self, (hgood hne).2⟩,
        fun a ha => (hall a ha).2⟩, fun hzero a ha => (hall a ha).1 hzero⟩

/-- The bytes lie in one free range. -/
def InFree (free : FreeMap) (size a : ℕ) : Prop := ∃ range ∈ free.entries, InRange range size a

omit hstart hmax hend hsize halign in
theorem inFree_iff {free : FreeMap} {a : ℕ} :
    InFree free size a ↔ ∃ range ∈ free.entries, InRange range size a := Iff.rfl

/-- **`FindFreeAligned`** is a first fit in the free map. -/
theorem findFreeAligned_first (free : FreeMap) :
    First (fun a => Eligible searchStart searchEnd size (max alignment pageSize) a ∧
      InFree free size a) (findFreeAligned free searchStart searchEnd size alignment) := by
  have hpage : 0 < max alignment pageSize := halign.trans_le (le_max_left _ _)
  rw [findFreeAligned, if_neg (by omega), findFreeAlignedUnlocked]
  split
  · refine ⟨fun hne => absurd rfl hne, fun _ a ha => ?_⟩
    obtain ⟨⟨-, hlo, hhi⟩, -⟩ := ha
    omega
  · exact findSome_first hstart hmax hend hsize hpage free.sorted

end Search

/-! ### Both books -/

/-- No virtual range overlaps the bytes. -/
def Unmapped (ranges : List VirtualRanges.Range) (size a : ℕ) : Prop :=
  ∀ x, a ≤ x → x < a + size → VirtualRanges.view ranges x = none

section Both

variable {free : FreeMap} {ranges : List VirtualRanges.Range} (h : Canonical ranges)
  {size alignment last : ℕ} (hlast : last ≤ uint64Max) (hsize : 0 < size) (halign : 0 < alignment)
include h hlast hsize halign

omit hlast halign in
/-- Bytes no virtual range overlaps, in terms of the records. -/
theorem unmapped_iff {a : ℕ} : Unmapped ranges size a ↔
    ∀ r ∈ ranges, ¬ (a < r.start + r.size ∧ r.start < a + size) := by
  have hmeet := h.exists_overlap a hsize
  constructor
  · intro hnone r hr hrange
    obtain ⟨x, hlo, hhi, hx⟩ := hmeet.mp ⟨r, hr, hrange⟩
    rw [hnone x hlo hhi] at hx
    cases hx
  · intro hno x hlo hhi
    by_contra hsome
    obtain ⟨r, hr, hrange⟩ := hmeet.mpr ⟨x, hlo, hhi, Option.isSome_iff_ne_none.mpr hsome⟩
    exact hno r hr hrange

/-- **`find_in`** is a first fit in both books. -/
theorem findIn_first (current : ℕ) (hcurrent : 0 < current) (hmax : current ≤ uint64Max) :
    First (fun a => Eligible current last size (max alignment pageSize) a ∧ InFree free size a ∧
      Unmapped ranges size a) (findIn free ranges size alignment last current) := by
  rw [findIn]
  split
  · have hcandidate := findFreeAligned_first hcurrent hmax hlast hsize halign free
    generalize findFreeAligned free current last size alignment = candidate at hcandidate ⊢
    dsimp only
    split
    · rename_i hzero
      exact ⟨fun hne => absurd rfl hne, fun _ a ha => hcandidate.none hzero a ⟨ha.1, ha.2.1⟩⟩
    · rename_i hne
      obtain ⟨⟨⟨hdvd, hlo, hhi⟩, hfree⟩, hleast⟩ := hcandidate.least hne
      have hfit : candidate + size ≤ uint64Max := hhi.trans hlast
      split
      · rename_i hnone
        have hunmapped : Unmapped ranges size candidate :=
          (unmapped_iff h hsize).mpr ((h.findOverlap_eq_none hfit hsize).mp hnone)
        exact ⟨fun _ => ⟨⟨⟨hdvd, hlo, hhi⟩, hfree, hunmapped⟩,
          fun a ha => hleast a ⟨ha.1, ha.2.1⟩⟩, fun hzero => absurd hzero hne⟩
      · rename_i overlap hsome
        obtain ⟨hmem, hoverlap⟩ := VirtualRanges.findOverlap_eq_some hsome
        have hbounded := h.bounded overlap hmem
        obtain ⟨hends, hstarts⟩ := (VirtualRanges.overlap_iff hsize hfit hbounded
          (h.pos hmem)).mp hoverlap
        have hstop := hbounded.stop_le
        have hwrap : wrap (overlap.start + overlap.size) = overlap.start + overlap.size :=
          Nat.mod_eq_of_lt (Nat.lt_succ_of_le hstop)
        rw [hwrap, if_neg (by omega)]
        refine (findIn_first (overlap.start + overlap.size) (by omega) hstop).congr fun a => ?_
        constructor
        · rintro ⟨⟨hdvd', hlo', hhi'⟩, hrest⟩
          exact ⟨⟨hdvd', by omega, hhi'⟩, hrest⟩
        · rintro ⟨⟨hdvd', hlo', hhi'⟩, hfree', hunmapped⟩
          -- what fits starts at the candidate or later, and not in the range
          have hle := hleast a ⟨⟨hdvd', hlo', hhi'⟩, hfree'⟩
          have hapart := (unmapped_iff h hsize).mp hunmapped overlap hmem
          exact ⟨⟨hdvd', by omega, hhi'⟩, hfree', hunmapped⟩
  · refine ⟨fun hne => absurd rfl hne, fun _ a ha => ?_⟩
    obtain ⟨⟨-, hlo, hhi⟩, -⟩ := ha
    omega
termination_by last - current

end Both

/-! ### Runs -/

/-- An address `FindGuestFreeRange` may give: a multiple of the alignment, at
least a page, at the search address or above, such that the bytes lie inside one
free range and below the end of the user's addresses, and overlap no virtual
range. -/
structure Fits (free : FreeMap) (ranges : List VirtualRanges.Range)
    (searchAddr size alignment a : ℕ) : Prop where
  aligned : max alignment pageSize ∣ a
  above : searchAddr ≤ a
  below : a + size ≤ hostUserMax + 1
  free : InFree free size a
  unmapped : Unmapped ranges size a

end Prosperismo.GuestAddressSpace
