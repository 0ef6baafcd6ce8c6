import Prosperismo.Base.Intervals
import Prosperismo.PhysicalMemory.Model

/-!
# The free ranges

The free ranges are kept apart: not empty, in order, and with a gap between any
two, which is what coalescing is for. `consumeFreeRange_spec` takes bytes out of
one of them, `addFreeRange_spec` puts bytes in.
-/

namespace Prosperismo.PhysicalMemory

open Extent

/-- A free range is the interval from its key, of its size. -/
def freeExtent : Extent (ℕ × ℕ) ℕ := ⟨Prod.fst, fun range => range.1 + range.2⟩

theorem free_covers_iff {range : ℕ × ℕ} {a : ℕ} :
    freeExtent.Covers range a ↔ range.1 ≤ a ∧ a < range.1 + range.2 := Iff.rfl

/-- A range with a byte, as a list kept apart. -/
theorem apart_singleton {range : ℕ × ℕ} (h : 0 < range.2) : freeExtent.Apart [range] :=
  apart_cons.mpr ⟨Nat.lt_add_of_pos_right h, Apart.nil, fun _ hj => absurd hj List.not_mem_nil⟩

/-! ### Taking bytes out -/

/-- What `ConsumeFreeRange` leaves of a range. -/
def remains (range : ℕ × ℕ) (start size : ℕ) : List (ℕ × ℕ) :=
  (if range.1 < start then [(range.1, start - range.1)] else []) ++
    if start + size < range.1 + range.2 then
      [(start + size, range.1 + range.2 - start - size)] else []

section Consume

variable {range : ℕ × ℕ} {start size : ℕ}

theorem mem_remains {piece : ℕ × ℕ} (h : piece ∈ remains range start size) :
    (range.1 < start ∧ piece = (range.1, start - range.1)) ∨
      (start + size < range.1 + range.2 ∧
        piece = (start + size, range.1 + range.2 - start - size)) := by
  unfold remains at h
  obtain h | h := List.mem_append.mp h
  · split at h
    · exact Or.inl ⟨‹_›, List.mem_singleton.mp h⟩
    · exact absurd h List.not_mem_nil
  · split at h
    · exact Or.inr ⟨‹_›, List.mem_singleton.mp h⟩
    · exact absurd h List.not_mem_nil

theorem within_remains (hstart : range.1 ≤ start) (hend : start + size ≤ range.1 + range.2) :
    ∀ piece ∈ remains range start size, range.1 ≤ piece.1 ∧
      piece.1 + piece.2 ≤ range.1 + range.2 := by
  intro piece h
  obtain ⟨hlt, rfl⟩ | ⟨hlt, rfl⟩ := mem_remains h
  · exact ⟨le_rfl, by show range.1 + (start - range.1) ≤ _; omega⟩
  · exact ⟨by show range.1 ≤ start + size; omega,
      by show start + size + (range.1 + range.2 - start - size) ≤ _; omega⟩

theorem apart_remains (hsize : 0 < size) : freeExtent.Apart (remains range start size) := by
  have hone : ∀ (c : Prop) [Decidable c] (piece : ℕ × ℕ), (c → 0 < piece.2) →
      freeExtent.Apart (if c then [piece] else []) := by
    intro c _ piece hpos
    split
    · exact apart_singleton (hpos ‹_›)
    · exact Apart.nil
  refine apart_append.mpr ⟨hone _ _ fun hlt => Nat.sub_pos_of_lt hlt,
    hone _ _ fun hlt => by show 0 < range.1 + range.2 - start - size; omega, fun i hi j hj => ?_⟩
  split at hi
  · split at hj
    · rw [List.mem_singleton.mp hi, List.mem_singleton.mp hj]
      show range.1 + (start - range.1) < start + size
      omega
    · exact absurd hj List.not_mem_nil
  · exact absurd hi List.not_mem_nil

theorem covered_remains {a : ℕ} : freeExtent.Covered (remains range start size) a ↔
    (range.1 ≤ a ∧ a < start) ∨ (start + size ≤ a ∧ a < range.1 + range.2) := by
  unfold remains
  rw [covered_append]
  refine or_congr ?_ ?_
  · split
    · rw [covered_cons, free_covers_iff]
      simp only [covered_nil, or_false]
      omega
    · simp only [covered_nil, false_iff]
      omega
  · split
    · rw [covered_cons, free_covers_iff]
      simp only [covered_nil, or_false]
      omega
    · simp only [covered_nil, false_iff]
      omega

/-- `ConsumeFreeRange` puts what is left in the place of the range. -/
theorem entries_consumeFreeRange {free : FreeMap} {l r : List (ℕ × ℕ)}
    (h : freeExtent.Apart free.entries) (hsplit : free.entries = l ++ range :: r)
    (hstart : range.1 ≤ start) (hsize : 0 < size) (hend : start + size ≤ range.1 + range.2) :
    (consumeFreeRange free range start size).entries = l ++ (remains range start size ++ r) := by
  have hsorted := free.sorted
  rw [hsplit, List.pairwise_append, List.pairwise_cons] at hsorted
  rw [hsplit, apart_append, apart_cons] at h
  obtain ⟨-, ⟨-, -, hafter⟩, -⟩ := h
  obtain ⟨-, ⟨-, -⟩, hbefore⟩ := hsorted
  have hl : ∀ x ∈ l, x.1 < range.1 := fun x hx => hbefore x hx range List.mem_cons_self
  have hr : ∀ x ∈ r, range.1 + range.2 < x.1 := hafter
  have herase := OrderedMap.erase_of_split hsplit
  unfold consumeFreeRange remains
  dsimp only
  -- the part to the left goes behind what is smaller
  have hleft : ∃ l', (if range.1 < start then (OrderedMap.erase free range.1).emplace range.1
      (start - range.1) else OrderedMap.erase free range.1).entries = l' ++ r ∧
        l' = l ++ (if range.1 < start then [(range.1, start - range.1)] else []) ∧
        ∀ x ∈ l', x.1 < start + size := by
    by_cases hlt : range.1 < start
    · rw [if_pos hlt, if_pos hlt]
      refine ⟨_, ?_, rfl, fun x hx => ?_⟩
      · rw [OrderedMap.emplace_of_split _ herase hl fun x hx => by have := hr x hx; omega,
          List.append_assoc, List.singleton_append]
      · obtain hx | hx := List.mem_append.mp hx
        · have := hl x hx
          omega
        · rw [List.mem_singleton.mp hx]
          show range.1 < start + size
          omega
    · rw [if_neg hlt, if_neg hlt]
      refine ⟨_, by rw [List.append_nil]; exact herase, rfl, fun x hx => ?_⟩
      rw [List.append_nil] at hx
      have := hl x hx
      omega
  obtain ⟨l', hentries, rfl, hl'⟩ := hleft
  by_cases hlt : start + size < range.1 + range.2
  · rw [if_pos hlt, if_pos hlt, OrderedMap.emplace_of_split _ hentries hl'
      fun x hx => by have := hr x hx; omega]
    simp only [List.append_assoc, List.singleton_append]
  · rw [if_neg hlt, if_neg hlt, hentries, List.append_nil, List.append_assoc]

/-- **`ConsumeFreeRange`** keeps the free ranges apart and takes the bytes out. -/
theorem consumeFreeRange_spec {free : FreeMap} (h : freeExtent.Apart free.entries)
    (hrange : range ∈ free.entries) (hstart : range.1 ≤ start) (hsize : 0 < size)
    (hend : start + size ≤ range.1 + range.2) :
    freeExtent.Apart (consumeFreeRange free range start size).entries ∧
      ∀ a, freeExtent.Covered (consumeFreeRange free range start size).entries a ↔
        freeExtent.Covered free.entries a ∧ ¬ (start ≤ a ∧ a < start + size) := by
  obtain ⟨l, r, hsplit⟩ := List.append_of_mem hrange
  rw [entries_consumeFreeRange h hsplit hstart hsize hend]
  rw [hsplit] at h ⊢
  refine ⟨h.replace (apart_remains hsize) (within_remains hstart hend), fun a => ?_⟩
  rw [h.tidy.covered_replace (within_remains hstart hend), covered_remains]
  have hmem : freeExtent.Covers range a → freeExtent.Covered (l ++ range :: r) a := fun ha =>
    ⟨range, List.mem_append_right l List.mem_cons_self, ha⟩
  rw [free_covers_iff] at hmem ⊢
  constructor
  · rintro (hleft | ⟨hcovered, hout⟩)
    · exact ⟨hmem ⟨by omega, by omega⟩, by omega⟩
    · exact ⟨hcovered, by omega⟩
  · rintro ⟨hcovered, hout⟩
    by_cases hin : range.1 ≤ a ∧ a < range.1 + range.2
    · exact Or.inl (by omega)
    · exact Or.inr ⟨hcovered, hin⟩

end Consume

/-! ### Putting bytes in -/

/-- **The loop of `AddFreeRange`.** Every entry it walks starts at `first` or
later. What it grows is the union of `[first, last)` with the entries it erases,
and lies apart from the entries it leaves. -/
theorem swallow_spec {pre : List (ℕ × ℕ)} {first : ℕ} :
    ∀ {it : List (ℕ × ℕ)} {last : ℕ} {free : FreeMap}, free.entries = pre ++ it →
      freeExtent.Apart it → first < last → (∀ i ∈ it, first ≤ i.1) →
      ∃ rest, (swallow it last free).2.entries = pre ++ rest ∧ rest <:+ it ∧
        (∀ i ∈ rest, (swallow it last free).1 < i.1) ∧ last ≤ (swallow it last free).1 ∧
        ∀ a, (first ≤ a ∧ a < (swallow it last free).1) ∨ freeExtent.Covered rest a ↔
          (first ≤ a ∧ a < last) ∨ freeExtent.Covered it a
  | [], last, free, hsplit, _, _, _ =>
    ⟨[], hsplit, List.suffix_refl _, fun _ hi => absurd hi List.not_mem_nil, le_rfl,
      fun _ => Iff.rfl⟩
  | i :: it, last, free, hsplit, hapart, hlt, hstart => by
    obtain ⟨hi, hit, hgap⟩ := apart_cons.mp hapart
    have hfirst : first ≤ i.1 := hstart i List.mem_cons_self
    rw [swallow]
    split
    · rename_i htouch
      obtain ⟨rest, hrest, hsuffix, hafter, hlast, hcovered⟩ :=
        swallow_spec (OrderedMap.erase_of_split hsplit) hit
          (hlt.trans_le (le_max_left last (i.1 + i.2)))
          fun j hj => hstart j (List.mem_cons_of_mem i hj)
      refine ⟨rest, hrest, hsuffix.trans (List.suffix_cons i it), hafter,
        (le_max_left _ _).trans hlast, fun a => ?_⟩
      -- the two intervals overlap or touch, so their hull is their union
      rw [hcovered a, covered_cons, free_covers_iff, ← or_assoc]
      exact or_congr (by omega) Iff.rfl
    · rename_i htouch
      refine ⟨i :: it, hsplit, List.suffix_refl _, fun j hj => ?_, le_rfl, fun _ => Iff.rfl⟩
      obtain rfl | hj := List.mem_cons.mp hj
      · exact not_le.mp htouch
      · have hfar : i.1 + i.2 < j.1 := hgap j hj
        show last < j.1
        omega

/-- Growing a range over what it touches, and inserting it. -/
theorem emplace_swallowed {free : FreeMap} {pre it : List (ℕ × ℕ)} {first : ℕ} (last : ℕ)
    (hsplit : free.entries = pre ++ it) (h : freeExtent.Apart (pre ++ it))
    (hbefore : ∀ i ∈ pre, i.1 + i.2 < first) (hafter : ∀ i ∈ it, first ≤ i.1)
    (hlt : first < last) :
    freeExtent.Apart ((swallow it last free).2.emplace first
        ((swallow it last free).1 - first)).entries ∧
      ∀ a, freeExtent.Covered ((swallow it last free).2.emplace first
        ((swallow it last free).1 - first)).entries a ↔
          freeExtent.Covered (pre ++ it) a ∨ (first ≤ a ∧ a < last) := by
  obtain ⟨hpre, hit, hgap⟩ := apart_append.mp h
  obtain ⟨rest, hrest, hsuffix, hfar, hlast, hcovered⟩ := swallow_spec hsplit hit hlt hafter
  generalize swallow it last free = grown at hrest hfar hlast hcovered ⊢
  have hend : freeExtent.hi (first, grown.1 - first) = grown.1 := by
    show first + (grown.1 - first) = grown.1
    omega
  rw [OrderedMap.emplace_of_split _ hrest
    (fun i hi => (Nat.le_add_right i.1 i.2).trans_lt (hbefore i hi))
    fun i hi => by have := hfar i hi; omega]
  constructor
  · have hrestApart : freeExtent.Apart rest := by
      obtain ⟨taken, rfl⟩ := hsuffix
      exact (apart_append.mp hit).2.1
    refine apart_append.mpr ⟨hpre, apart_cons.mpr ⟨?_, hrestApart, fun j hj => ?_⟩,
      fun i hi j hj => ?_⟩
    · rw [hend]
      exact hlt.trans_le hlast
    · rw [hend]
      exact hfar j hj
    · obtain rfl | hj := List.mem_cons.mp hj
      · exact hbefore i hi
      · exact hgap i hi j (hsuffix.subset hj)
  · intro a
    have hgrown : freeExtent.Covers (first, grown.1 - first) a ↔ first ≤ a ∧ a < grown.1 := by
      rw [Extent.Covers, hend]
      exact Iff.rfl
    rw [covered_append, covered_cons, covered_append, hgrown, hcovered a, or_assoc]
    exact or_congr_right or_comm

/-- **`AddFreeRange`** keeps the free ranges apart and puts the bytes in. -/
theorem addFreeRange_spec {free : FreeMap} (h : freeExtent.Apart free.entries) (start : ℕ)
    {size : ℕ} (hsize : 0 < size) : freeExtent.Apart (addFreeRange free start size).entries ∧
      ∀ a, freeExtent.Covered (addFreeRange free start size).entries a ↔
        freeExtent.Covered free.entries a ∨ (start ≤ a ∧ a < start + size) := by
  have hsplit := free.below_append_lowerBound start
  have hall := h
  rw [← hsplit] at hall
  obtain ⟨hbelow, -, hgap⟩ := apart_append.mp hall
  have hnext : ∀ i ∈ free.lowerBound start, start ≤ i.1 := fun i hi =>
    OrderedMap.le_of_mem_lowerBound hi
  unfold addFreeRange
  cases htouching : (free.below start).getLast?.filter
      (fun previous => decide (previous.1 + previous.2 ≥ start)) with
  | some previous =>
    obtain ⟨hlast, htouch⟩ := Option.filter_eq_some_iff.mp htouching
    rw [decide_eq_true_eq] at htouch
    obtain ⟨front, hfront⟩ := List.getLast?_eq_some_iff.mp hlast
    have hkey : previous.1 < start := OrderedMap.lt_of_mem_below
      (hfront ▸ List.mem_append_right front List.mem_cons_self : previous ∈ free.below start)
    have hentries : free.entries = front ++ previous :: free.lowerBound start := by
      rw [← hsplit, hfront, List.append_assoc, List.singleton_append]
    rw [hentries] at h
    have herase := OrderedMap.erase_of_split hentries
    rw [hfront] at hbelow
    have hrest : freeExtent.Apart (front ++ free.lowerBound start) := by
      have := h.replace (p := []) Apart.nil fun _ hj => absurd hj List.not_mem_nil
      rwa [List.nil_append] at this
    have hbefore : ∀ i ∈ front, i.1 + i.2 < previous.1 := fun i hi =>
      (apart_append.mp hbelow).2.2 i hi previous List.mem_cons_self
    obtain ⟨hapart, hcovered⟩ := emplace_swallowed (max (start + size)
      (previous.1 + previous.2)) herase hrest hbefore
      (fun i hi => hkey.le.trans (hnext i hi)) (by omega)
    refine ⟨hapart, fun a => ?_⟩
    rw [hcovered a, hentries, covered_append, covered_append, covered_cons, free_covers_iff]
    constructor
    · rintro ((hleft | hright) | hin)
      · exact Or.inl (Or.inl hleft)
      · exact Or.inl (Or.inr (Or.inr hright))
      · by_cases hold : a < previous.1 + previous.2
        · exact Or.inl (Or.inr (Or.inl ⟨hin.1, hold⟩))
        · exact Or.inr (by omega)
    · rintro ((hleft | hold | hright) | hin)
      · exact Or.inl (Or.inl hleft)
      · exact Or.inr (by omega)
      · exact Or.inl (Or.inr hright)
      · exact Or.inr (by omega)
  | none =>
    have hends : ∀ i ∈ free.below start, i.1 + i.2 < start := by
      intro i hi
      obtain hnil | ⟨front, last, hfront⟩ := (free.below start).eq_nil_or_concat'
      · rw [hnil] at hi
        exact absurd hi List.not_mem_nil
      · -- the last entry behind does not touch, and the others end before it
        have hlast : (free.below start).getLast? = some last := by
          rw [hfront, List.getLast?_concat]
        have hout := Option.filter_eq_none_iff.mp htouching last hlast
        rw [decide_eq_true_eq] at hout
        rw [hfront] at hi hbelow
        obtain hi | hi := List.mem_append.mp hi
        · have hgap' : i.1 + i.2 < last.1 :=
            (apart_append.mp hbelow).2.2 i hi last List.mem_cons_self
          omega
        · rw [List.mem_singleton.mp hi]
          omega
    obtain ⟨hapart, hcovered⟩ := emplace_swallowed (start + size) hsplit.symm
      (hsplit.symm ▸ h) hends hnext (by omega)
    refine ⟨hapart, fun a => ?_⟩
    rw [hcovered a, hsplit]

end Prosperismo.PhysicalMemory
