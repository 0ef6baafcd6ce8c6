import Mathlib.Data.List.Sort
import Mathlib.Order.MinMax
import Prosperismo.Base.Intervals

/-!
# Loops over the neighbours of a sorted list

Two loops that need a sorted list, as they compare only neighbours.

* `dropRepeats` leaves out an element that is equal to the one before it. On a sorted list what
  is left is strictly increasing (`dropRepeats_lt`).
* `Extent.joinAll` joins intervals that overlap or touch. On a list that is sorted by the lower
  bounds the result is the list of the maximal intervals of the same set
  (`Extent.joinAll_spec`): it is `Apart`, so it is the only such list.
-/

namespace Prosperismo

/-! ### Repeats -/

section Repeats

variable {α : Type*} [DecidableEq α]

/-- `std::unique`: leave out an element that is equal to the one before it. -/
def dropRepeats : List α → List α
  | [] => []
  | [x] => [x]
  | x :: y :: l => if x = y then dropRepeats (y :: l) else x :: dropRepeats (y :: l)

theorem mem_dropRepeats {x : α} : ∀ {l : List α}, x ∈ dropRepeats l ↔ x ∈ l
  | [] => Iff.rfl
  | [_] => Iff.rfl
  | y :: z :: l => by
    unfold dropRepeats
    split
    · next heq =>
      rw [mem_dropRepeats, heq, List.mem_cons (a := x) (b := z) (l := z :: l), List.mem_cons,
        or_self_left]
    · rw [List.mem_cons, mem_dropRepeats, List.mem_cons (l := z :: l)]

/-- A sorted list without repeats is strictly increasing. -/
theorem dropRepeats_lt [LinearOrder α] : ∀ {l : List α}, l.Pairwise (· ≤ ·) →
    (dropRepeats l).Pairwise (· < ·)
  | [], _ => .nil
  | [x], _ => List.pairwise_singleton _ x
  | x :: y :: l, h => by
    obtain ⟨hx, hl⟩ := List.pairwise_cons.1 h
    unfold dropRepeats
    split
    · exact dropRepeats_lt hl
    · next hne =>
      refine List.pairwise_cons.2 ⟨fun z hz => ?_, dropRepeats_lt hl⟩
      -- the next element is larger, and the others are not below it
      have hxy : x < y := lt_of_le_of_ne (hx y List.mem_cons_self) hne
      rcases List.mem_cons.1 (mem_dropRepeats.1 hz) with rfl | hz
      · exact hxy
      · exact hxy.trans_le ((List.pairwise_cons.1 hl).1 z hz)

end Repeats

/-! ### Unions -/

namespace Extent

variable {ι α : Type*} [LinearOrder α] (e : Extent ι α) (join : ι → ι → ι)

/-- Join `last` with the intervals of the list, as long as they leave no gap. -/
def joinFrom : ι → List ι → List ι
  | last, [] => [last]
  | last, i :: l =>
    if e.hi last < e.lo i then last :: joinFrom i l else joinFrom (join last i) l

/-- Join the intervals of a list that overlap or touch. -/
def joinAll : List ι → List ι
  | [] => []
  | i :: l => joinFrom e join i l

/-- The joined interval begins where the first one does, and ends where the later one does. -/
structure Joining : Prop where
  lo : ∀ i j, e.lo i ≤ e.lo j → e.lo (join i j) = e.lo i
  hi : ∀ i j, e.lo i ≤ e.lo j → e.hi (join i j) = max (e.hi i) (e.hi j)

variable {e join}

/-- What comes out of the loop. -/
theorem joinFrom_spec (h : Joining e join) : ∀ {last : ι} {l : List ι},
    (∀ i ∈ last :: l, e.lo i < e.hi i) →
    (last :: l).Pairwise (fun i j => e.lo i ≤ e.lo j) →
      e.Apart (joinFrom e join last l) ∧
      (∀ i ∈ joinFrom e join last l, e.lo last ≤ e.lo i ∧ (∃ j ∈ last :: l, e.lo i = e.lo j) ∧
        ∃ j ∈ last :: l, e.hi i = e.hi j) ∧
      ∀ a, e.Covered (joinFrom e join last l) a ↔ e.Covered (last :: l) a
  | last, [], hproper, _ => by
    refine ⟨⟨hproper, List.pairwise_singleton _ _⟩, fun i hi => ?_, fun a => Iff.rfl⟩
    obtain rfl := List.mem_singleton.1 hi
    exact ⟨le_rfl, ⟨i, List.mem_singleton_self i, rfl⟩, i, List.mem_singleton_self i, rfl⟩
  | last, i :: l, hproper, hsorted => by
    obtain ⟨hlast, hproper'⟩ := List.forall_mem_cons.1 hproper
    obtain ⟨hhead, hsorted'⟩ := List.pairwise_cons.1 hsorted
    have hle := hhead i List.mem_cons_self
    unfold joinFrom
    split
    · next hgap =>
      obtain ⟨hapart, hbounds, hcovered⟩ := joinFrom_spec h hproper' hsorted'
      refine ⟨apart_cons.2 ⟨hlast, hapart, fun j hj => hgap.trans_le (hbounds j hj).1⟩, ?_, ?_⟩
      · intro j hj
        rcases List.mem_cons.1 hj with rfl | hj
        · exact ⟨le_rfl, ⟨j, List.mem_cons_self, rfl⟩, j, List.mem_cons_self, rfl⟩
        · obtain ⟨hlo, ⟨k, hk, hkl⟩, k', hk', hkh⟩ := hbounds j hj
          exact ⟨hle.trans hlo, ⟨k, List.mem_cons_of_mem _ hk, hkl⟩, k',
            List.mem_cons_of_mem _ hk', hkh⟩
      · intro a
        rw [covered_cons, hcovered, covered_cons (i := last)]
    · next hgap =>
      have htouch := not_lt.1 hgap
      have hlo := h.lo last i hle
      have hhi := h.hi last i hle
      obtain ⟨hi, hproper''⟩ := List.forall_mem_cons.1 hproper'
      obtain ⟨hbehind, hsorted''⟩ := List.pairwise_cons.1 hsorted'
      have hjoined : e.lo (join last i) < e.hi (join last i) := by
        rw [hlo, hhi]
        exact lt_max_of_lt_left hlast
      have hbefore : ∀ j ∈ l, e.lo (join last i) ≤ e.lo j := fun j hj =>
        hlo.trans_le (hhead j (List.mem_cons_of_mem _ hj))
      obtain ⟨hapart, hbounds, hcovered⟩ := joinFrom_spec h
        (List.forall_mem_cons.2 ⟨hjoined, hproper''⟩) (List.pairwise_cons.2 ⟨hbefore, hsorted''⟩)
      refine ⟨hapart, fun j hj => ?_, fun a => ?_⟩
      · obtain ⟨hlo', ⟨k', hk', hkl⟩, k, hk, hhi'⟩ := hbounds j hj
        refine ⟨hlo ▸ hlo', ?_, ?_⟩
        · rcases List.mem_cons.1 hk' with rfl | hk'
          · exact ⟨last, List.mem_cons_self, hkl.trans hlo⟩
          · exact ⟨k', List.mem_cons_of_mem _ (List.mem_cons_of_mem _ hk'), hkl⟩
        rcases List.mem_cons.1 hk with rfl | hk
        · -- the joined interval ends with one of the two
          rcases max_choice (e.hi last) (e.hi i) with hmax | hmax
          · exact ⟨last, List.mem_cons_self, hhi'.trans (hhi.trans hmax)⟩
          · exact ⟨i, List.mem_cons_of_mem _ List.mem_cons_self, hhi'.trans (hhi.trans hmax)⟩
        · exact ⟨k, List.mem_cons_of_mem _ (List.mem_cons_of_mem _ hk), hhi'⟩
      · rw [hcovered, covered_cons, covered_cons, covered_cons, ← or_assoc]
        refine or_congr_left ?_
        unfold Covers
        rw [hlo, hhi, lt_max_iff]
        constructor
        · rintro ⟨hge, hlt | hlt⟩
          · exact Or.inl ⟨hge, hlt⟩
          · -- no gap: a point behind the first interval is in the second
            rcases lt_or_ge a (e.hi last) with hin | hout
            · exact Or.inl ⟨hge, hin⟩
            · exact Or.inr ⟨htouch.trans hout, hlt⟩
        · rintro (⟨hge, hlt⟩ | ⟨hge, hlt⟩)
          · exact ⟨hge, Or.inl hlt⟩
          · exact ⟨hle.trans hge, Or.inr hlt⟩

/-- **The union of a sorted list of intervals.** -/
theorem joinAll_spec (h : Joining e join) {l : List ι} (hproper : ∀ i ∈ l, e.lo i < e.hi i)
    (hsorted : l.Pairwise fun i j => e.lo i ≤ e.lo j) :
    e.Apart (joinAll e join l) ∧
      (∀ i ∈ joinAll e join l, (∃ j ∈ l, e.lo i = e.lo j) ∧ ∃ j ∈ l, e.hi i = e.hi j) ∧
      ∀ a, e.Covered (joinAll e join l) a ↔ e.Covered l a := by
  cases l with
  | nil => exact ⟨.nil, fun i hi => absurd hi List.not_mem_nil, fun a => Iff.rfl⟩
  | cons i l =>
    obtain ⟨hapart, hbounds, hcovered⟩ := joinFrom_spec h hproper hsorted
    exact ⟨hapart, fun j hj => (hbounds j hj).2, hcovered⟩

end Extent

end Prosperismo
