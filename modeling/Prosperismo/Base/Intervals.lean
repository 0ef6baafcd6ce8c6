import Mathlib.Data.List.Basic
import Mathlib.Order.Lattice

/-!
# Lists of half open intervals

Allocators and range books keep their state as a list of records, each of which
stands for the half open interval from a lower to an upper bound. What the
bounds are differs (two stored ends, a start and a size), so everything here is
about an `Extent`, the two functions that read the bounds off a record.

* `Covered l a`: some record of `l` contains the point `a`. This is the set the
  list denotes.
* `Tidy l`: the intervals are not empty, and each ends where a later one
  starts or before that.
* `Apart l`: between an interval and a later one there is a gap, so that the
  list is the only one for its set.
* `lookup v l a`: what the record that contains `a` says about `a`, read with
  `v`. In a tidy list at most one record contains `a`, and `lookup_flatMap`
  says that cutting every interval into pieces cuts `lookup` in the same way.
-/

namespace Prosperismo

/-- How to read an interval off a record. -/
structure Extent (ι α : Type*) where
  /-- The first point of the interval. -/
  lo : ι → α
  /-- The point after the last one. -/
  hi : ι → α

namespace Extent

variable {ι α : Type*} [LinearOrder α] (e : Extent ι α)

/-- The interval of `i` contains `a`. -/
def Covers (i : ι) (a : α) : Prop := e.lo i ≤ a ∧ a < e.hi i

instance (i : ι) (a : α) : Decidable (e.Covers i a) := inferInstanceAs (Decidable (_ ∧ _))

/-- Some interval of the list contains `a`. -/
def Covered (l : List ι) (a : α) : Prop := ∃ i ∈ l, e.Covers i a

@[simp] theorem covered_nil (a : α) : ¬ e.Covered [] a := fun ⟨_, hi, _⟩ => List.not_mem_nil hi

@[simp] theorem covered_cons (i : ι) (l : List ι) (a : α) :
    e.Covered (i :: l) a ↔ e.Covers i a ∨ e.Covered l a := by
  simp only [Covered, List.mem_cons, or_and_right, exists_or, exists_eq_left]

@[simp] theorem covered_append (l r : List ι) (a : α) :
    e.Covered (l ++ r) a ↔ e.Covered l a ∨ e.Covered r a := by
  simp only [Covered, List.mem_append, or_and_right, exists_or]

theorem covered_flatMap {κ : Type*} (l : List κ) (f : κ → List ι) (a : α) :
    e.Covered (l.flatMap f) a ↔ ∃ k ∈ l, e.Covered (f k) a := by
  constructor
  · rintro ⟨i, hi, ha⟩
    obtain ⟨k, hk, hik⟩ := List.mem_flatMap.mp hi
    exact ⟨k, hk, i, hik, ha⟩
  · rintro ⟨k, hk, i, hik, ha⟩
    exact ⟨i, List.mem_flatMap.mpr ⟨k, hk, hik⟩, ha⟩

/-! ### Tidy lists -/

/-- The intervals are not empty and come in order, without overlaps. -/
structure Tidy (l : List ι) : Prop where
  proper : ∀ i ∈ l, e.lo i < e.hi i
  ordered : l.Pairwise fun i j => e.hi i ≤ e.lo j

/-- The intervals are not empty and come in order, with a gap between any two. -/
structure Apart (l : List ι) : Prop where
  proper : ∀ i ∈ l, e.lo i < e.hi i
  apart : l.Pairwise fun i j => e.hi i < e.lo j

variable {e}

theorem Apart.tidy {l : List ι} (h : e.Apart l) : e.Tidy l :=
  ⟨h.proper, h.apart.imp fun hij => hij.le⟩

theorem Tidy.nil : e.Tidy [] := ⟨fun _ hi => absurd hi List.not_mem_nil, List.Pairwise.nil⟩

theorem Apart.nil : e.Apart [] := ⟨fun _ hi => absurd hi List.not_mem_nil, List.Pairwise.nil⟩

theorem tidy_append {l r : List ι} :
    e.Tidy (l ++ r) ↔ e.Tidy l ∧ e.Tidy r ∧ ∀ i ∈ l, ∀ j ∈ r, e.hi i ≤ e.lo j := by
  constructor
  · rintro ⟨hp, ho⟩
    obtain ⟨hl, hr, hlr⟩ := List.pairwise_append.mp ho
    exact ⟨⟨fun i hi => hp i (List.mem_append_left r hi), hl⟩,
      ⟨fun i hi => hp i (List.mem_append_right l hi), hr⟩, hlr⟩
  · rintro ⟨hl, hr, hlr⟩
    refine ⟨fun i hi => ?_, List.pairwise_append.mpr ⟨hl.ordered, hr.ordered, hlr⟩⟩
    exact (List.mem_append.mp hi).elim (hl.proper i) (hr.proper i)

theorem tidy_cons {i : ι} {l : List ι} :
    e.Tidy (i :: l) ↔ e.lo i < e.hi i ∧ e.Tidy l ∧ ∀ j ∈ l, e.hi i ≤ e.lo j := by
  constructor
  · rintro ⟨hp, ho⟩
    obtain ⟨hi, hl⟩ := List.pairwise_cons.mp ho
    exact ⟨hp i List.mem_cons_self, ⟨fun j hj => hp j (List.mem_cons_of_mem i hj), hl⟩, hi⟩
  · rintro ⟨hi, hl, hil⟩
    refine ⟨fun j hj => ?_, List.pairwise_cons.mpr ⟨hil, hl.ordered⟩⟩
    obtain rfl | hj := List.mem_cons.mp hj
    · exact hi
    · exact hl.proper j hj

theorem apart_append {l r : List ι} :
    e.Apart (l ++ r) ↔ e.Apart l ∧ e.Apart r ∧ ∀ i ∈ l, ∀ j ∈ r, e.hi i < e.lo j := by
  constructor
  · rintro ⟨hp, ho⟩
    obtain ⟨hl, hr, hlr⟩ := List.pairwise_append.mp ho
    exact ⟨⟨fun i hi => hp i (List.mem_append_left r hi), hl⟩,
      ⟨fun i hi => hp i (List.mem_append_right l hi), hr⟩, hlr⟩
  · rintro ⟨hl, hr, hlr⟩
    refine ⟨fun i hi => ?_, List.pairwise_append.mpr ⟨hl.apart, hr.apart, hlr⟩⟩
    exact (List.mem_append.mp hi).elim (hl.proper i) (hr.proper i)

theorem apart_cons {i : ι} {l : List ι} :
    e.Apart (i :: l) ↔ e.lo i < e.hi i ∧ e.Apart l ∧ ∀ j ∈ l, e.hi i < e.lo j := by
  constructor
  · rintro ⟨hp, ho⟩
    obtain ⟨hi, hl⟩ := List.pairwise_cons.mp ho
    exact ⟨hp i List.mem_cons_self, ⟨fun j hj => hp j (List.mem_cons_of_mem i hj), hl⟩, hi⟩
  · rintro ⟨hi, hl, hil⟩
    refine ⟨fun j hj => ?_, List.pairwise_cons.mpr ⟨hil, hl.apart⟩⟩
    obtain rfl | hj := List.mem_cons.mp hj
    · exact hi
    · exact hl.proper j hj

/-- A list of nonempty intervals that keep their order has increasing lower
bounds. -/
theorem Tidy.lo_lt {l : List ι} (h : e.Tidy l) : l.Pairwise fun i j => e.lo i < e.lo j :=
  List.Pairwise.imp_of_mem (fun hi _ hij => (h.proper _ hi).trans_le hij) h.ordered

/-- Of two different members of a list, one comes first. -/
theorem rel_or_rel {R : ι → ι → Prop} {l : List ι} (h : l.Pairwise R) {i j : ι} (hi : i ∈ l)
    (hj : j ∈ l) (hne : i ≠ j) : R i j ∨ R j i := by
  induction h with
  | nil => exact absurd hi List.not_mem_nil
  | cons hhead _ ih =>
    obtain rfl | hil := List.mem_cons.mp hi
    · exact Or.inl (hhead j ((List.mem_cons.mp hj).resolve_left hne.symm))
    · obtain rfl | hjl := List.mem_cons.mp hj
      · exact Or.inr (hhead i hil)
      · exact ih hil hjl

/-- Two intervals of a tidy list that share a point are the same. -/
theorem Tidy.eq_of_covers {l : List ι} (h : e.Tidy l) {i j : ι} (hi : i ∈ l) (hj : j ∈ l) {a : α}
    (hia : e.Covers i a) (hja : e.Covers j a) : i = j := by
  by_contra hne
  obtain hij | hji := rel_or_rel h.ordered hi hj hne
  · exact absurd (hia.2.trans_le (hij.trans hja.1)) (lt_irrefl a)
  · exact absurd (hja.2.trans_le (hji.trans hia.1)) (lt_irrefl a)

/-! ### Maximal intervals -/

/-- The end of an interval of an apart list lies in none of its intervals. -/
theorem Apart.not_covered_hi {l : List ι} (h : e.Apart l) {i : ι} (hi : i ∈ l) :
    ¬ e.Covered l (e.hi i) := by
  rintro ⟨j, hj, hlo, hhi⟩
  obtain rfl | hne := eq_or_ne i j
  · exact lt_irrefl _ hhi
  · obtain hij | hji := rel_or_rel h.apart hi hj hne
    · exact absurd (hij.trans_le hlo) (lt_irrefl _)
    · exact absurd ((hhi.trans hji).trans (h.proper i hi)) (lt_irrefl _)

/-- **A stretch of covered points lies in one interval** of an apart list. -/
theorem Apart.exists_superset {l : List ι} (h : e.Apart l) {a b : α} (hab : a < b)
    (hall : ∀ x, a ≤ x → x < b → e.Covered l x) : ∃ i ∈ l, e.lo i ≤ a ∧ b ≤ e.hi i := by
  obtain ⟨i, hi, hlo, hhi⟩ := hall a le_rfl hab
  refine ⟨i, hi, hlo, ?_⟩
  -- otherwise the end of the interval is a covered point
  by_contra hb
  exact h.not_covered_hi hi (hall (e.hi i) hhi.le (not_le.mp hb))

/-! ### Replacing an interval -/

section Replace

variable {l r p : List ι} {i : ι}

/-- Putting pieces of an interval in its place. -/
theorem Tidy.replace (h : e.Tidy (l ++ i :: r)) (hp : e.Tidy p)
    (hin : ∀ j ∈ p, e.lo i ≤ e.lo j ∧ e.hi j ≤ e.hi i) : e.Tidy (l ++ (p ++ r)) := by
  obtain ⟨hl, hir, hli⟩ := tidy_append.mp h
  obtain ⟨-, hr, hafter⟩ := tidy_cons.mp hir
  refine tidy_append.mpr ⟨hl, tidy_append.mpr ⟨hp, hr, fun j hj k hk =>
    (hin j hj).2.trans (hafter k hk)⟩, fun j hj k hk => ?_⟩
  obtain hk | hk := List.mem_append.mp hk
  · exact (hli j hj i List.mem_cons_self).trans (hin k hk).1
  · exact hli j hj k (List.mem_cons_of_mem i hk)

/-- The same for a list that is kept apart. -/
theorem Apart.replace (h : e.Apart (l ++ i :: r)) (hp : e.Apart p)
    (hin : ∀ j ∈ p, e.lo i ≤ e.lo j ∧ e.hi j ≤ e.hi i) : e.Apart (l ++ (p ++ r)) := by
  obtain ⟨hl, hir, hli⟩ := apart_append.mp h
  obtain ⟨-, hr, hafter⟩ := apart_cons.mp hir
  refine apart_append.mpr ⟨hl, apart_append.mpr ⟨hp, hr, fun j hj k hk =>
    (hin j hj).2.trans_lt (hafter k hk)⟩, fun j hj k hk => ?_⟩
  obtain hk | hk := List.mem_append.mp hk
  · exact (hli j hj i List.mem_cons_self).trans_le (hin k hk).1
  · exact hli j hj k (List.mem_cons_of_mem i hk)

/-- Outside of the interval nothing changes, inside the pieces decide. -/
theorem Tidy.covered_replace (h : e.Tidy (l ++ i :: r))
    (hin : ∀ j ∈ p, e.lo i ≤ e.lo j ∧ e.hi j ≤ e.hi i) (a : α) :
    e.Covered (l ++ (p ++ r)) a ↔
      e.Covered p a ∨ e.Covered (l ++ i :: r) a ∧ ¬ e.Covers i a := by
  obtain ⟨-, hir, hli⟩ := tidy_append.mp h
  obtain ⟨-, -, hafter⟩ := tidy_cons.mp hir
  simp only [covered_append, covered_cons]
  constructor
  · rintro (⟨j, hj, hja⟩ | hp | ⟨j, hj, hja⟩)
    · exact Or.inr ⟨Or.inl ⟨j, hj, hja⟩, fun hia => absurd
        (hja.2.trans_le ((hli j hj i List.mem_cons_self).trans hia.1)) (lt_irrefl a)⟩
    · exact Or.inl hp
    · exact Or.inr ⟨Or.inr (Or.inr ⟨j, hj, hja⟩), fun hia => absurd
        (hia.2.trans_le ((hafter j hj).trans hja.1)) (lt_irrefl a)⟩
  · rintro (hp | ⟨hl | hia | hr, hnot⟩)
    · exact Or.inr (Or.inl hp)
    · exact Or.inl hl
    · exact absurd hia hnot
    · exact Or.inr (Or.inr hr)

end Replace

/-! ### The function a list stands for -/

variable {β κ : Type*} (e)

/-- What the record that contains `a` says about `a`. -/
def lookup (v : ι → α → β) (l : List ι) (a : α) : Option β :=
  (l.find? fun i => decide (e.Covers i a)).map fun i => v i a

variable {e} {v : ι → α → β}

@[simp] theorem lookup_nil (a : α) : e.lookup v [] a = none := rfl

theorem lookup_cons_pos {i : ι} {l : List ι} {a : α} (h : e.Covers i a) :
    e.lookup v (i :: l) a = some (v i a) := by
  rw [lookup, List.find?_cons_of_pos (by simpa using h), Option.map_some]

theorem lookup_cons_neg {i : ι} {l : List ι} {a : α} (h : ¬ e.Covers i a) :
    e.lookup v (i :: l) a = e.lookup v l a := by
  rw [lookup, List.find?_cons_of_neg (by simpa using h), lookup]

theorem lookup_append (l r : List ι) (a : α) :
    e.lookup v (l ++ r) a = (e.lookup v l a).or (e.lookup v r a) := by
  simp only [lookup, List.find?_append]
  cases l.find? fun i => decide (e.Covers i a) <;> rfl

theorem lookup_eq_none {l : List ι} {a : α} : e.lookup v l a = none ↔ ¬ e.Covered l a := by
  rw [lookup, Option.map_eq_none_iff, List.find?_eq_none]
  exact ⟨fun h ⟨i, hi, ha⟩ => h i hi (by simpa using ha),
    fun h i hi => by simpa using fun ha => h ⟨i, hi, ha⟩⟩

/-- In a tidy list the record that contains a point is the one that is found. -/
theorem Tidy.lookup_eq {l : List ι} (h : e.Tidy l) {i : ι} (hi : i ∈ l) {a : α}
    (ha : e.Covers i a) : e.lookup v l a = some (v i a) := by
  cases hfind : l.find? fun i => decide (e.Covers i a) with
  | none => exact absurd ha (by simpa using List.find?_eq_none.mp hfind i hi)
  | some j =>
    have hj := List.find?_some hfind
    rw [decide_eq_true_eq] at hj
    rw [lookup, hfind, Option.map_some, h.eq_of_covers hi (List.mem_of_find?_eq_some hfind) ha hj]

theorem Tidy.lookup_eq_some {l : List ι} (h : e.Tidy l) {a : α} {b : β} :
    e.lookup v l a = some b ↔ ∃ i ∈ l, e.Covers i a ∧ v i a = b := by
  constructor
  · intro hl
    obtain ⟨i, hfind, hv⟩ := Option.map_eq_some_iff.mp hl
    exact ⟨i, List.mem_of_find?_eq_some hfind, by simpa using List.find?_some hfind, hv⟩
  · rintro ⟨i, hi, ha, rfl⟩
    exact h.lookup_eq hi ha

/-- Leaving one record out of a tidy list forgets its points. -/
theorem Tidy.lookup_without {l r : List ι} {i : ι} (h : e.Tidy (l ++ i :: r)) (a : α) :
    e.lookup v (l ++ r) a = if e.Covers i a then none else e.lookup v (l ++ i :: r) a := by
  split
  · rename_i ha
    rw [lookup_eq_none]
    rintro ⟨j, hj, hja⟩
    obtain ⟨-, hir, hli⟩ := tidy_append.mp h
    obtain ⟨-, -, hr⟩ := tidy_cons.mp hir
    obtain hj | hj := List.mem_append.mp hj
    · exact absurd (hja.2.trans_le ((hli j hj i List.mem_cons_self).trans ha.1)) (lt_irrefl a)
    · exact absurd (ha.2.trans_le ((hr j hj).trans hja.1)) (lt_irrefl a)
  · rename_i ha
    rw [lookup_append, lookup_append, lookup_cons_neg ha]

/-- One record of a tidy list says everything about its points, and nothing
about the others. -/
theorem Tidy.lookup_insert {l r : List ι} {i : ι} (h : e.Tidy (l ++ i :: r)) (a : α) :
    e.lookup v (l ++ i :: r) a = if e.Covers i a then some (v i a) else e.lookup v (l ++ r) a := by
  split
  · rename_i ha
    exact h.lookup_eq (List.mem_append_right l List.mem_cons_self) ha
  · rename_i ha
    rw [lookup_append, lookup_append, lookup_cons_neg ha]

/-! ### Cutting intervals into pieces -/

/-- The intervals of `l` lie inside the one of `k`. -/
def Within (e' : Extent κ α) (k : κ) (l : List ι) : Prop :=
  ∀ i ∈ l, e'.lo k ≤ e.lo i ∧ e.hi i ≤ e'.hi k

variable {e' : Extent κ α} {f : κ → List ι}

theorem Within.covers {k : κ} {l : List ι} (h : Within (e := e) e' k l) {a : α}
    (ha : e.Covered l a) : e'.Covers k a := by
  obtain ⟨i, hi, hlo, hhi⟩ := ha
  exact ⟨(h i hi).1.trans hlo, hhi.trans_le (h i hi).2⟩

/-- Cutting the intervals of a tidy list into tidy pieces. -/
theorem Tidy.flatMap : ∀ {l : List κ}, e'.Tidy l → (∀ k ∈ l, e.Tidy (f k)) →
    (∀ k ∈ l, Within (e := e) e' k (f k)) → e.Tidy (l.flatMap f)
  | [], _, _, _ => Tidy.nil
  | k :: l, h, htidy, hin => by
    obtain ⟨-, hl, hafter⟩ := tidy_cons.mp h
    rw [List.flatMap_cons, tidy_append]
    refine ⟨htidy k List.mem_cons_self,
      Tidy.flatMap hl (fun j hj => htidy j (List.mem_cons_of_mem k hj))
        fun j hj => hin j (List.mem_cons_of_mem k hj), fun i hi j hj => ?_⟩
    obtain ⟨k', hk', hj⟩ := List.mem_flatMap.mp hj
    calc e.hi i ≤ e'.hi k := (hin k List.mem_cons_self i hi).2
      _ ≤ e'.lo k' := hafter k' hk'
      _ ≤ e.lo j := (hin k' (List.mem_cons_of_mem k hk') j hj).1

/-- Cutting the intervals of a tidy list cuts what the list says. -/
theorem Tidy.lookup_flatMap {l : List κ} (h : e'.Tidy l)
    (hin : ∀ k ∈ l, Within (e := e) e' k (f k)) (a : α) :
    e.lookup v (l.flatMap f) a
      = (l.find? fun k => decide (e'.Covers k a)).bind fun k => e.lookup v (f k) a := by
  induction l with
  | nil => rfl
  | cons k l ih =>
    obtain ⟨-, hl, hafter⟩ := tidy_cons.mp h
    have hin' : ∀ j ∈ l, Within (e := e) e' j (f j) := fun j hj =>
      hin j (List.mem_cons_of_mem k hj)
    rw [List.flatMap_cons, lookup_append]
    by_cases ha : e'.Covers k a
    · -- the later intervals, and so their pieces, start after the point
      have hnone : e.lookup v (l.flatMap f) a = none := by
        rw [lookup_eq_none, covered_flatMap]
        rintro ⟨j, hj, hcovered⟩
        exact absurd (ha.2.trans_le ((hafter j hj).trans ((hin' j hj).covers hcovered).1))
          (lt_irrefl a)
      rw [hnone, Option.or_none, List.find?_cons_of_pos (by simpa using ha), Option.bind_some]
    · have hnone : e.lookup v (f k) a = none :=
        lookup_eq_none.mpr fun hcovered => ha ((hin k List.mem_cons_self).covers hcovered)
      rw [hnone, Option.none_or, ih hl hin', List.find?_cons_of_neg (by simpa using ha)]

end Extent

end Prosperismo
