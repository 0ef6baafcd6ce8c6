import Prosperismo.Base.Intervals
import Prosperismo.Base.OrderedMap

/-!
# Ordered maps of intervals

An address space or an allocator keeps its records in a map ordered by the
address at which each starts; the value says how far it reaches. `extent size`
reads such an entry as an interval, so that what `Base.Intervals` says about tidy
lists applies to the entries.

* `upTo_getLast_iff`: stepping back once from the first key above a point finds
  the entry that contains the point, if there is one.
* `tidy_emplace`: an entry may be inserted where nothing is covered.
* `Recorded`: a map whose values also store where they start. `entryAt` is the
  function from the points to the entries; erasing an entry and inserting one
  each `fill` that function on an interval.
-/

namespace Prosperismo

/-- A function is given new values on an interval. -/
def fill {β : Type*} (f : ℕ → β) (first last : ℕ) (g : ℕ → β → β) (a : ℕ) : β :=
  if first ≤ a ∧ a < last then g a (f a) else f a

section Fill

variable {β : Type*} {f : ℕ → β} {first last a : ℕ} {g : ℕ → β → β}

theorem fill_of_mem (h : first ≤ a ∧ a < last) : fill f first last g a = g a (f a) := if_pos h

theorem fill_of_not_mem (h : ¬ (first ≤ a ∧ a < last)) : fill f first last g a = f a := if_neg h

/-- Nothing changes if the new values are the old ones. -/
theorem fill_eq (hg : ∀ a, first ≤ a → a < last → g a (f a) = f a) : fill f first last g = f := by
  funext a
  by_cases h : first ≤ a ∧ a < last
  · rw [fill_of_mem h, hg a h.1 h.2]
  · exact fill_of_not_mem h

end Fill

namespace OrderedMap

open Extent

/-! ### Splits at a key -/

section Split

variable {κ ν : Type*} [LinearOrder κ] {m : OrderedMap κ ν} {k : κ}

/-- The entries up to a key and those above it, read off a split. -/
theorem upTo_of_split {l r : List (κ × ν)} (h : m.entries = l ++ r) (hl : ∀ x ∈ l, x.1 ≤ k)
    (hr : ∀ x ∈ r, k < x.1) : m.upTo k = l ∧ m.upperBound k = r := by
  have hlast : r.takeWhile (fun x => decide (x.1 ≤ k)) = [] ∧
      r.dropWhile (fun x => decide (x.1 ≤ k)) = r := by
    cases r with
    | nil => exact ⟨rfl, rfl⟩
    | cons x r =>
      have hx : decide (x.1 ≤ k) = false := by
        rw [decide_eq_false_iff_not, not_le]
        exact hr x List.mem_cons_self
      rw [List.takeWhile_cons, List.dropWhile_cons, hx]
      exact ⟨rfl, rfl⟩
  have hall : ∀ x ∈ l, decide (x.1 ≤ k) = true := fun x hx => decide_eq_true (hl x hx)
  constructor
  · rw [upTo, h, List.takeWhile_append_of_pos hall, hlast.1, List.append_nil]
  · rw [upperBound, h, List.dropWhile_append_of_pos hall, hlast.2]

/-- The entries below a key, read off a split. -/
theorem below_of_split {l r : List (κ × ν)} (h : m.entries = l ++ r) (hl : ∀ x ∈ l, x.1 < k)
    (hr : ∀ x ∈ r, k ≤ x.1) : m.below k = l := by
  have hlast : r.takeWhile (fun x => decide (x.1 < k)) = [] := by
    cases r with
    | nil => rfl
    | cons x r =>
      have hx : decide (x.1 < k) = false := by
        rw [decide_eq_false_iff_not, not_lt]
        exact hr x List.mem_cons_self
      rw [List.takeWhile_cons, hx]
      rfl
  rw [below, h, List.takeWhile_append_of_pos fun x hx => decide_eq_true (hl x hx), hlast,
    List.append_nil]

/-- The last entry up to a key splits the entries. -/
theorem split_of_getLast {it : κ × ν} (h : (m.upTo k).getLast? = some it) :
    ∃ front, m.upTo k = front ++ [it] ∧ m.entries = front ++ it :: m.upperBound k ∧ it.1 ≤ k := by
  obtain ⟨front, hfront⟩ := List.getLast?_eq_some_iff.mp h
  refine ⟨front, hfront, ?_, ?_⟩
  · rw [← m.upTo_append_upperBound k, hfront, List.append_assoc, List.singleton_append]
  · exact le_of_mem_upTo (hfront ▸ List.mem_append_right front List.mem_cons_self)

theorem not_contains_iff : m.contains k = false ↔ ∀ x ∈ m.entries, x.1 ≠ k := by
  rw [contains, List.any_eq_false]
  exact forall₂_congr fun x _ => by rw [decide_eq_true_eq]

end Split

/-! ### Intervals -/

variable {ν : Type*} {size : ν → ℕ} {m : OrderedMap ℕ ν}

/-- An entry is the interval from its key, as long as its value says. -/
def extent (size : ν → ℕ) : Extent (ℕ × ν) ℕ := ⟨Prod.fst, fun it => it.1 + size it.2⟩

theorem extent_covers {it : ℕ × ν} {a : ℕ} :
    (extent size).Covers it a ↔ it.1 ≤ a ∧ a < it.1 + size it.2 := Iff.rfl

/-- **Stepping back once** from the first key above a point gives the entry that
contains the point, if one does. -/
theorem upTo_getLast_iff (h : (extent size).Tidy m.entries) {a : ℕ} {it : ℕ × ν} :
    (m.upTo a).getLast? = some it ∧ a < it.1 + size it.2 ↔
      it ∈ m.entries ∧ (extent size).Covers it a := by
  constructor
  · rintro ⟨hlast, hlt⟩
    obtain ⟨front, -, hsplit, hle⟩ := split_of_getLast hlast
    exact ⟨hsplit ▸ List.mem_append_right front List.mem_cons_self, hle, hlt⟩
  · rintro ⟨hit, hle, hlt⟩
    obtain ⟨l, r, hsplit⟩ := List.append_of_mem hit
    rw [hsplit] at h
    obtain ⟨-, hir, -⟩ := tidy_append.mp h
    obtain ⟨-, -, hafter⟩ := tidy_cons.mp hir
    have hsorted := m.sorted
    rw [hsplit, List.pairwise_append] at hsorted
    rw [List.append_cons] at hsplit
    refine ⟨?_, hlt⟩
    rw [(upTo_of_split hsplit (fun x hx => ?_) fun x hx => ?_).1, List.getLast?_concat]
    · obtain hx | hx := List.mem_append.mp hx
      · exact (hsorted.2.2 x hx it List.mem_cons_self).le.trans hle
      · rw [List.mem_singleton.mp hx]
        exact hle
    · exact hlt.trans_le (hafter x hx)

/-- What lies between the entry in front of a point and the one behind it is not
covered. -/
theorem not_covered_between (h : (extent size).Tidy m.entries) {first last : ℕ}
    (hprevious : ∀ x, (m.below first).getLast? = some x → x.1 + size x.2 ≤ first)
    (hnext : ∀ x, (m.lowerBound first).head? = some x → last ≤ x.1) {a : ℕ} (hle : first ≤ a)
    (hlt : a < last) : ¬ (extent size).Covered m.entries a := by
  have hsplit := m.below_append_lowerBound first
  rw [← hsplit] at h ⊢
  obtain ⟨hl, hr, -⟩ := tidy_append.mp h
  rw [covered_append]
  rintro (⟨x, hx, hxa⟩ | ⟨x, hx, hxa⟩)
  · -- the entries in front end before the last of them does
    rw [extent_covers] at hxa
    obtain hnil | ⟨front, previous, hfront⟩ := (m.below first).eq_nil_or_concat'
    · rw [hnil] at hx
      exact absurd hx List.not_mem_nil
    · have hend := hprevious previous (by rw [hfront, List.getLast?_concat])
      rw [hfront] at hx hl
      obtain hx | hx := List.mem_append.mp hx
      · have hord : x.1 + size x.2 ≤ previous.1 :=
          (tidy_append.mp hl).2.2 x hx previous List.mem_cons_self
        omega
      · rw [List.mem_singleton.mp hx] at hxa
        omega
  · -- the entries behind start after the first of them does
    rw [extent_covers] at hxa
    cases hlist : m.lowerBound first with
    | nil =>
      rw [hlist] at hx
      exact absurd hx List.not_mem_nil
    | cons next rest =>
      have hstart := hnext next (by rw [hlist]; rfl)
      rw [hlist] at hx hr
      obtain rfl | hx := List.mem_cons.mp hx
      · omega
      · have hord : next.1 + size next.2 ≤ x.1 := (tidy_cons.mp hr).2.2 x hx
        omega

/-- **Inserting** an entry where nothing is covered. -/
theorem tidy_emplace (h : (extent size).Tidy m.entries) {first : ℕ} (x : ν) (hsize : 0 < size x)
    (hfree : ∀ a, first ≤ a → a < first + size x → ¬ (extent size).Covered m.entries a) :
    ∃ l r, m.entries = l ++ r ∧ (m.emplace first x).entries = l ++ (first, x) :: r ∧
      (extent size).Tidy (l ++ (first, x) :: r) := by
  have hsplit := m.upTo_append_upperBound first
  have hall := h
  rw [← hsplit] at hall
  obtain ⟨hl, hr, hlr⟩ := tidy_append.mp hall
  -- what starts up to `first` ends up to it, and what starts later starts after the new entry
  have hbefore : ∀ i ∈ m.upTo first, i.1 + size i.2 ≤ first := by
    intro i hi
    by_contra hlt
    have hle : i.1 ≤ first := le_of_mem_upTo hi
    exact hfree first le_rfl (Nat.lt_add_of_pos_right hsize)
      ⟨i, hsplit ▸ List.mem_append_left _ hi, hle, not_le.mp hlt⟩
  have hafter : ∀ i ∈ m.upperBound first, first + size x ≤ i.1 := by
    intro i hi
    by_contra hlt
    have hpos : i.1 < i.1 + size i.2 := hr.proper i hi
    exact hfree i.1 (lt_of_mem_upperBound hi).le (not_le.mp hlt)
      ⟨i, hsplit ▸ List.mem_append_right _ hi, le_rfl, hpos⟩
  refine ⟨_, _, hsplit.symm, ?_, tidy_append.mpr ⟨hl, tidy_cons.mpr
    ⟨Nat.lt_add_of_pos_right hsize, hr, hafter⟩, fun i hi j hj => ?_⟩⟩
  · refine emplace_of_split _ hsplit.symm (fun i hi => ?_) fun i hi => lt_of_mem_upperBound hi
    have hpos : i.1 < i.1 + size i.2 := hl.proper i hi
    exact hpos.trans_le (hbefore i hi)
  · obtain rfl | hj := List.mem_cons.mp hj
    · exact hbefore i hi
    · exact hlr i hi j hj

/-! ### Records -/

/-- The entry that contains a point. -/
def entryAt (size : ν → ℕ) (m : OrderedMap ℕ ν) : ℕ → Option (ℕ × ν) :=
  (extent size).lookup (fun it _ => it) m.entries

theorem entryAt_eq_none {a : ℕ} :
    entryAt size m a = none ↔ ¬ (extent size).Covered m.entries a := lookup_eq_none

/-- The entries are disjoint intervals below a limit, each from the address its
value stores. -/
structure Recorded (vaddr size : ν → ℕ) (limit : ℕ) (m : OrderedMap ℕ ν) : Prop where
  tidy : (extent size).Tidy m.entries
  keys : ∀ it ∈ m.entries, vaddr it.2 = it.1
  bounded : ∀ it ∈ m.entries, it.1 + size it.2 ≤ limit

section Recorded

variable {vaddr : ν → ℕ} {limit : ℕ} (h : Recorded vaddr size limit m)
include h

theorem Recorded.entryAt_iff {a : ℕ} {it : ℕ × ν} :
    entryAt size m a = some it ↔ it ∈ m.entries ∧ (extent size).Covers it a := by
  rw [entryAt, h.tidy.lookup_eq_some]
  constructor
  · rintro ⟨i, hi, ha, rfl⟩
    exact ⟨hi, ha⟩
  · exact fun ⟨hit, ha⟩ => ⟨it, hit, ha, rfl⟩

/-- Stepping back once finds the value whose interval contains the point. -/
theorem Recorded.find_iff {a : ℕ} {v : ν} :
    ((m.upTo a).getLast?.map Prod.snd).filter (fun v => decide (a < vaddr v + size v)) = some v ↔
      entryAt size m a = some (vaddr v, v) := by
  rw [h.entryAt_iff, Option.filter_eq_some_iff, Option.map_eq_some_iff, decide_eq_true_eq]
  constructor
  · rintro ⟨⟨it, hlast, rfl⟩, hlt⟩
    obtain ⟨front, -, hsplit, -⟩ := split_of_getLast hlast
    have hit : it ∈ m.entries := hsplit ▸ List.mem_append_right front List.mem_cons_self
    rw [h.keys it hit] at hlt ⊢
    exact (upTo_getLast_iff h.tidy).mp ⟨hlast, hlt⟩
  · intro hit
    obtain ⟨hlast, hlt⟩ := (upTo_getLast_iff h.tidy).mpr hit
    exact ⟨⟨_, hlast, rfl⟩, hlt⟩

theorem Recorded.find_none {a : ℕ} (hfind : ((m.upTo a).getLast?.map Prod.snd).filter
    (fun v => decide (a < vaddr v + size v)) = none) : entryAt size m a = none := by
  cases hentry : entryAt size m a with
  | none => rfl
  | some it =>
    have hkey := h.keys it (h.entryAt_iff.mp hentry).1
    have hsome := (h.find_iff (v := it.2)).mpr (by rw [hkey]; exact hentry)
    rw [hfind] at hsome
    cases hsome

/-- Leaving an entry out. -/
theorem Recorded.erase {it : ℕ × ν} (hit : it ∈ m.entries) :
    Recorded vaddr size limit (m.erase it.1) ∧ entryAt size (m.erase it.1) =
      fill (entryAt size m) it.1 (it.1 + size it.2) fun _ _ => none := by
  obtain ⟨l, r, hsplit⟩ := List.append_of_mem hit
  have herase := erase_of_split hsplit
  have hsub : ∀ i ∈ (m.erase it.1).entries, i ∈ m.entries := fun i hi =>
    List.mem_of_mem_filter hi
  have htidy := h.tidy
  rw [hsplit] at htidy
  refine ⟨⟨?_, fun i hi => h.keys i (hsub i hi), fun i hi => h.bounded i (hsub i hi)⟩, ?_⟩
  · rw [herase]
    have := htidy.replace (p := []) Tidy.nil fun _ hj => absurd hj List.not_mem_nil
    rwa [List.nil_append] at this
  · funext a
    show (extent size).lookup _ (m.erase it.1).entries a = _
    rw [herase, htidy.lookup_without, ← hsplit]
    rfl

/-- A new entry where there is none. -/
theorem Recorded.emplace {v : ν} (hsize : 0 < size v) (hbound : vaddr v + size v ≤ limit)
    (hfree : ∀ a, vaddr v ≤ a → a < vaddr v + size v → entryAt size m a = none) :
    Recorded vaddr size limit (m.emplace (vaddr v) v) ∧ entryAt size (m.emplace (vaddr v) v) =
      fill (entryAt size m) (vaddr v) (vaddr v + size v) fun _ _ => some (vaddr v, v) := by
  obtain ⟨l, r, hsplit, hentries, htidy⟩ := tidy_emplace h.tidy v hsize
    fun a hle hlt => entryAt_eq_none.mp (hfree a hle hlt)
  have hmem : ∀ i ∈ (m.emplace (vaddr v) v).entries, i = (vaddr v, v) ∨ i ∈ m.entries :=
    fun i hi => mem_insertEntry hi
  refine ⟨⟨hentries ▸ htidy, fun i hi => ?_, fun i hi => ?_⟩, ?_⟩
  · obtain rfl | hi := hmem i hi
    · rfl
    · exact h.keys i hi
  · obtain rfl | hi := hmem i hi
    · exact hbound
    · exact h.bounded i hi
  · funext a
    show (extent size).lookup _ (m.emplace (vaddr v) v).entries a = _
    rw [hentries, htidy.lookup_insert, ← hsplit]
    rfl

end Recorded

end OrderedMap

end Prosperismo
