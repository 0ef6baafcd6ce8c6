import Mathlib.Data.List.TakeWhile
import Mathlib.Order.Lattice

/-!
# Ordered maps

A map that is walked in the order of its keys, with the searches and the
updates a sorted container offers. The entries are a list, strictly increasing
in the key, and the type carries that, so no operation asks for it.

* `lowerBound k` and `upperBound k` are what an iterator at the first key not
  below `k`, respectively above `k`, still has in front of it; `below k` and
  `upTo k` are what lies behind it, so that stepping back once is the last
  entry there.
* `emplace` inserts unless the key is there already, `erase` removes a key.

An algorithm that walks such a map keeps a split of the entries into those
behind its iterator and those in front of it. `emplace_of_split` and
`erase_of_split` say what the two updates do to the split.
-/

namespace Prosperismo

/-- A finite map as the list of its entries, in the strict order of the keys. -/
structure OrderedMap (κ ν : Type*) [LT κ] where
  /-- The entries, each a key and its value. -/
  entries : List (κ × ν)
  /-- The keys increase strictly. -/
  sorted : entries.Pairwise fun x y => x.1 < y.1

namespace OrderedMap

variable {κ ν : Type*} [LinearOrder κ]

@[ext] theorem ext_entries {m m' : OrderedMap κ ν} (h : m.entries = m'.entries) : m = m' := by
  cases m
  cases m'
  congr

instance [DecidableEq ν] : DecidableEq (OrderedMap κ ν) := fun m m' =>
  decidable_of_iff (m.entries = m'.entries) ⟨ext_entries, fun h => h ▸ rfl⟩

/-- The map without entries. -/
def empty : OrderedMap κ ν := ⟨[], List.Pairwise.nil⟩

@[simp] theorem entries_empty : (empty : OrderedMap κ ν).entries = [] := rfl

/-! ### Searching -/

/-- What an iterator at the first key not below `k` has in front of it. -/
def lowerBound (m : OrderedMap κ ν) (k : κ) : List (κ × ν) :=
  m.entries.dropWhile fun x => decide (x.1 < k)

/-- What an iterator at the first key not below `k` has behind it. -/
def below (m : OrderedMap κ ν) (k : κ) : List (κ × ν) :=
  m.entries.takeWhile fun x => decide (x.1 < k)

/-- What an iterator at the first key above `k` has in front of it. -/
def upperBound (m : OrderedMap κ ν) (k : κ) : List (κ × ν) :=
  m.entries.dropWhile fun x => decide (x.1 ≤ k)

/-- What an iterator at the first key above `k` has behind it. -/
def upTo (m : OrderedMap κ ν) (k : κ) : List (κ × ν) :=
  m.entries.takeWhile fun x => decide (x.1 ≤ k)

theorem below_append_lowerBound (m : OrderedMap κ ν) (k : κ) :
    m.below k ++ m.lowerBound k = m.entries :=
  List.takeWhile_append_dropWhile

theorem upTo_append_upperBound (m : OrderedMap κ ν) (k : κ) :
    m.upTo k ++ m.upperBound k = m.entries :=
  List.takeWhile_append_dropWhile

theorem lt_of_mem_below {m : OrderedMap κ ν} {k : κ} {x : κ × ν} (h : x ∈ m.below k) :
    x.1 < k := by
  simpa using List.mem_takeWhile_imp h

theorem le_of_mem_upTo {m : OrderedMap κ ν} {k : κ} {x : κ × ν} (h : x ∈ m.upTo k) :
    x.1 ≤ k := by
  simpa using List.mem_takeWhile_imp h

/-- In an ordered list, what a downward closed test leaves over fails the test
altogether. -/
theorem not_of_mem_dropWhile {ι : Type*} {R : ι → ι → Prop} {p : ι → Bool}
    (hp : ∀ x y, R x y → p y = true → p x = true) :
    ∀ {l : List ι}, l.Pairwise R → ∀ {x}, x ∈ l.dropWhile p → p x = false
  | [], _, _, hx => absurd hx List.not_mem_nil
  | y :: l, hl, x, hx => by
    obtain ⟨hy, hl⟩ := List.pairwise_cons.mp hl
    rw [List.dropWhile_cons] at hx
    split at hx
    · exact not_of_mem_dropWhile hp hl hx
    · rename_i hfail
      obtain rfl | hx := List.mem_cons.mp hx
      · simpa using hfail
      · -- were the test true of `x`, it would be true of the smaller `y`
        by_contra hpx
        exact hfail (hp y x (hy x hx) (by simpa using hpx))

theorem le_of_mem_lowerBound {m : OrderedMap κ ν} {k : κ} {x : κ × ν}
    (h : x ∈ m.lowerBound k) : k ≤ x.1 := by
  have := not_of_mem_dropWhile (p := fun x : κ × ν => decide (x.1 < k))
    (fun x y hxy hy => by simpa using hxy.trans (by simpa using hy)) m.sorted h
  simpa using this

theorem lt_of_mem_upperBound {m : OrderedMap κ ν} {k : κ} {x : κ × ν}
    (h : x ∈ m.upperBound k) : k < x.1 := by
  have := not_of_mem_dropWhile (p := fun x : κ × ν => decide (x.1 ≤ k))
    (fun x y hxy hy => by simpa using hxy.le.trans (by simpa using hy)) m.sorted h
  simpa using this

/-! ### Updating -/

/-- Insert into a list of entries unless the key is there. -/
def insertEntry (k : κ) (v : ν) : List (κ × ν) → List (κ × ν)
  | [] => [(k, v)]
  | x :: l =>
    if x.1 < k then x :: insertEntry k v l
    else if k < x.1 then (k, v) :: x :: l
    else x :: l

theorem mem_insertEntry {k : κ} {v : ν} {x : κ × ν} :
    ∀ {l : List (κ × ν)}, x ∈ insertEntry k v l → x = (k, v) ∨ x ∈ l
  | [], h => Or.inl (List.mem_singleton.mp h)
  | y :: l, h => by
    rw [insertEntry] at h
    split at h
    · obtain rfl | h := List.mem_cons.mp h
      · exact Or.inr List.mem_cons_self
      · exact (mem_insertEntry h).imp_right (List.mem_cons_of_mem y)
    · split at h
      · exact List.mem_cons.mp h
      · exact Or.inr h

theorem sorted_insertEntry (k : κ) (v : ν) :
    ∀ {l : List (κ × ν)}, l.Pairwise (fun x y => x.1 < y.1) →
      (insertEntry k v l).Pairwise fun x y => x.1 < y.1
  | [], _ => List.pairwise_singleton _ _
  | y :: l, hl => by
    obtain ⟨hy, htail⟩ := List.pairwise_cons.mp hl
    rw [insertEntry]
    split
    · rename_i hlt
      refine List.pairwise_cons.mpr ⟨fun x hx => ?_, sorted_insertEntry k v htail⟩
      obtain rfl | hx := mem_insertEntry hx
      · exact hlt
      · exact hy x hx
    · split
      · rename_i hlt
        refine List.pairwise_cons.mpr ⟨fun x hx => ?_, hl⟩
        obtain rfl | hx := List.mem_cons.mp hx
        · exact hlt
        · exact hlt.trans (hy x hx)
      · exact hl

/-- Inserting between smaller and larger keys. -/
theorem insertEntry_of_split {k : κ} {v : ν} {r : List (κ × ν)} (hr : ∀ x ∈ r, k < x.1) :
    ∀ {l : List (κ × ν)}, (∀ x ∈ l, x.1 < k) → insertEntry k v (l ++ r) = l ++ (k, v) :: r
  | [], _ => by
    cases r with
    | nil => rfl
    | cons y r =>
      have hy : k < y.1 := hr y List.mem_cons_self
      rw [List.nil_append, insertEntry, if_neg hy.le.not_gt, if_pos hy, List.nil_append]
  | y :: l, hl => by
    rw [List.cons_append, insertEntry, if_pos (hl y List.mem_cons_self),
      insertEntry_of_split hr fun x hx => hl x (List.mem_cons_of_mem y hx), List.cons_append]

/-- Insert, unless the key is there already. -/
def emplace (m : OrderedMap κ ν) (k : κ) (v : ν) : OrderedMap κ ν :=
  ⟨insertEntry k v m.entries, sorted_insertEntry k v m.sorted⟩

/-- Remove a key. -/
def erase (m : OrderedMap κ ν) (k : κ) : OrderedMap κ ν :=
  ⟨m.entries.filter fun x => decide (x.1 ≠ k), m.sorted.filter _⟩

theorem emplace_of_split {m : OrderedMap κ ν} {l r : List (κ × ν)} {k : κ} (v : ν)
    (h : m.entries = l ++ r) (hl : ∀ x ∈ l, x.1 < k) (hr : ∀ x ∈ r, k < x.1) :
    (m.emplace k v).entries = l ++ (k, v) :: r := by
  show insertEntry k v m.entries = _
  rw [h, insertEntry_of_split hr hl]

theorem erase_of_split {m : OrderedMap κ ν} {l r : List (κ × ν)} {x : κ × ν}
    (h : m.entries = l ++ x :: r) : (m.erase x.1).entries = l ++ r := by
  have hs := m.sorted
  rw [h, List.pairwise_append, List.pairwise_cons] at hs
  obtain ⟨-, ⟨hr, -⟩, hl⟩ := hs
  show m.entries.filter _ = _
  rw [h, List.filter_append, List.filter_cons_of_neg (by simp)]
  congr 1
  · exact List.filter_eq_self.mpr fun y hy => by
      simpa using (hl y hy x List.mem_cons_self).ne
  · exact List.filter_eq_self.mpr fun y hy => by simpa using (hr y hy).ne'

/-- Change the value of a key, through an iterator at it. -/
def update (m : OrderedMap κ ν) (k : κ) (f : ν → ν) : OrderedMap κ ν :=
  ⟨m.entries.map fun x => if x.1 = k then (x.1, f x.2) else x, by
    refine List.pairwise_map.mpr (m.sorted.imp fun {x y} hxy => ?_)
    split <;> split <;> exact hxy⟩

theorem update_of_split {m : OrderedMap κ ν} {l r : List (κ × ν)} {x : κ × ν} (f : ν → ν)
    (h : m.entries = l ++ x :: r) : (m.update x.1 f).entries = l ++ (x.1, f x.2) :: r := by
  have hs := m.sorted
  rw [h, List.pairwise_append, List.pairwise_cons] at hs
  obtain ⟨-, ⟨hr, -⟩, hl⟩ := hs
  have hkeep : ∀ l' : List (κ × ν), (∀ y ∈ l', y.1 ≠ x.1) →
      (l'.map fun y => if y.1 = x.1 then (y.1, f y.2) else y) = l' := fun l' hne =>
    (List.map_congr_left fun y hy => if_neg (hne y hy)).trans (List.map_id l')
  show m.entries.map _ = _
  rw [h, List.map_append, List.map_cons, if_pos rfl,
    hkeep l fun y hy => (hl y hy x List.mem_cons_self).ne, hkeep r fun y hy => (hr y hy).ne']

/-- What is erased may be inserted again. -/
theorem emplace_erase {m : OrderedMap κ ν} {x : κ × ν} (h : x ∈ m.entries) :
    (m.erase x.1).emplace x.1 x.2 = m := by
  obtain ⟨l, r, hsplit⟩ := List.append_of_mem h
  have hs := m.sorted
  rw [hsplit, List.pairwise_append, List.pairwise_cons] at hs
  obtain ⟨-, ⟨hr, -⟩, hl⟩ := hs
  refine ext_entries ?_
  rw [emplace_of_split x.2 (erase_of_split hsplit) (fun y hy => hl y hy x List.mem_cons_self) hr,
    hsplit]

/-- Whether a key is there. -/
def contains (m : OrderedMap κ ν) (k : κ) : Bool := m.entries.any fun x => decide (x.1 = k)

end OrderedMap

end Prosperismo
