import Mathlib.Data.List.Nodup
import Mathlib.Algebra.Order.Group.Nat

/-!
# Tables with one entry for each key

A table is a list of entries that is only added to: an entry with the key is merged with
what is added, and otherwise a fresh entry is appended (`KeyedTable.add`). The index of the
entry is handed out, and stays valid.

`Tracks` ties the table to the log of what has been added at which index: the keys are
distinct, and an entry and the additions to it satisfy `P`. It is kept by an addition
when `P` is (`Tracks.add`), so a property of the merged entry is proved one addition at a
time.
-/

namespace Prosperismo.KeyedTable

variable {E K I : Type*}

/-- The table after an addition with the key, and the index of the entry; `none` when the table is
full. -/
def add [DecidableEq K] (key : E → K) (limit : ℕ) (k : K) (merge : E → E) (fresh : E)
    (table : List E) : Option (List E × ℕ) :=
  match table.findIdx? fun e => decide (key e = k) with
  | some i => some (table.modify i merge, i)
  | none => if limit ≤ table.length then none else some (table ++ [fresh], table.length)

/-- What has been added at the index. -/
def usesOf (uses : List (ℕ × I)) (i : ℕ) : List I := (uses.filter (·.1 = i)).map (·.2)

variable {key : E → K} {limit : ℕ} {k : K} {merge : E → E} {fresh : E} {table table' : List E}
  {i : ℕ} {uses : List (ℕ × I)} {x : I}

theorem usesOf_append_self : usesOf (uses ++ [(i, x)]) i = usesOf uses i ++ [x] := by
  unfold usesOf
  rw [List.filter_append, List.map_append]
  simp

theorem usesOf_append_of_ne {j : ℕ} (h : i ≠ j) : usesOf (uses ++ [(i, x)]) j = usesOf uses j := by
  unfold usesOf
  rw [List.filter_append, List.map_append]
  simp [h]

theorem mem_usesOf : x ∈ usesOf uses i ↔ (i, x) ∈ uses := by
  unfold usesOf
  simp only [List.mem_map, List.mem_filter, decide_eq_true_eq]
  constructor
  · rintro ⟨⟨j, y⟩, ⟨hmem, rfl⟩, rfl⟩
    exact hmem
  · exact fun hmem => ⟨(i, x), ⟨hmem, rfl⟩, rfl⟩

/-- **An addition** merges the entry with the key, or appends an entry for a new key. -/
theorem add_cases [DecidableEq K] (h : add key limit k merge fresh table = some (table', i)) :
    (∃ e, table[i]? = some e ∧ key e = k ∧ table' = table.set i (merge e)) ∨
      (k ∉ table.map key ∧ i = table.length ∧ table' = table ++ [fresh]) := by
  unfold add at h
  split at h
  · rename_i hfound
    cases h
    obtain ⟨hlt, hkey, -⟩ := List.findIdx?_eq_some_iff_getElem.1 hfound
    refine .inl ⟨table[i], List.getElem?_eq_getElem hlt, of_decide_eq_true hkey, ?_⟩
    refine List.ext_getElem? fun j => ?_
    rw [List.getElem?_modify]
    obtain rfl | hne := eq_or_ne i j
    · rw [List.getElem?_set_self hlt, List.getElem?_eq_getElem hlt]
      simp
    · rw [List.getElem?_set_ne hne]
      simp [hne]
  · rename_i hnone
    split_ifs at h
    cases h
    refine .inr ⟨fun hmem => ?_, rfl, rfl⟩
    obtain ⟨e, he, heq⟩ := List.mem_map.1 hmem
    exact absurd (List.findIdx?_eq_none_iff.1 hnone e he) (by simpa using heq)

/-- The table and the log of additions belong together. -/
structure Tracks (key : E → K) (P : E → List I → Prop) (table : List E) (uses : List (ℕ × I)) :
    Prop where
  distinct : (table.map key).Nodup
  bounded : ∀ u ∈ uses, u.1 < table.length
  entry : ∀ j e, table[j]? = some e → P e (usesOf uses j)

variable {P : E → List I → Prop}

theorem Tracks.nil (key : E → K) (P : E → List I → Prop) : Tracks key P [] [] where
  distinct := List.nodup_nil
  bounded := fun _ hu => absurd hu List.not_mem_nil
  entry := fun _ _ he => by cases he

namespace Tracks

variable (ht : Tracks key P table uses)
include ht

/-- The index of an addition has an entry, which satisfies `P`. -/
theorem exists_entry {u : ℕ × I} (hu : u ∈ uses) :
    ∃ e, table[u.1]? = some e ∧ P e (usesOf uses u.1) ∧ u.2 ∈ usesOf uses u.1 := by
  have hget := List.getElem?_eq_getElem (ht.bounded u hu)
  exact ⟨_, hget, ht.entry _ _ hget, mem_usesOf.2 hu⟩

/-- **Step.** An addition keeps the table and its log together. -/
theorem add [DecidableEq K] (h : KeyedTable.add key limit k merge fresh table = some (table', i))
    (hmerge : ∀ e us, key e = k → P e us → P (merge e) (us ++ [x]))
    (hkey : ∀ e, key e = k → key (merge e) = k) (hfresh : P fresh [x]) (hfreshKey : key fresh = k) :
    Tracks key P table' (uses ++ [(i, x)]) ∧ table.map key <+: table'.map key := by
  obtain ⟨e, hi, he, rfl⟩ | ⟨hnew, rfl, rfl⟩ := add_cases h
  · have hlt := (List.getElem?_eq_some_iff.1 hi).1
    have hmap : (table.set i (merge e)).map key = table.map key := by
      rw [List.map_set, hkey e he]
      refine List.ext_getElem? fun j => ?_
      obtain rfl | hne := eq_or_ne i j
      · rw [List.getElem?_set_self (by simpa), List.getElem?_map, hi, Option.map_some, he]
      · rw [List.getElem?_set_ne hne]
    refine ⟨⟨hmap ▸ ht.distinct, fun u hu => ?_, fun j e' hj => ?_⟩, hmap ▸ List.prefix_refl _⟩
    · rw [List.length_set]
      rcases List.mem_append.1 hu with hu | hu
      · exact ht.bounded u hu
      · rw [List.mem_singleton.1 hu]
        exact hlt
    · obtain rfl | hne := eq_or_ne i j
      · rw [List.getElem?_set_self hlt, Option.some_inj] at hj
        subst hj
        rw [usesOf_append_self]
        exact hmerge e _ he (ht.entry i e hi)
      · rw [List.getElem?_set_ne hne] at hj
        rw [usesOf_append_of_ne hne]
        exact ht.entry j e' hj
  · -- nothing has been added at the index of the fresh entry
    have hnone : usesOf uses table.length = [] := by
      refine List.eq_nil_iff_forall_not_mem.2 fun y hy => ?_
      exact absurd (ht.bounded _ (mem_usesOf.1 hy)) (lt_irrefl _)
    refine ⟨⟨?_, fun u hu => ?_, fun j e' hj => ?_⟩, ?_⟩
    · rw [List.map_append, List.map_singleton, hfreshKey, List.nodup_append]
      refine ⟨ht.distinct, List.nodup_singleton k, fun a ha b hb heq => ?_⟩
      rw [List.mem_singleton.1 hb] at heq
      exact hnew (heq ▸ ha)
    · rw [List.length_append, List.length_singleton]
      rcases List.mem_append.1 hu with hu | hu
      · exact (ht.bounded u hu).trans (Nat.lt_succ_self _)
      · rw [List.mem_singleton.1 hu]
        exact Nat.lt_succ_self _
    · obtain hlt | rfl | hgt := Nat.lt_trichotomy j table.length
      · rw [List.getElem?_append_left hlt] at hj
        rw [usesOf_append_of_ne hlt.ne']
        exact ht.entry j e' hj
      · rw [List.getElem?_concat_length, Option.some_inj] at hj
        rw [← hj, usesOf_append_self, hnone, List.nil_append]
        exact hfresh
      · have hle := (List.getElem?_eq_some_iff.1 hj).1
        rw [List.length_append, List.length_singleton] at hle
        omega
    · rw [List.map_append]
      exact List.prefix_append _ _

omit ht in
/-- An addition keeps the keys distinct, and the key is in the table behind it. -/
theorem add_distinct [DecidableEq K] (hdistinct : (table.map key).Nodup)
    (h : KeyedTable.add key limit k merge fresh table = some (table', i))
    (hkey : ∀ e, key e = k → key (merge e) = k) (hfreshKey : key fresh = k) :
    (table'.map key).Nodup ∧ table.map key <+: table'.map key ∧ k ∈ table'.map key := by
  -- the log of this addition alone, with its key
  have hnil : Tracks key (fun e keys => ∀ k' ∈ keys, k' = key e) table [] :=
    ⟨hdistinct, fun _ hu => absurd hu List.not_mem_nil,
      fun _ _ _ _ hk => absurd hk List.not_mem_nil⟩
  obtain ⟨hadd, hprefix⟩ := @Tracks.add _ _ _ _ _ _ _ _ _ _ _ _ k _ hnil _ h
    (fun e us he hus k' hk' => by
      rw [hkey e he]
      rcases List.mem_append.1 hk' with hk' | hk'
      · rw [hus k' hk', he]
      · exact List.mem_singleton.1 hk')
    hkey (fun k' hk' => by rw [List.mem_singleton.1 hk', hfreshKey]) hfreshKey
  obtain ⟨e, he, hall, hmem⟩ := hadd.exists_entry (u := (i, k)) (by simp)
  refine ⟨hadd.distinct, hprefix, ?_⟩
  rw [hall k hmem]
  exact List.mem_map_of_mem (List.mem_of_getElem? he)

/-- A use that changes no entry. -/
theorem note {e : E} (hi : table[i]? = some e)
    (hP : ∀ us, P e us → P e (us ++ [x])) : Tracks key P table (uses ++ [(i, x)]) := by
  refine ⟨ht.distinct, fun u hu => ?_, fun j e' hj => ?_⟩
  · rcases List.mem_append.1 hu with hu | hu
    · exact ht.bounded u hu
    · rw [List.mem_singleton.1 hu]
      exact (List.getElem?_eq_some_iff.1 hi).1
  · obtain rfl | hne := eq_or_ne i j
    · obtain rfl := Option.some_inj.1 (hi.symm.trans hj)
      rw [usesOf_append_self]
      exact hP _ (ht.entry i e hi)
    · rw [usesOf_append_of_ne hne]
      exact ht.entry j e' hj

end Tracks

end Prosperismo.KeyedTable
