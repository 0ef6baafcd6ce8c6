import Prosperismo.Cfg.Keeps
import Mathlib.Data.List.Nodup
import Mathlib.Algebra.BigOperators.Group.List.Basic

/-!
# Sweeping to the greatest solution

`ComputeDominators` and `ComputePostDominators` start from full sets and sweep over the
blocks until nothing changes. For a monotone `next` whose sets can only shrink
(`Descending`), every sweep that changes something removes an element, so the bound on
the sweeps is never reached: the result is a solution (`sweepUntilStable_stable`), and it
contains every family of sets that `next` keeps (`sweepUntilStable_contains`).
-/

namespace Prosperismo.Cfg

/-- Reading a list after a write. -/
theorem getD_getElem?_set {α : Type} {l : List α} {i : ℕ} (hi : i < l.length) (x d : α) (j : ℕ) :
    ((l.set i x)[j]?).getD d = if j = i then x else (l[j]?).getD d := by
  by_cases hji : j = i
  · rw [hji, List.getElem?_set_self hi, if_pos rfl, Option.getD_some]
  · rw [List.getElem?_set_ne (Ne.symm hji), if_neg hji]

/-! ### Sorted sets -/

/-- `SortUnique` leaves strictly increasing lists. -/
theorem sortUnique_pairwise (values : List ℕ) : (sortUnique values).Pairwise (· < ·) := by
  have hsorted : (sortUnique values).Pairwise (· ≤ ·) :=
    (List.pairwise_insertionSort (· ≤ ·) values).sublist (List.dedup_sublist _)
  have hnodup : (sortUnique values).Pairwise (· ≠ ·) := List.nodup_dedup _
  exact (hsorted.and hnodup).imp fun h => lt_of_le_of_ne h.1 h.2

/-- A sorted set inside another has no more elements, and fewer when it differs. -/
theorem length_lt_of_subset {a b : List ℕ} (ha : a.Pairwise (· < ·)) (hb : b.Pairwise (· < ·))
    (hsub : ∀ x ∈ a, x ∈ b) (hne : a ≠ b) : a.length < b.length := by
  have hsubperm := List.subperm_of_subset (ha.imp fun h => h.ne : a.Nodup) hsub
  refine lt_of_le_of_ne hsubperm.length_le fun hlen => hne ?_
  exact (hsubperm.perm_of_length_le hlen.ge).eq_of_pairwise
    (fun x y _ _ hxy hyx => absurd hxy (Nat.lt_asymm hyx)) ha hb

/-! ### Sweeps -/

/-- The set at a position. -/
def setAt (sets : BlockSets) (i : ℕ) : List ℕ := (sets[i]?).getD []

/-- `next` computes sorted sets, larger ones from larger ones. -/
structure Monotonic (next : BlockSets → ℕ → List ℕ) : Prop where
  sorted : ∀ {sets}, (∀ i, (setAt sets i).Pairwise (· < ·)) → ∀ i,
    (next sets i).Pairwise (· < ·)
  mono : ∀ {sets sets' : BlockSets}, (∀ i, ∀ x ∈ setAt sets i, x ∈ setAt sets' i) →
    ∀ i, ∀ x ∈ next sets i, x ∈ next sets' i

/-- Sorted sets that `next` can only make smaller. -/
structure Descending (next : BlockSets → ℕ → List ℕ) (sets : BlockSets) : Prop where
  sorted : ∀ i, (setAt sets i).Pairwise (· < ·)
  below : ∀ i < sets.length, ∀ x ∈ next sets i, x ∈ setAt sets i

/-- The number of elements of all sets. -/
def totalSize (sets : BlockSets) : ℕ := (sets.map List.length).sum

theorem setAt_set {sets : BlockSets} {i : ℕ} {value : List ℕ} (hi : i < sets.length) (j : ℕ) :
    setAt (sets.set i value) j = if j = i then value else setAt sets j :=
  getD_getElem?_set hi value [] j

/-- Replacing a set by a smaller one makes the total smaller. -/
theorem totalSize_set_lt {sets : BlockSets} {i : ℕ} {value : List ℕ} (hi : i < sets.length)
    (hlt : value.length < (setAt sets i).length) : totalSize (sets.set i value) < totalSize sets := by
  induction sets generalizing i with
  | nil => exact absurd hi (by simp)
  | cons set sets ih =>
    cases i with
    | zero =>
      rw [List.set_cons_zero]
      simp only [setAt, List.getElem?_cons_zero, Option.getD_some] at hlt
      simp only [totalSize, List.map_cons, List.sum_cons]
      omega
    | succ i =>
      rw [List.set_cons_succ]
      have hlt' := ih (i := i) (by simpa using hi) (by simpa [setAt] using hlt)
      simp only [totalSize, List.map_cons, List.sum_cons] at hlt' ⊢
      omega

/-- Sets of at most `count` elements. -/
theorem totalSize_le {sets : BlockSets} {count : ℕ} (h : ∀ set ∈ sets, set.length ≤ count) :
    totalSize sets ≤ sets.length * count := by
  induction sets with
  | nil => exact Nat.zero_le _
  | cons set sets ih =>
    have hset := h set List.mem_cons_self
    have hsets := ih fun s hs => h s (List.mem_cons_of_mem _ hs)
    simp only [totalSize, List.map_cons, List.sum_cons, List.length_cons, Nat.succ_mul] at hsets ⊢
    omega

section Sweep

variable {next : BlockSets → ℕ → List ℕ} {sets : BlockSets}

/-- **One step of a sweep** keeps the sets descending. -/
theorem Descending.set (hmono : Monotonic next) (h : Descending next sets) {i : ℕ}
    (hi : i < sets.length) : Descending next (sets.set i (next sets i)) := by
  have hsub : ∀ j, ∀ x ∈ setAt (sets.set i (next sets i)) j, x ∈ setAt sets j := by
    intro j x hx
    rw [setAt_set hi] at hx
    split_ifs at hx with hji
    · exact hji ▸ h.below i hi x hx
    · exact hx
  refine ⟨fun j => ?_, fun j hj x hx => ?_⟩
  · rw [setAt_set hi]
    split_ifs
    · exact hmono.sorted h.sorted i
    · exact h.sorted j
  · rw [List.length_set] at hj
    have hx' := hmono.mono hsub j x hx
    rw [setAt_set hi]
    split_ifs with hji
    · exact hji ▸ hx'
    · exact h.below j hj x hx'

/-- What a part of a sweep does; `changed` tells whether anything changed before. -/
structure Swept (next : BlockSets → ℕ → List ℕ) (positions : List ℕ) (sets : BlockSets)
    (changed : Bool) (r : BlockSets × Bool) : Prop where
  descending : Descending next r.1
  length : r.1.length = sets.length
  shrunk : r.2 = true → changed = true ∨ totalSize r.1 < totalSize sets
  size : totalSize r.1 ≤ totalSize sets
  stable : r.2 = false → changed = false ∧ r.1 = sets ∧
    ∀ i ∈ positions, next sets i = setAt sets i

theorem foldl_sweepStep_swept (hmono : Monotonic next) {positions : List ℕ} (changed : Bool)
    (h : Descending next sets) (hpositions : ∀ i ∈ positions, i < sets.length) :
    Swept next positions sets changed (positions.foldl (sweepStep next) (sets, changed)) := by
  induction positions generalizing sets changed with
  | nil => exact ⟨h, rfl, .inl, le_rfl, fun hc => ⟨hc, rfl, by simp⟩⟩
  | cons i positions ih =>
    have hi := hpositions i List.mem_cons_self
    have hrest := fun j hj => hpositions j (List.mem_cons_of_mem _ hj)
    rw [List.foldl_cons]
    by_cases hsame : next sets i = setAt sets i
    · have hstep : sweepStep next (sets, changed) i = (sets, changed) := by
        unfold sweepStep
        exact if_neg (not_not.2 hsame)
      rw [hstep]
      have hr := ih changed h hrest
      refine ⟨hr.descending, hr.length, hr.shrunk, hr.size, fun hc => ?_⟩
      obtain ⟨hch, heq, hstable⟩ := hr.stable hc
      refine ⟨hch, heq, fun j hj => ?_⟩
      rcases List.mem_cons.1 hj with rfl | hj
      · exact hsame
      · exact hstable j hj
    · have hstep : sweepStep next (sets, changed) i = (sets.set i (next sets i), true) := by
        unfold sweepStep
        exact if_pos hsame
      have hlt := totalSize_set_lt hi (length_lt_of_subset (hmono.sorted h.sorted i)
        (h.sorted i) (h.below i hi) hsame)
      rw [hstep]
      have hr := ih true (h.set hmono hi) (by simpa using hrest)
      have hsize := hr.size
      refine ⟨hr.descending, hr.length.trans (List.length_set ..), fun _ => .inr (by omega),
        by omega, fun hc => ?_⟩
      exact absurd (hr.stable hc).1 (by simp)

/-- The sets are a solution. -/
def Stable (next : BlockSets → ℕ → List ℕ) (sets : BlockSets) : Prop :=
  ∀ i < sets.length, next sets i = setAt sets i

/-- **Enough sweeps** end in a solution. -/
theorem sweepUntilStable_stable (hmono : Monotonic next) {rounds : ℕ}
    (h : Descending next sets) (hrounds : totalSize sets < rounds) :
    Stable next (sweepUntilStable next rounds sets) := by
  induction rounds generalizing sets with
  | zero => exact absurd hrounds (Nat.not_lt_zero _)
  | succ rounds ih =>
    have hswept : Swept next (List.range sets.length) sets false (sweep next sets) :=
      foldl_sweepStep_swept hmono false h fun i hi => List.mem_range.1 hi
    rw [sweepUntilStable]
    split_ifs with hchanged
    · have hlt := (hswept.shrunk hchanged).resolve_left Bool.false_ne_true
      exact ih hswept.descending (by omega)
    · obtain ⟨-, heq, hstable⟩ := hswept.stable (by simpa using hchanged)
      rw [heq]
      exact fun i hi => hstable i (List.mem_range.2 hi)

/-- What one step keeps, the sweeps keep. -/
theorem sweepUntilStable_induction (next : BlockSets → ℕ → List ℕ) {I : BlockSets → Prop}
    (hstep : ∀ sets, I sets → ∀ i < sets.length, I (sets.set i (next sets i))) (rounds : ℕ)
    (h : I sets) : I (sweepUntilStable next rounds sets) := by
  have hsweep : ∀ {sets}, I sets → I (sweep next sets).1 := by
    intro sets h
    have hfold : ∀ (positions : List ℕ) (acc : BlockSets × Bool),
        (∀ i ∈ positions, i < acc.1.length) → I acc.1 →
          I (positions.foldl (sweepStep next) acc).1 := by
      intro positions
      induction positions with
      | nil => exact fun _ _ hacc => hacc
      | cons i positions ih =>
        intro acc hpositions hacc
        refine ih _ (fun j hj => ?_) ?_
        · rw [length_sweepStep]
          exact hpositions j (List.mem_cons_of_mem _ hj)
        · unfold sweepStep
          dsimp only
          split_ifs
          · exact hstep acc.1 hacc i (hpositions i List.mem_cons_self)
          · exact hacc
    exact hfold _ _ (fun i hi => List.mem_range.1 hi) h
  induction rounds generalizing sets with
  | zero => exact h
  | succ rounds ih =>
    rw [sweepUntilStable]
    split_ifs
    · exact ih (hsweep h)
    · exact hsweep h

/-- **The greatest solution.** A family of sets that `next` keeps stays inside. -/
theorem sweepUntilStable_contains (next : BlockSets → ℕ → List ℕ) {T : ℕ → ℕ → Prop}
    (hkeep : ∀ sets : BlockSets, (∀ j x, T j x → x ∈ setAt sets j) →
      ∀ i x, T i x → x ∈ next sets i) (rounds : ℕ)
    (h : ∀ i x, T i x → x ∈ setAt sets i) :
    ∀ i x, T i x → x ∈ setAt (sweepUntilStable next rounds sets) i := by
  refine sweepUntilStable_induction next (I := fun sets => ∀ i x, T i x → x ∈ setAt sets i)
    (fun sets hsets i hi j x hx => ?_) rounds h
  rw [setAt_set hi]
  split_ifs with hji
  · exact hkeep sets hsets i x (hji ▸ hx)
  · exact hsets j x hx

end Sweep

/-! ### Meets -/

theorem mem_intersectSorted {a b : List ℕ} {x : ℕ} : x ∈ intersectSorted a b ↔ x ∈ a ∧ x ∈ b := by
  simp [intersectSorted]

/-- The meet over the neighbours. -/
theorem mem_meetNeighbours {sets : BlockSets} {neighbours : List ℕ} {self x : ℕ} :
    x ∈ meetNeighbours sets neighbours self ↔
      x = self ∨ neighbours ≠ [] ∧ ∀ n ∈ neighbours, x ∈ setAt sets n := by
  cases neighbours with
  | nil => simp [meetNeighbours]
  | cons first rest =>
    have hfold : ∀ (rest acc : List ℕ),
        x ∈ rest.foldl (fun acc n => intersectSorted acc (setAt sets n)) acc ↔
          x ∈ acc ∧ ∀ n ∈ rest, x ∈ setAt sets n := by
      intro rest
      induction rest with
      | nil => simp
      | cons n rest ih =>
        intro acc
        rw [List.foldl_cons, ih, mem_intersectSorted, List.forall_mem_cons, and_assoc]
    rw [meetNeighbours, mem_sortUnique, mem_addUnique, or_comm]
    refine or_congr Iff.rfl ?_
    rw [List.forall_mem_cons]
    exact (hfold rest _).trans ⟨fun h => ⟨List.cons_ne_nil _ _, h⟩, fun h => h.2⟩

theorem meetNeighbours_pairwise (sets : BlockSets) (neighbours : List ℕ) (self : ℕ) :
    (meetNeighbours sets neighbours self).Pairwise (· < ·) := by
  cases neighbours with
  | nil => exact List.pairwise_singleton _ _
  | cons first rest => exact sortUnique_pairwise _

end Prosperismo.Cfg
