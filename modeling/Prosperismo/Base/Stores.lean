import Mathlib.Data.Nat.Notation
import Mathlib.Data.List.Range

/-!
# Copies between two memories

A copy takes the bytes of one object from a source to a target (`copyObject`), and
`copyObjects` does so for a list of objects, one after the other. When no two objects overlap
in the target, each of them arrives, whatever the order of the list (`copyObjects_apply`).
-/

namespace Prosperismo

variable {ι : Type*} {β : Type*}

/-- The target with the `size` bytes at `src` of the source copied to `dst`. -/
def copyObject (size src dst : ℕ) (source target : ℕ → β) (a : ℕ) : β :=
  if dst ≤ a ∧ a < dst + size then source (src + (a - dst)) else target a

/-- The target with all objects copied. -/
def copyObjects (size : ℕ) (src dst : ι → ℕ) (objects : List ι) (source target : ℕ → β) :
    ℕ → β :=
  objects.foldl (fun memory object => copyObject size (src object) (dst object) source memory)
    target

variable {size : ℕ} {src dst : ι → ℕ} {source target : ℕ → β}

/-- A byte in no object of the target stays. -/
theorem copyObjects_of_disjoint {objects : List ι} {a : ℕ}
    (h : ∀ object ∈ objects, ¬ (dst object ≤ a ∧ a < dst object + size)) :
    copyObjects size src dst objects source target a = target a := by
  induction objects generalizing target with
  | nil => rfl
  | cons object objects ih =>
    show copyObjects size src dst objects source _ a = _
    rw [ih fun object' h' => h object' (List.mem_cons_of_mem _ h')]
    show (if _ then _ else _) = _
    rw [if_neg (h object List.mem_cons_self)]

/-- **Every object arrives**, when the objects do not overlap in the target. -/
theorem copyObjects_apply (hdisjoint : ∀ o o' a, dst o ≤ a → a < dst o + size → dst o' ≤ a →
      a < dst o' + size → o = o')
    {objects : List ι} {object : ι} (hobject : object ∈ objects) {i : ℕ} (hi : i < size) :
    copyObjects size src dst objects source target (dst object + i) = source (src object + i) := by
  induction objects generalizing target with
  | nil => cases hobject
  | cons first objects ih =>
    show copyObjects size src dst objects source _ _ = _
    by_cases hmem : object ∈ objects
    · exact ih hmem
    · -- the first object is the one, and the ones after it are others
      have hfirst : first = object := by
        rcases List.mem_cons.1 hobject with h | h
        · exact h.symm
        · exact absurd h hmem
      subst hfirst
      rw [copyObjects_of_disjoint]
      · show (if _ then _ else _) = _
        rw [if_pos ⟨Nat.le_add_right _ _, by omega⟩, Nat.add_sub_cancel_left]
      · rintro other hother ⟨hle, hlt⟩
        have := hdisjoint first other (dst first + i) (Nat.le_add_right _ _) (by omega) hle hlt
        exact hmem (this ▸ hother)

end Prosperismo

/-!
# Lists of stores

What a program does to a memory, as a list of stores: a position and the value that is stored
there, the first store first (`storeAll`). A copy is such a list (`copyObject_eq_storeAll`), and
the stores of one program after another are those of both (`storeAll_append`).

A position that no store names stays (`storeAll_of_not_mem`). A position has the value of its
stores if they agree (`storeAll_of_agree`); the order of the list does not matter then.
-/

namespace Prosperismo

variable {β : Type*}

/-- The memory after the stores, in the order of the list. -/
def storeAll (stores : List (ℕ × β)) (memory : ℕ → β) : ℕ → β :=
  stores.foldl (fun memory store p => if p = store.1 then store.2 else memory p) memory

@[simp] theorem storeAll_nil (memory : ℕ → β) : storeAll [] memory = memory := rfl

theorem storeAll_cons (store : ℕ × β) (stores : List (ℕ × β)) (memory : ℕ → β) :
    storeAll (store :: stores) memory =
      storeAll stores fun p => if p = store.1 then store.2 else memory p := rfl

theorem storeAll_append (stores stores' : List (ℕ × β)) (memory : ℕ → β) :
    storeAll (stores ++ stores') memory = storeAll stores' (storeAll stores memory) :=
  List.foldl_append

/-- A position that no store names stays. -/
theorem storeAll_of_not_mem {stores : List (ℕ × β)} {memory : ℕ → β} {p : ℕ}
    (h : ∀ store ∈ stores, store.1 ≠ p) : storeAll stores memory p = memory p := by
  induction stores generalizing memory with
  | nil => rfl
  | cons store stores ih =>
    rw [storeAll_cons, ih fun store' hstore' => h store' (List.mem_cons_of_mem _ hstore')]
    exact if_neg (h store List.mem_cons_self).symm

/-- **Stores that agree**: a position has the value that every store to it has. -/
theorem storeAll_of_agree {stores : List (ℕ × β)} {memory : ℕ → β} {p : ℕ} {v : β}
    (hmem : (p, v) ∈ stores) (h : ∀ store ∈ stores, store.1 = p → store.2 = v) :
    storeAll stores memory p = v := by
  induction stores generalizing memory with
  | nil => exact absurd hmem List.not_mem_nil
  | cons store stores ih =>
    have hrest : ∀ store' ∈ stores, store'.1 = p → store'.2 = v :=
      fun store' hstore' => h store' (List.mem_cons_of_mem _ hstore')
    rw [storeAll_cons]
    by_cases hlater : ∃ store' ∈ stores, store'.1 = p
    · -- a later store decides
      obtain ⟨⟨p', v'⟩, hstore', hp⟩ := hlater
      obtain rfl : p' = p := hp
      obtain rfl : v' = v := hrest _ hstore' rfl
      exact ih hstore' hrest
    · rw [storeAll_of_not_mem fun store' hstore' hp => hlater ⟨store', hstore', hp⟩]
      rcases List.mem_cons.1 hmem with rfl | hmem
      · exact if_pos rfl
      · exact absurd ⟨_, hmem, rfl⟩ hlater

/-- The stores of a copy. -/
def copyStores (size src dst : ℕ) (source : ℕ → β) : List (ℕ × β) :=
  (List.range size).map fun i => (dst + i, source (src + i))

theorem mem_copyStores {size src dst : ℕ} {source : ℕ → β} {store : ℕ × β} :
    store ∈ copyStores size src dst source ↔ ∃ i < size, store = (dst + i, source (src + i)) := by
  simp only [copyStores, List.mem_map, List.mem_range, eq_comm]

/-- **A copy is a list of stores**. -/
theorem copyObject_eq_storeAll (size src dst : ℕ) (source memory : ℕ → β) :
    copyObject size src dst source memory = storeAll (copyStores size src dst source) memory := by
  funext p
  unfold copyObject
  split
  · next hp =>
    obtain ⟨i, rfl⟩ := Nat.exists_eq_add_of_le hp.1
    have hi : i < size := by omega
    rw [Nat.add_sub_cancel_left]
    refine (storeAll_of_agree (mem_copyStores.2 ⟨i, hi, rfl⟩) fun store hstore heq => ?_).symm
    obtain ⟨j, -, rfl⟩ := mem_copyStores.1 hstore
    rw [Nat.add_left_cancel heq]
  · next hp =>
    refine (storeAll_of_not_mem fun store hstore heq => hp ?_).symm
    obtain ⟨j, hj, rfl⟩ := mem_copyStores.1 hstore
    exact ⟨heq ▸ Nat.le_add_right _ _, heq ▸ Nat.add_lt_add_left hj _⟩

end Prosperismo
