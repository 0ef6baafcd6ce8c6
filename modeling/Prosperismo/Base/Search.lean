import Mathlib.Data.Finset.Card
import Mathlib.Logic.Relation

/-!
# Worklist search

Graph searches with an explicit stack: a node is popped, marked when it is new
and in range, and its successors are pushed. `search` is that loop over a graph
whose nodes are the numbers below `n`.

The two facts its users need are that the result contains what it started from
(`search_mem_stack`) and is closed under in-range successors (`search_closed`).
-/

namespace Prosperismo

variable {n : ℕ} {succ : ℕ → List ℕ}

/-- The search loop: `visited` are the marked nodes, the list is the stack, its
head on top. A successor that is out of range or already marked is not pushed. -/
def search (n : ℕ) (succ : ℕ → List ℕ) (visited : Finset ℕ) : List ℕ → Finset ℕ
  | [] => visited
  | b :: stack =>
    if _h : n ≤ b ∨ b ∈ visited then search n succ visited stack
    else
      search n succ (insert b visited)
        (((succ b).filter fun s => decide (s < n ∧ s ∉ insert b visited)).reverse ++ stack)
termination_by stack => ((Finset.range n \ visited).card, stack.length)
decreasing_by
  · exact Prod.Lex.right _ (Nat.lt_succ_self _)
  · refine Prod.Lex.left _ _ (Finset.card_lt_card ?_)
    rw [Finset.ssubset_iff]
    refine ⟨b, by simp, fun x hx => ?_⟩
    rcases Finset.mem_insert.1 hx with rfl | hx
    · simp only [Finset.mem_sdiff, Finset.mem_range]
      exact ⟨by omega, fun hv => _h (.inr hv)⟩
    · simp only [Finset.mem_sdiff, Finset.mem_range, Finset.mem_insert, not_or] at hx ⊢
      exact ⟨hx.1, hx.2.2⟩

/-- Marked nodes stay marked. -/
theorem subset_search {visited : Finset ℕ} {stack : List ℕ} :
    visited ⊆ search n succ visited stack := by
  fun_induction search n succ visited stack with
  | case1 => exact subset_rfl
  | case2 _ _ _ _ ih => exact ih
  | case3 visited b stack _ ih => exact (Finset.subset_insert _ _).trans ih

/-- Every in-range node of the stack ends up marked. -/
theorem search_mem_stack {visited : Finset ℕ} {stack : List ℕ} {b : ℕ}
    (hb : b ∈ stack) (hn : b < n) : b ∈ search n succ visited stack := by
  fun_induction search n succ visited stack with
  | case1 => cases hb
  | case2 visited c stack h ih =>
    rcases List.mem_cons.1 hb with rfl | hb
    · exact subset_search (h.resolve_left (by omega))
    · exact ih hb
  | case3 visited c stack h ih =>
    rcases List.mem_cons.1 hb with rfl | hb
    · exact subset_search (Finset.mem_insert_self _ _)
    · exact ih (List.mem_append_right _ hb)

/-- **Closure.** If every in-range successor of a marked node is marked or on the
stack, the result is closed under in-range successors. -/
theorem search_closed {visited : Finset ℕ} {stack : List ℕ}
    (hclosed : ∀ b ∈ visited, ∀ s ∈ succ b, s < n → s ∈ visited ∨ s ∈ stack) :
    ∀ b ∈ search n succ visited stack, ∀ s ∈ succ b, s < n →
      s ∈ search n succ visited stack := by
  fun_induction search n succ visited stack with
  | case1 visited => exact fun b hb s hs hn => (hclosed b hb s hs hn).resolve_right (by simp)
  | case2 visited c stack h ih =>
    refine ih fun b hb s hs hn => ?_
    rcases hclosed b hb s hs hn with hv | hst
    · exact .inl hv
    · rcases List.mem_cons.1 hst with rfl | hst
      · exact .inl (h.resolve_left (by omega))
      · exact .inr hst
  | case3 visited c stack h ih =>
    refine ih fun b hb s hs hn => ?_
    by_cases hv : s ∈ insert c visited
    · exact .inl hv
    · refine .inr (List.mem_append.2 ?_)
      rcases Finset.mem_insert.1 hb with rfl | hb
      · rw [List.mem_reverse, List.mem_filter]
        exact .inl ⟨hs, decide_eq_true ⟨hn, hv⟩⟩
      · rcases hclosed b hb s hs hn with hold | hst
        · exact absurd (Finset.mem_insert_of_mem hold) hv
        · rcases List.mem_cons.1 hst with rfl | hst
          · exact absurd (Finset.mem_insert_self _ _) hv
          · exact .inr hst

end Prosperismo
