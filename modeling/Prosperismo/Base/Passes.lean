import Mathlib.Data.List.Basic
import Mathlib.Data.Fintype.Card
import Mathlib.Logic.Relation
import Mathlib.Order.WellFounded

/-!
# Passes over a list

A list is gone through again and again; in each pass an item that is `ready` for what has been
started so far is started at once, and the passes end with one that starts nothing.

The second part is about items that need one another: when an item is ready only after everything
it needs has been started, nothing is started before something it needs, and what is left at the
end is what needs, directly or through others, something that is never started by itself.
-/

namespace Prosperismo

variable {V : Type*}

section Loop

variable (ready : List V → V → Bool)

/-- One pass: what has been started after it, and whether it started anything. -/
def pass (started : List V) (progressed : Bool) : List V → List V × Bool
  | [] => (started, progressed)
  | p :: rest =>
    if ready started p then pass (started ++ [p]) true rest else pass started progressed rest

/-- Passes until one starts nothing, at most `fuel` of them. -/
def passes (items : List V) : ℕ → List V → Option (List V)
  | 0, _ => none
  | fuel + 1, started =>
    if (pass ready started false items).2 then passes items fuel (pass ready started false items).1
    else some (pass ready started false items).1

variable {ready} {I : List V → Prop} {started : List V}

/-- What one start preserves, a pass preserves. -/
theorem pass_invariant {items : List V} {progressed : Bool} (h : I started)
    (hstep : ∀ started p, p ∈ items → I started → ready started p = true → I (started ++ [p])) :
    I (pass ready started progressed items).1 := by
  induction items generalizing started progressed with
  | nil => exact h
  | cons p rest ih =>
    have hrest : ∀ started q, q ∈ rest → I started → ready started q = true →
        I (started ++ [q]) := fun started q hq => hstep started q (List.mem_cons_of_mem _ hq)
    unfold pass
    split
    · next hready => exact ih (hstep started p List.mem_cons_self h hready) hrest
    · exact ih h hrest

/-- A pass that is said to have started something ends so. -/
theorem pass_progressed {items : List V} : (pass ready started true items).2 = true := by
  induction items generalizing started with
  | nil => rfl
  | cons p rest ih =>
    unfold pass
    split
    · exact ih
    · exact ih

/-- A pass takes nothing back. -/
theorem length_le_pass {items : List V} {progressed : Bool} :
    started.length ≤ (pass ready started progressed items).1.length := by
  induction items generalizing started progressed with
  | nil => exact Nat.le_refl _
  | cons p rest ih =>
    unfold pass
    split
    · refine Nat.le_trans ?_ ih
      rw [List.length_append]
      exact Nat.le_add_right _ _
    · exact ih

/-- A pass that starts something leaves more started. -/
theorem length_lt_pass {items : List V} (h : (pass ready started false items).2 = true) :
    started.length < (pass ready started false items).1.length := by
  induction items generalizing started with
  | nil => exact absurd h Bool.false_ne_true
  | cons p rest ih =>
    unfold pass at h ⊢
    split
    · refine Nat.lt_of_lt_of_le ?_ length_le_pass
      rw [List.length_append]
      exact Nat.lt_succ_self _
    · next hready =>
      rw [if_neg hready] at h
      exact ih h

/-- A pass that starts nothing has found nothing ready. -/
theorem pass_settled {items : List V} (h : (pass ready started false items).2 = false) :
    (pass ready started false items).1 = started ∧ ∀ p ∈ items, ready started p = false := by
  induction items generalizing started with
  | nil => exact ⟨rfl, List.forall_mem_nil _⟩
  | cons p rest ih =>
    unfold pass at h ⊢
    by_cases hready : ready started p = true
    · rw [if_pos hready, pass_progressed] at h
      exact absurd h.symm Bool.false_ne_true
    · rw [if_neg hready] at h ⊢
      obtain ⟨hsame, hrest⟩ := ih h
      exact ⟨hsame, List.forall_mem_cons.2 ⟨Bool.eq_false_iff.2 hready, hrest⟩⟩

/-- **The passes.** They preserve what one start preserves, and at the end nothing is ready. -/
theorem passes_spec {items result : List V} {fuel : ℕ} (h : I started)
    (hstep : ∀ started p, p ∈ items → I started → ready started p = true → I (started ++ [p]))
    (hresult : passes ready items fuel started = some result) :
    I result ∧ ∀ p ∈ items, ready result p = false := by
  induction fuel generalizing started with
  | zero => cases hresult
  | succ fuel ih =>
    unfold passes at hresult
    split at hresult
    · exact ih (pass_invariant h hstep) hresult
    · next hsettled =>
      obtain ⟨hsame, hnone⟩ := pass_settled (Bool.eq_false_iff.2 hsettled)
      obtain rfl := Option.some.inj hresult
      rw [hsame]
      exact ⟨h, hnone⟩

/-- **The passes end** when there is a bound on what can be started. -/
theorem passes_isSome {items : List V} {fuel bound : ℕ} (h : I started)
    (hstep : ∀ started p, p ∈ items → I started → ready started p = true → I (started ++ [p]))
    (hbound : ∀ started, I started → started.length ≤ bound)
    (hfuel : bound < fuel + started.length) : (passes ready items fuel started).isSome := by
  induction fuel generalizing started with
  | zero =>
    rw [Nat.zero_add] at hfuel
    exact absurd (hbound started h) (Nat.not_le.2 hfuel)
  | succ fuel ih =>
    unfold passes
    split
    · next hprogressed =>
      refine ih (pass_invariant h hstep) ?_
      have hlonger := length_lt_pass hprogressed
      omega
    · rfl

/-- A pass that starts all the items of a kind that have not been started starts them in the order
of the list. -/
theorem pass_unstarted [DecidableEq V] (kind : V → Bool) {items : List V} {progressed : Bool}
    (hnodup : items.Nodup) :
    (pass (fun started p => kind p && !started.contains p) started progressed items).1 =
      started ++ items.filter fun p => kind p && !started.contains p := by
  induction items generalizing started progressed with
  | nil => exact (List.append_nil started).symm
  | cons p rest ih =>
    obtain ⟨hnew, hrest⟩ := List.nodup_cons.1 hnodup
    unfold pass
    rw [List.filter_cons]
    split
    · rw [ih hrest, List.append_assoc]
      refine congrArg (fun behind => started ++ p :: behind) ?_
      -- the item itself does not come again
      refine List.filter_congr fun q hq => ?_
      have hne : q ≠ p := fun heq => hnew (heq ▸ hq)
      rw [List.contains_eq_mem, List.contains_eq_mem]
      simp only [List.mem_append, List.mem_singleton, hne, or_false]
    · exact ih hrest

end Loop

/-! ### Items that need one another -/

open Relation

/-- What the passes have started: nothing twice, only what `starts` by itself, each item with all
that it needs, and none before something that it needs. -/
structure StartedInOrder (needs : V → V → Prop) (starts : V → Prop) (started : List V) : Prop where
  nodup : started.Nodup
  starts : ∀ p ∈ started, starts p
  closed : ∀ p ∈ started, ∀ q, needs p q → q ∈ started
  ordered : started.Pairwise fun earlier later => ¬ TransGen needs earlier later

variable {needs : V → V → Prop} {starts : V → Prop} {started : List V}

namespace StartedInOrder

theorem nil : StartedInOrder needs starts [] where
  nodup := List.nodup_nil
  starts := List.forall_mem_nil _
  closed := List.forall_mem_nil _
  ordered := .nil

/-- What has been started needs only what has been started. -/
theorem mem_of_transGen (h : StartedInOrder needs starts started) {p q : V} (hp : p ∈ started)
    (hneeds : TransGen needs p q) : q ∈ started := by
  induction hneeds with
  | single hneeds => exact h.closed p hp _ hneeds
  | tail _ hneeds ih => exact h.closed _ ih _ hneeds

/-- An item may be started after all that it needs. -/
theorem append (h : StartedInOrder needs starts started) {p : V} (hnew : p ∉ started)
    (hstarts : starts p) (hneeds : ∀ q, needs p q → q ∈ started) :
    StartedInOrder needs starts (started ++ [p]) where
  nodup := List.nodup_append.2 ⟨h.nodup, List.nodup_singleton p, fun q hq q' hq' heq =>
    hnew (by rwa [heq, List.mem_singleton.1 hq'] at hq)⟩
  starts q hq := by
    rcases List.mem_append.1 hq with hq | hq
    · exact h.starts q hq
    · rwa [List.mem_singleton.1 hq]
  closed q hq r hr := by
    refine List.mem_append_left _ ?_
    rcases List.mem_append.1 hq with hq | hq
    · exact h.closed q hq r hr
    · rw [List.mem_singleton.1 hq] at hr
      exact hneeds r hr
  ordered := by
    refine List.pairwise_append.2 ⟨h.ordered, List.pairwise_singleton _ _, fun q hq q' hq' => ?_⟩
    rw [List.mem_singleton.1 hq']
    -- what has been started needs nothing new
    exact fun hneeds => hnew (h.mem_of_transGen hq hneeds)

/-- **What the passes reach.** When nothing more is ready, an item has been started exactly when it
and everything that it needs, directly or through others, start by themselves. -/
theorem mem_iff (h : StartedInOrder needs starts started) [Finite V]
    (hacyclic : ∀ p, ¬ TransGen needs p p)
    (hsettled : ∀ p, starts p → p ∉ started → ∃ q, needs p q ∧ q ∉ started) {p : V} :
    p ∈ started ↔ starts p ∧ ∀ q, TransGen needs p q → starts q := by
  refine ⟨fun hp => ⟨h.starts p hp, fun q hq => h.starts q (h.mem_of_transGen hp hq)⟩, ?_⟩
  have : IsTrans V fun q p => TransGen needs p q := ⟨fun _ _ _ hqp hrq => hrq.trans hqp⟩
  have : Std.Irrefl fun q p : V => TransGen needs p q := ⟨fun p => hacyclic p⟩
  have hwf := Finite.wellFounded_of_trans_of_irrefl fun q p : V => TransGen needs p q
  induction p using hwf.induction with
  | h p ih =>
    rintro ⟨hp, hall⟩
    by_contra hnot
    obtain ⟨q, hneeds, hq⟩ := hsettled p hp hnot
    refine hq (ih q (.single hneeds) ⟨hall q (.single hneeds), fun r hr => ?_⟩)
    exact hall r (.head hneeds hr)

end StartedInOrder

/-- **Places in a list.** In a list that names nothing twice, no item stands before a related one
exactly when related items have the places the other way. -/
theorem pairwise_not_iff_idxOf [DecidableEq V] {l : List V} {R : V → V → Prop} (hnodup : l.Nodup)
    (hirrefl : ∀ p, ¬ R p p) :
    (l.Pairwise fun p q => ¬ R p q) ↔ ∀ p ∈ l, ∀ q ∈ l, R p q → l.idxOf q < l.idxOf p := by
  rw [List.pairwise_iff_getElem]
  constructor
  · intro hpairs p hp q hq hR
    by_contra hnot
    have hle : l.idxOf p ≤ l.idxOf q := Nat.le_of_not_lt hnot
    rcases Nat.eq_or_lt_of_le hle with heq | hlt
    · obtain rfl := (List.idxOf_inj hp).1 heq
      exact hirrefl p hR
    · have hat := hpairs _ _ (List.idxOf_lt_length_of_mem hp) (List.idxOf_lt_length_of_mem hq) hlt
      rw [List.getElem_idxOf, List.getElem_idxOf] at hat
      exact hat hR
  · intro hplaces i j hi hj hlt hR
    have hback := hplaces _ (List.getElem_mem hi) _ (List.getElem_mem hj) hR
    rw [hnodup.idxOf_getElem, hnodup.idxOf_getElem] at hback
    exact Nat.lt_asymm hlt hback

end Prosperismo
