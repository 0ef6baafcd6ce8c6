import Mathlib.Data.Fintype.Basic
import Mathlib.Data.List.Chain
import Mathlib.Logic.Relation
import Mathlib.Order.WellFounded
import Mathlib.Data.Fintype.Order

/-!
# Cycles and dominance in a directed graph

A directed graph is a relation `E` on its nodes; a set of nodes are its roots. A node
*dominates* another when it lies on every path from a root to it. An edge whose end
dominates its start is a *back edge*, and the graph is *reducible* where the edges that
are not back edges have no cycle.

`acyclic_iff_cycles_headed` is the classical characterization: the graph is reducible
exactly when every cycle contains a node that dominates the whole cycle. The dominators
of one node form a chain (`Dominates.total`, `Dominates.antisymm`), so some
of them have a nearest one (`Dominates.exists_nearest`).

Two nodes are *strongly connected* when each reaches the other; a strongly connected
component is a class of this equivalence (`StronglyConnected`).
-/

namespace Prosperismo

open Relation

variable {V : Type*} {E : V → V → Prop} {roots S : V → Prop}

/-! ### Paths and dominance -/

/-- `PathTo E roots p b`: the nodes of `p`, read backwards, are a path from a root to `b`. -/
inductive PathTo (E : V → V → Prop) (roots : V → Prop) : List V → V → Prop
  | root {r : V} : roots r → PathTo E roots [r] r
  | step {p : List V} {a b : V} : PathTo E roots p a → E a b → PathTo E roots (b :: p) b

/-- A path ends where it says. -/
theorem PathTo.end_mem {p : List V} {b : V} (h : PathTo E roots p b) : b ∈ p := by
  cases h <;> exact List.mem_cons_self

/-- `d` lies on every path from a root to `b`. -/
def Dominates (E : V → V → Prop) (roots : V → Prop) (d b : V) : Prop :=
  ∀ p, PathTo E roots p b → d ∈ p

/-- A path from one of two sets of roots starts in one of them. -/
theorem PathTo.of_or {roots' roots'' : V → Prop} (hor : ∀ r, roots r → roots' r ∨ roots'' r)
    {p : List V} {b : V} (h : PathTo E roots p b) :
    PathTo E roots' p b ∨ PathTo E roots'' p b := by
  induction h with
  | root hr => exact (hor _ hr).imp .root .root
  | step _ hab ih => exact ih.imp (.step · hab) (.step · hab)

theorem PathTo.mono {roots' : V → Prop} (hsub : ∀ r, roots r → roots' r) {p : List V} {b : V}
    (h : PathTo E roots p b) : PathTo E roots' p b :=
  (h.of_or fun r hr => .inl (hsub r hr)).elim id id

/-- What holds of the roots and of the ends of edges holds of the nodes of a path. -/
theorem PathTo.forall_mem (hroot : ∀ r, roots r → S r) (hedge : ∀ a b, E a b → S b)
    {p : List V} {b : V} (h : PathTo E roots p b) : ∀ y ∈ p, S y := by
  induction h with
  | root hr => exact fun y hy => List.mem_singleton.1 hy ▸ hroot _ hr
  | step _ hab ih => exact List.forall_mem_cons.2 ⟨hedge _ _ hab, ih⟩

/-- A path from one node has it. -/
theorem PathTo.start_mem {x b : V} {p : List V} (h : PathTo E (· = x) p b) : x ∈ p := by
  induction h with
  | root hr => exact List.mem_singleton.2 hr.symm
  | step _ _ ih => exact List.mem_cons_of_mem _ ih

/-- A path cut at one of its nodes: the way to the node, and from there on. -/
theorem PathTo.split {p : List V} {x b : V} (h : PathTo E roots p b) (hx : x ∈ p) :
    ∃ q r, PathTo E (· = x) q b ∧ PathTo E roots r x ∧ q.length + r.length = p.length + 1 ∧
      q ⊆ p ∧ r ⊆ p := by
  induction h with
  | root hr =>
    obtain rfl := List.mem_singleton.1 hx
    exact ⟨[x], [x], .root rfl, .root hr, rfl, List.Subset.refl _, List.Subset.refl _⟩
  | @step p a b hp hab ih =>
    by_cases hxb : x = b
    · subst hxb
      exact ⟨[x], x :: p, .root rfl, hp.step hab, by simp [Nat.add_comm],
        fun y hy => List.mem_singleton.1 hy ▸ List.mem_cons_self, List.Subset.refl _⟩
    · obtain ⟨q, r, hq, hr, hlen, hsub, hsub'⟩ := ih ((List.mem_cons.1 hx).resolve_left hxb)
      refine ⟨b :: q, r, hq.step hab, hr, ?_, List.cons_subset_cons b hsub,
        fun y hy => List.mem_cons_of_mem _ (hsub' hy)⟩
      rw [List.length_cons, List.length_cons]
      omega

/-- A way to a node, continued. -/
theorem PathTo.append {q r : List V} {x b : V} (hq : PathTo E (· = x) q b)
    (hr : PathTo E roots r x) : ∃ p, PathTo E roots p b ∧ ∀ y ∈ p, y ∈ q ∨ y ∈ r := by
  induction hq with
  | root heq => exact ⟨r, heq ▸ hr, fun y hy => .inr hy⟩
  | @step q a b _ hab ih =>
    obtain ⟨p, hp, hsub⟩ := ih
    refine ⟨b :: p, hp.step hab, fun y hy => ?_⟩
    rcases List.mem_cons.1 hy with rfl | hy
    · exact .inl List.mem_cons_self
    · exact (hsub y hy).imp_left (List.mem_cons_of_mem _)

/-- A node that is reached has a path to it. -/
theorem PathTo.of_reflTransGen {a b : V} (ha : roots a) (h : ReflTransGen E a b) :
    ∃ p, PathTo E roots p b := by
  induction h with
  | refl => exact ⟨_, .root ha⟩
  | tail _ hbc ih =>
    obtain ⟨p, hp⟩ := ih
    exact ⟨_, hp.step hbc⟩

/-! ### Dominators of one node form a chain -/

theorem Dominates.refl (b : V) : Dominates E roots b b := fun _ hp => hp.end_mem

theorem Dominates.trans {x y b : V} (hxy : Dominates E roots x y) (hyb : Dominates E roots y b) :
    Dominates E roots x b := by
  intro p hp
  obtain ⟨-, r, -, hr, -, -, hsub⟩ := hp.split (hyb p hp)
  exact hsub (hxy r hr)

/-- Two nodes that dominate each other are the same: the shortest path to one would have to
contain the other, and a shorter path. -/
theorem Dominates.antisymm {x y : V} (hxy : Dominates E roots x y) (hyx : Dominates E roots y x)
    {p : List V} (hp : PathTo E roots p x) : x = y := by
  by_contra hne
  have hdescend : ∀ n, ∀ p : List V, p.length = n → ¬ PathTo E roots p x := by
    intro n
    induction n using Nat.strongRecOn with
    | ind n ih =>
      intro p hlen hp
      obtain ⟨q, r, hq, hr, hcut, -, -⟩ := hp.split (hyx p hp)
      obtain ⟨q', r', hq', hr', hcut', -, -⟩ := hr.split (hxy r hr)
      -- the way from `y` to `x` has at least two nodes
      have htwo : ∀ {z w : V} {s : List V}, z ≠ w → PathTo E (· = z) s w → 2 ≤ s.length := by
        intro z w s hzw hs
        cases hs with
        | root heq => exact absurd heq.symm hzw
        | step hs _ => exact Nat.succ_le_succ (List.length_pos_of_mem hs.end_mem)
      have hq := htwo (Ne.symm hne) hq
      have hq' := htwo hne hq'
      exact ih r'.length (by omega) r' rfl hr'
  exact hdescend _ p rfl hp

/-- On a path that meets `x` or `y`, one of them comes last, and the other is not met from
there on. -/
theorem PathTo.last_of_two {p : List V} {x y b : V} (hne : x ≠ y) (h : PathTo E roots p b)
    (hmeets : x ∈ p ∨ y ∈ p) :
    (∃ q, PathTo E (· = x) q b ∧ y ∉ q) ∨ ∃ q, PathTo E (· = y) q b ∧ x ∉ q := by
  induction h with
  | @root r hr =>
    rw [List.mem_singleton, List.mem_singleton] at hmeets
    obtain rfl | rfl := hmeets
    · exact .inl ⟨[x], .root rfl, by simpa using hne.symm⟩
    · exact .inr ⟨[y], .root rfl, by simpa using hne⟩
  | @step p a b hp hab ih =>
    by_cases hxb : x = b
    · subst hxb
      exact .inl ⟨[x], .root rfl, by simpa using hne.symm⟩
    by_cases hyb : y = b
    · subst hyb
      exact .inr ⟨[y], .root rfl, by simpa using hne⟩
    have hmeets := hmeets.imp (fun h => (List.mem_cons.1 h).resolve_left hxb)
      fun h => (List.mem_cons.1 h).resolve_left hyb
    refine (ih hmeets).imp ?_ ?_
    · exact fun ⟨q, hq, hy⟩ => ⟨b :: q, hq.step hab, by simp [hyb, hy]⟩
    · exact fun ⟨q, hq, hx⟩ => ⟨b :: q, hq.step hab, by simp [hxb, hx]⟩

/-- **A chain.** Of two dominators of a node that is reached, one dominates the other. -/
theorem Dominates.total {x y b : V} (hx : Dominates E roots x b) (hy : Dominates E roots y b)
    {p : List V} (hp : PathTo E roots p b) :
    Dominates E roots x y ∨ Dominates E roots y x := by
  by_contra hno
  rw [not_or] at hno
  have hne : x ≠ y := fun heq => hno.1 (heq ▸ Dominates.refl x)
  -- the one that a path meets last can be reached without the other
  have havoid : ∀ {z w : V}, Dominates E roots w b → ¬ Dominates E roots w z →
      ¬ ∃ q, PathTo E (· = z) q b ∧ w ∉ q := by
    rintro z w hw hnot ⟨q, hq, hwq⟩
    unfold Dominates at hnot
    push Not at hnot
    obtain ⟨r, hr, hwr⟩ := hnot
    obtain ⟨p, hp, hsub⟩ := hq.append hr
    exact (hsub w (hw p hp)).elim hwq hwr
  obtain hlast | hlast := hp.last_of_two hne (.inl (hx p hp))
  · exact havoid hy hno.2 hlast
  · exact havoid hx hno.1 hlast

/-- Some dominators of a node that is reached have a nearest one, which all of them dominate. -/
theorem Dominates.exists_nearest {b : V} {p : List V} (hp : PathTo E roots p b) {l : List V}
    (hne : l ≠ []) (hl : ∀ x ∈ l, Dominates E roots x b) :
    ∃ c ∈ l, ∀ x ∈ l, Dominates E roots x c := by
  induction l with
  | nil => exact absurd rfl hne
  | cons x l ih =>
    obtain ⟨hx, hl⟩ := List.forall_mem_cons.1 hl
    by_cases hnil : l = []
    · subst hnil
      refine ⟨x, List.mem_cons_self, fun y hy => ?_⟩
      rw [List.mem_singleton.1 hy]
      exact Dominates.refl x
    obtain ⟨c, hc, hall⟩ := ih hnil hl
    obtain hxc | hcx := hx.total (hl c hc) hp
    · exact ⟨c, List.mem_cons_of_mem _ hc, List.forall_mem_cons.2 ⟨hxc, hall⟩⟩
    · refine ⟨x, List.mem_cons_self, List.forall_mem_cons.2 ⟨Dominates.refl x, fun y hy => ?_⟩⟩
      exact (hall y hy).trans hcx

/-- The edges that are not back edges. -/
def ForwardEdge (E : V → V → Prop) (roots : V → Prop) (a b : V) : Prop :=
  E a b ∧ ¬ Dominates E roots b a

/-! ### Cycles -/

/-- The nodes of `c` in their order, and the first again, are linked by edges. -/
def IsCycle (E : V → V → Prop) (c : List V) : Prop :=
  ∃ a l, c = a :: l ∧ (a :: (l ++ [a])).IsChain E

/-- The edges inside a list of nodes. -/
def InsideEdge (E : V → V → Prop) (c : List V) (a b : V) : Prop := E a b ∧ a ∈ c ∧ b ∈ c

/-- A chain joins its first node to every other. -/
theorem reflTransGen_of_chain {a x : V} {l c : List V} (h : (a :: l).IsChain E)
    (hc : ∀ y ∈ a :: l, y ∈ c) (hx : x ∈ a :: l) : ReflTransGen (InsideEdge E c) a x := by
  induction l generalizing a with
  | nil =>
    rw [List.mem_singleton.1 hx]
  | cons b l ih =>
    rcases List.mem_cons.1 hx with rfl | hx
    · exact .refl
    · obtain ⟨hab, hl⟩ := List.isChain_cons_cons.1 h
      refine .head ⟨hab, hc a List.mem_cons_self, hc b (List.mem_cons_of_mem _ List.mem_cons_self)⟩
        (ih hl (fun y hy => hc y (List.mem_cons_of_mem _ hy)) hx)

/-- A chain joins every node to its last. -/
theorem reflTransGen_chain_last {x z : V} {l c : List V} (h : (l ++ [z]).IsChain E)
    (hc : ∀ y ∈ l ++ [z], y ∈ c) (hx : x ∈ l ++ [z]) : ReflTransGen (InsideEdge E c) x z := by
  induction l generalizing x with
  | nil =>
    obtain rfl : x = z := by simpa using hx
    exact .refl
  | cons b l ih =>
    have hl := fun y hy => hc y (List.mem_cons_of_mem _ hy)
    rcases List.mem_cons.1 hx with rfl | hx
    · rw [List.cons_append] at h
      obtain ⟨w, hw⟩ : ∃ w, (l ++ [z]).head? = some w := by
        cases l <;> exact ⟨_, rfl⟩
      have hmem : w ∈ l ++ [z] := List.mem_of_head? hw
      have hedge : E x w := (List.isChain_cons.1 h).1 w hw
      exact .head ⟨hedge, hc x List.mem_cons_self, hl w hmem⟩ (ih h.of_cons hl hmem)
    · exact ih h.of_cons hl hx

/-- The nodes of a cycle are joined inside the cycle. -/
theorem IsCycle.joined {c : List V} (h : IsCycle E c) {x y : V} (hx : x ∈ c) (hy : y ∈ c) :
    TransGen (InsideEdge E c) x y := by
  obtain ⟨a, l, rfl, hchain⟩ := h
  have hc : ∀ z ∈ a :: (l ++ [a]), z ∈ a :: l := by
    intro z hz
    rw [List.mem_cons, List.mem_append, List.mem_singleton] at hz
    rcases hz with rfl | hz | rfl
    · exact List.mem_cons_self
    · exact List.mem_cons_of_mem _ hz
    · exact List.mem_cons_self
  have hmem : ∀ z ∈ a :: l, z ∈ a :: (l ++ [a]) := fun z hz => by
    rw [← List.cons_append]
    exact List.mem_append_left _ hz
  have hto : ReflTransGen (InsideEdge E (a :: l)) x a :=
    reflTransGen_chain_last (l := a :: l) hchain hc (hmem x hx)
  have hfrom : ReflTransGen (InsideEdge E (a :: l)) a y :=
    reflTransGen_of_chain hchain hc (hmem y hy)
  -- the cycle itself is a step from `a` to `a`
  have hround : TransGen (InsideEdge E (a :: l)) a a := by
    obtain ⟨w, hw⟩ : ∃ w, (l ++ [a]).head? = some w := by
      cases l <;> exact ⟨_, rfl⟩
    have hwmem : w ∈ l ++ [a] := List.mem_of_head? hw
    refine TransGen.head' ⟨(List.isChain_cons.1 hchain).1 w hw, List.mem_cons_self,
      hc w (List.mem_cons_of_mem _ hwmem)⟩ ?_
    exact reflTransGen_chain_last (l := a :: l) hchain hc (List.mem_cons_of_mem _ hwmem)
  exact (hround.trans_right hto).trans_left hfrom

/-- A way from `a` to `b` as a chain. -/
theorem exists_chain_of_transGen {a b : V} (h : TransGen E a b) :
    ∃ l, (a :: (l ++ [b])).IsChain E := by
  induction h using TransGen.head_induction_on with
  | single hab => exact ⟨[], by simpa using hab⟩
  | @head a c hac _ ih =>
    obtain ⟨l, hl⟩ := ih
    exact ⟨c :: l, List.isChain_cons_cons.2 ⟨hac, hl⟩⟩

/-- A node that reaches itself lies on a cycle. -/
theorem exists_cycle_of_transGen {x : V} (h : TransGen E x x) : ∃ c, IsCycle E c ∧ x ∈ c := by
  obtain ⟨l, hl⟩ := exists_chain_of_transGen h
  exact ⟨x :: l, ⟨x, l, rfl, hl⟩, List.mem_cons_self⟩

theorem IsCycle.mono {E' : V → V → Prop} (hsub : ∀ a b, E a b → E' a b) {c : List V}
    (h : IsCycle E c) : IsCycle E' c := by
  obtain ⟨a, l, rfl, hchain⟩ := h
  exact ⟨a, l, rfl, hchain.imp hsub⟩

/-- What is closed under edges and contains one node of a cycle contains them all. -/
theorem IsCycle.subset_closed {c : List V} (h : IsCycle E c)
    (hclosed : ∀ a b, S a → E a b → S b) {x : V} (hx : x ∈ c) (hS : S x) : ∀ y ∈ c, S y := by
  intro y hy
  have hxy := h.joined hx hy
  clear hy
  induction hxy with
  | single hedge => exact hclosed _ _ hS hedge.1
  | tail _ hedge ih => exact hclosed _ _ ih hedge.1

/-- In a finite set where every node has a predecessor in the set, some node reaches
itself. -/
theorem exists_transGen_self {F : V → V → Prop} {c : List V} (hne : c ≠ [])
    (hpred : ∀ d ∈ c, ∃ u ∈ c, F u d) : ∃ x ∈ c, TransGen F x x := by
  by_contra hacyclic
  push Not at hacyclic
  let r : {x // x ∈ c} → {x // x ∈ c} → Prop := fun a b => TransGen F a.1 b.1
  have : IsTrans _ r := ⟨fun _ _ _ h h' => TransGen.trans h h'⟩
  have : Std.Irrefl r := ⟨fun a => hacyclic a.1 a.2⟩
  have : Finite {x // x ∈ c} := List.finite_toSet c
  obtain ⟨a, ha⟩ := List.exists_mem_of_ne_nil c hne
  obtain ⟨m, -, hmin⟩ := (Finite.wellFounded_of_trans_of_irrefl r).has_min Set.univ
    ⟨⟨a, ha⟩, Set.mem_univ _⟩
  obtain ⟨u, hu, hF⟩ := hpred m.1 m.2
  exact hmin ⟨u, hu⟩ (Set.mem_univ _) (.single hF)

/-! ### Reducibility -/

/-- A node of a cycle that no forward edge of the cycle enters dominates the cycle. -/
theorem dominates_of_no_forward_edge {c : List V} (h : IsCycle E c) {d : V} (hd : d ∈ c)
    (hback : ∀ u ∈ c, E u d → Dominates E roots d u) : ∀ b ∈ c, Dominates E roots d b := by
  intro b hb p hp
  by_contra hdp
  -- a path that avoids `d` can be continued along the cycle without meeting `d`
  have hreach : ∀ {x}, TransGen (InsideEdge E c) b x →
      ∃ q, PathTo E roots q x ∧ d ∉ q := by
    have hstep : ∀ {x y}, (∃ q, PathTo E roots q x ∧ d ∉ q) → InsideEdge E c x y →
        ∃ q, PathTo E roots q y ∧ d ∉ q := by
      rintro x y ⟨q, hq, hdq⟩ ⟨hxy, hx, -⟩
      have hne : d ≠ y := fun heq => hdq (hback x hx (heq ▸ hxy) q hq)
      exact ⟨y :: q, hq.step hxy, by simp [hne, hdq]⟩
    intro x hx
    induction hx with
    | single hedge => exact hstep ⟨p, hp, hdp⟩ hedge
    | tail _ hedge ih => exact hstep ih hedge
  obtain ⟨q, hq, hdq⟩ := hreach (h.joined hb hd)
  exact hdq hq.end_mem

/-- **Reducibility.** On a part of the graph that edges do not leave, the forward edges
have no cycle exactly when every cycle has a node that dominates all of it. -/
theorem acyclic_iff_cycles_headed (hclosed : ∀ a b, S a → E a b → S b) :
    (∀ x, S x → ¬ TransGen (ForwardEdge E roots) x x) ↔
      ∀ c, IsCycle E c → (∀ x ∈ c, S x) → ∃ d ∈ c, ∀ b ∈ c, Dominates E roots d b := by
  constructor
  · intro hacyclic c hc hS
    have hne : c ≠ [] := by
      obtain ⟨a, l, rfl, -⟩ := hc
      exact List.cons_ne_nil a l
    by_contra hnone
    push Not at hnone
    obtain ⟨x, hx, hloop⟩ := exists_transGen_self (F := ForwardEdge E roots) hne fun d hd => by
      by_contra hno
      push Not at hno
      obtain ⟨b, hb, hnot⟩ := hnone d hd
      refine hnot (dominates_of_no_forward_edge hc hd (fun u hu hud => ?_) b hb)
      by_contra hdom
      exact hno u hu ⟨hud, hdom⟩
    exact hacyclic x (hS x hx) hloop
  · intro hheaded x hx hloop
    obtain ⟨c, hc, hxc⟩ := exists_cycle_of_transGen hloop
    have hcE : IsCycle E c := hc.mono fun _ _ h => h.1
    obtain ⟨d, hd, hdom⟩ := hheaded c hcE (hcE.subset_closed hclosed hxc hx)
    -- the edge of the cycle into `d` is a back edge
    obtain ⟨u, -, hedge⟩ := TransGen.tail'_iff.1 (hc.joined hd hd)
    exact hedge.1.2 (hdom u hedge.2.1)

/-! ### Strong connection -/

/-- Each of the two nodes reaches the other. -/
def StronglyConnected (E : V → V → Prop) (a b : V) : Prop :=
  ReflTransGen E a b ∧ ReflTransGen E b a

namespace StronglyConnected

theorem symm {a b : V} (h : StronglyConnected E a b) : StronglyConnected E b a := ⟨h.2, h.1⟩

theorem trans {a b c : V} (h : StronglyConnected E a b) (h' : StronglyConnected E b c) :
    StronglyConnected E a c := ⟨h.1.trans h'.1, h'.2.trans h.2⟩

end StronglyConnected

/-- `e` is in the component of `v` and has a predecessor outside it. -/
def EntersComponent (E : V → V → Prop) (v e : V) : Prop :=
  StronglyConnected E v e ∧ ∃ p, E p e ∧ ¬ StronglyConnected E v p

/-- A component is entered where it is, whichever of its nodes names it. -/
theorem EntersComponent.of_connected {u v e : V} (h : EntersComponent E v e)
    (huv : StronglyConnected E v u) : EntersComponent E u e := by
  obtain ⟨hve, p, hp, hnot⟩ := h
  exact ⟨huv.symm.trans hve, p, hp, fun hup => hnot (huv.trans hup)⟩

/-- Some strongly connected component is entered at two different nodes. -/
def TwoEntries (E : V → V → Prop) : Prop :=
  ∃ v e₁ e₂, e₁ ≠ e₂ ∧ EntersComponent E v e₁ ∧ EntersComponent E v e₂

end Prosperismo
