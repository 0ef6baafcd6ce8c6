import Prosperismo.Cfg.Analysed

/-!
# Post-dominators

What `ComputePostDominators` computes: the blocks on every path from a block to an exit,
a block without successors (`mem_postDominators_iff`). Read against the edges these are
the dominators of a graph whose roots are the exits, so those of one block form a chain,
and the common post-dominators of two blocks have a nearest one.
`findNearestCommonPostDominator_exact` says that the search finds it.
-/

namespace Prosperismo.Cfg

open Relation

variable {program : Program} {g : Graph}

/-- An edge, against the flow. -/
def Graph.RevEdge (graph : Graph) (a b : ℕ) : Prop := graph.Edge b a

/-- Where the paths of a graph end. -/
def Graph.Exit (graph : Graph) (r : ℕ) : Prop :=
  r < graph.blocks.length ∧ ∀ s, ¬ graph.Edge r s

/-- `d` lies on every path from `b` to an exit. -/
def Graph.OnWaysOut (graph : Graph) (d b : ℕ) : Prop := Dominates graph.RevEdge graph.Exit d b

/-! ### The sweeps of ComputePostDominators -/

/-- The initial sets of `ComputePostDominators`. -/
def initialPostDominators (graph : Graph) : BlockSets :=
  graph.blocks.map fun block =>
    if block.successors.isEmpty then [block.id] else List.range graph.blocks.length

/-- The sets `ComputePostDominators` ends with. -/
def postDominatorSets (graph : Graph) : BlockSets :=
  sweepUntilStable (nextPostDominators graph) (sweepRounds graph.blocks.length)
    (initialPostDominators graph)

theorem nextPostDominators_monotonic (graph : Graph) : Monotonic (nextPostDominators graph) := by
  refine ⟨fun {sets} _ i => meetNeighbours_pairwise _ _ _, fun {sets sets'} hsub i x hx => ?_⟩
  unfold nextPostDominators at hx ⊢
  rw [mem_meetNeighbours] at hx ⊢
  exact hx.imp_right fun h => ⟨h.1, fun n hn => hsub n x (h.2 n hn)⟩

theorem length_postDominatorSets (graph : Graph) :
    (postDominatorSets graph).length = graph.blocks.length := by
  rw [postDominatorSets, length_sweepUntilStable, initialPostDominators, List.length_map]

section

variable (hg : g.Linked)
include hg

/-- The next set of a block: itself, and what is in the sets of all its successors. -/
theorem mem_nextPostDominators {sets : BlockSets} {i x : ℕ} (hi : i < g.blocks.length) :
    x ∈ nextPostDominators g sets i ↔
      x = i ∨ ¬ g.Exit i ∧ ∀ s, g.Edge i s → x ∈ setAt sets s := by
  have hblock := List.getElem?_eq_getElem hi
  have hedge : ∀ s, s ∈ g.blocks[i].successors ↔ g.Edge i s := fun s => by
    unfold Graph.Edge EdgeIn
    rw [hblock]
    simp
  have hexit : g.blocks[i].successors ≠ [] ↔ ¬ g.Exit i := by
    rw [not_iff_not, Graph.Exit, and_iff_right hi, List.eq_nil_iff_forall_not_mem]
    exact forall_congr' fun s => not_congr (hedge s)
  unfold nextPostDominators Graph.blockAt
  rw [hblock, Option.getD_some]
  dsimp only
  rw [hg.positioned i _ hblock, mem_meetNeighbours, hexit]
  exact or_congr_right (and_congr_right fun _ => forall_congr' fun s => imp_congr_left (hedge s))

theorem setAt_initialPostDominators {i : ℕ} (hi : i < g.blocks.length) :
    (g.Exit i → setAt (initialPostDominators g) i = [i]) ∧
      (¬ g.Exit i → setAt (initialPostDominators g) i = List.range g.blocks.length) := by
  have hblock := List.getElem?_eq_getElem hi
  have hexit : g.blocks[i].successors.isEmpty = true ↔ g.Exit i := by
    rw [List.isEmpty_iff, List.eq_nil_iff_forall_not_mem, Graph.Exit, and_iff_right hi]
    refine forall_congr' fun s => not_congr ?_
    unfold Graph.Edge EdgeIn
    rw [hblock]
    simp
  have hset : setAt (initialPostDominators g) i =
      if g.blocks[i].successors.isEmpty then [i] else List.range g.blocks.length := by
    rw [setAt, initialPostDominators, List.getElem?_map, hblock, Option.map_some,
      Option.getD_some, hg.positioned i _ hblock]
  rw [hset]
  exact ⟨fun h => if_pos (hexit.2 h), fun h => if_neg (mt hexit.1 h)⟩

/-- No set holds an id that is not the id of a block. -/
theorem lt_of_mem_initialPostDominators {i x : ℕ} (hx : x ∈ setAt (initialPostDominators g) i) :
    x < g.blocks.length := by
  by_cases hi : i < g.blocks.length
  · obtain ⟨hexit, hinner⟩ := setAt_initialPostDominators hg hi
    by_cases hne : g.Exit i
    · rw [hexit hne] at hx
      exact List.mem_singleton.1 hx ▸ hi
    · rw [hinner hne] at hx
      exact List.mem_range.1 hx
  · rw [setAt, initialPostDominators, List.getElem?_eq_none (by simpa using hi)] at hx
    cases hx

/-- The initial sets can only shrink. -/
theorem initialPostDominators_descending :
    Descending (nextPostDominators g) (initialPostDominators g) := by
  refine ⟨fun i => ?_, fun i hi x hx => ?_⟩
  · by_cases hi : i < g.blocks.length
    · obtain ⟨hexit, hinner⟩ := setAt_initialPostDominators hg hi
      by_cases hne : g.Exit i
      · rw [hexit hne]
        exact List.pairwise_singleton _ _
      · rw [hinner hne]
        exact List.pairwise_lt_range
    · rw [setAt, initialPostDominators, List.getElem?_eq_none (by simpa using hi)]
      exact .nil
  · rw [initialPostDominators, List.length_map] at hi
    obtain ⟨hexit, hinner⟩ := setAt_initialPostDominators hg hi
    rw [mem_nextPostDominators hg hi] at hx
    obtain rfl | ⟨hne, hall⟩ := hx
    · by_cases hne : g.Exit x
      · rw [hexit hne]
        exact List.mem_singleton_self x
      · rw [hinner hne]
        exact List.mem_range.2 hi
    · rw [hinner hne, List.mem_range]
      have hsucc : ∃ s, g.Edge i s := by
        by_contra hno
        exact hne ⟨hi, not_exists.1 hno⟩
      obtain ⟨s, hs⟩ := hsucc
      exact lt_of_mem_initialPostDominators hg (hall s hs)

/-- The bound on the sweeps is large enough. -/
theorem postDominatorSets_stable : Stable (nextPostDominators g) (postDominatorSets g) := by
  refine sweepUntilStable_stable (nextPostDominators_monotonic g)
    (initialPostDominators_descending hg) ?_
  have hle : ∀ set ∈ initialPostDominators g, set.length ≤ g.blocks.length := by
    intro set hset
    obtain ⟨block, hblock, rfl⟩ := List.mem_map.1 hset
    split_ifs
    · exact List.length_pos_of_mem hblock
    · exact (List.length_range).le
  have hsize := totalSize_le hle
  rw [initialPostDominators, List.length_map] at hsize
  exact Nat.lt_succ_of_le hsize

/-- What a computed set says: the equations of post-dominance. -/
theorem mem_postDominatorSets {i x : ℕ} (hi : i < g.blocks.length) :
    x ∈ setAt (postDominatorSets g) i ↔
      x = i ∨ ¬ g.Exit i ∧ ∀ s, g.Edge i s → x ∈ setAt (postDominatorSets g) s := by
  have hstable := postDominatorSets_stable hg i ((length_postDominatorSets g).symm ▸ hi)
  rw [← mem_nextPostDominators hg hi, hstable]

/-- The sets hold ids of blocks. -/
theorem lt_of_mem_postDominatorSets {i x : ℕ} (hx : x ∈ setAt (postDominatorSets g) i) :
    x < g.blocks.length := by
  have hall := sweepUntilStable_induction (nextPostDominators g)
    (I := fun sets => sets.length = g.blocks.length ∧
      ∀ i, ∀ x ∈ setAt sets i, x < g.blocks.length)
    (fun sets ⟨hlen, hsets⟩ i hi => ⟨by rw [List.length_set, hlen], fun j x hx => ?_⟩)
    (sweepRounds g.blocks.length)
    (⟨by rw [initialPostDominators, List.length_map],
      fun i x hx => lt_of_mem_initialPostDominators hg hx⟩ :
      (initialPostDominators g).length = g.blocks.length ∧ _)
  · exact hall.2 i x hx
  · rw [setAt_set hi] at hx
    split_ifs at hx
    · rw [mem_nextPostDominators hg (hlen ▸ hi)] at hx
      obtain rfl | ⟨hne, hmem⟩ := hx
      · exact hlen ▸ hi
      · have hsucc : ∃ s, g.Edge i s := by
          by_contra hno
          exact hne ⟨hlen ▸ hi, not_exists.1 hno⟩
        obtain ⟨s, hs⟩ := hsucc
        exact hsets s x (hmem s hs)
    · exact hsets j x hx

/-- **Soundness.** A computed post-dominator lies on every path to an exit. -/
theorem onWaysOut_of_mem {d b : ℕ} (hd : d ∈ setAt (postDominatorSets g) b) : g.OnWaysOut d b := by
  intro p hp
  induction hp with
  | root hr =>
    rw [mem_postDominatorSets hg hr.1] at hd
    exact List.mem_singleton.2 (hd.resolve_right fun h => h.1 hr)
  | @step p a b _ hab ih =>
    have hab : g.Edge b a := hab
    rw [mem_postDominatorSets hg hab.lt] at hd
    obtain rfl | ⟨-, hall⟩ := hd
    · exact List.mem_cons_self
    · exact List.mem_cons_of_mem _ (ih (hall a hab))

/-- **Completeness.** A block on every path to an exit is a computed post-dominator. -/
theorem mem_of_onWaysOut {d b : ℕ} (hd : d < g.blocks.length) (hb : b < g.blocks.length)
    (h : g.OnWaysOut d b) : d ∈ setAt (postDominatorSets g) b := by
  refine sweepUntilStable_contains (nextPostDominators g)
    (T := fun i x => i < g.blocks.length ∧ x < g.blocks.length ∧ g.OnWaysOut x i)
    ?_ _ ?_ b d ⟨hb, hd, h⟩
  · rintro sets hsets i x ⟨hi, hx, hdom⟩
    rw [mem_nextPostDominators hg hi]
    by_cases hxi : x = i
    · exact .inl hxi
    · refine .inr ⟨fun hexit => hxi ?_, fun s hs => hsets s x ⟨hg.edge_lt hs, hx, fun p hp => ?_⟩⟩
      · exact List.mem_singleton.1 (hdom _ (.root hexit))
      · exact (List.mem_cons.1 (hdom _ (hp.step hs))).resolve_left hxi
  · rintro i x ⟨hi, hx, hdom⟩
    obtain ⟨hexit, hinner⟩ := setAt_initialPostDominators hg hi
    by_cases hne : g.Exit i
    · rw [hexit hne]
      exact hdom _ (.root hne)
    · rw [hinner hne]
      exact List.mem_range.2 hx

end

/-- The post-dominators that `ComputePostDominators` writes. -/
theorem computePostDominators_postDominators (graph : Graph) (i : ℕ) :
    (computePostDominators graph).blocks[i]? = (graph.blocks[i]?).bind fun block =>
      ((postDominatorSets graph)[i]?).map fun set => { block with postDominators := set } := by
  have hdef : (computePostDominators graph).blocks = List.zipWith
      (fun block set => { block with postDominators := set }) graph.blocks
        (postDominatorSets graph) := rfl
  rw [hdef, List.getElem?_zipWith]
  cases graph.blocks[i]? with
  | none => rfl
  | some block => cases (postDominatorSets graph)[i]? <;> rfl

/-- **ComputePostDominators.** The post-dominators of a block are the blocks on every path from
it to an exit. -/
theorem mem_postDominators_iff (hg : g.Linked) {i d : ℕ} {block : BasicBlock}
    (hi : (computePostDominators g).blocks[i]? = some block) :
    d ∈ block.postDominators ↔ d < g.blocks.length ∧ g.OnWaysOut d i := by
  rw [computePostDominators_postDominators] at hi
  obtain ⟨old, hold, hi⟩ := Option.bind_eq_some_iff.1 hi
  obtain ⟨set, hset, rfl⟩ := Option.map_eq_some_iff.1 hi
  have hlt := (List.getElem?_eq_some_iff.1 hold).1
  have heq : setAt (postDominatorSets g) i = set := by rw [setAt, hset, Option.getD_some]
  constructor
  · intro hd
    exact ⟨lt_of_mem_postDominatorSets hg (heq ▸ hd), onWaysOut_of_mem hg (heq ▸ hd)⟩
  · rintro ⟨hd, hdom⟩
    exact heq ▸ mem_of_onWaysOut hg hd hlt hdom

/-! ### Post-dominators in a built graph -/

/-- The post-dominators that `BuildGraph` leaves in a block. -/
theorem built_postDominators (h : buildGraph program = .ok g) {i d : ℕ} {block : BasicBlock}
    (hi : g.blocks[i]? = some block) :
    d ∈ block.postDominators ↔ d < g.blocks.length ∧ g.OnWaysOut d i := by
  obtain ⟨flow, hflow, -⟩ := bind_ok.1 h
  obtain ⟨base, hlinked, -, -, -, -, hblocks, -, -, hsame⟩ := buildGraph_analysed hflow h
  obtain ⟨hdomLinked, hdomEdge⟩ := linked_of_frame (computeDominators_frame base) hlinked
  have hlen : g.blocks.length = (computeDominators base).blocks.length := by
    have := congrArg List.length (computePostDominators_frame (computeDominators base))
    rw [List.length_map, List.length_map] at this
    rw [hblocks, this]
  have hways : g.OnWaysOut = (computeDominators base).OnWaysOut := by
    have hedge : g.Edge = (computeDominators base).Edge := hsame.trans hdomEdge.symm
    unfold Graph.OnWaysOut Graph.RevEdge Graph.Exit
    rw [hedge, hlen]
  rw [hblocks] at hi
  rw [hlen, hways]
  exact mem_postDominators_iff hdomLinked hi

/-- A block from which an exit can be reached. -/
def Graph.ReachesExit (graph : Graph) (b : ℕ) : Prop :=
  ∃ r, graph.Exit r ∧ ReflTransGen graph.Edge b r

/-- A common post-dominator. -/
def Graph.CommonOnWaysOut (graph : Graph) (a b d : ℕ) : Prop :=
  graph.OnWaysOut d a ∧ graph.OnWaysOut d b

/-- A common post-dominator that every common post-dominator post-dominates. -/
def Graph.NearestOnWaysOut (graph : Graph) (a b n : ℕ) : Prop :=
  graph.CommonOnWaysOut a b n ∧ ∀ d, graph.CommonOnWaysOut a b d → graph.OnWaysOut d n

/-- A block that reaches an exit has a way out, through blocks. -/
theorem Graph.ReachesExit.exists_path {b : ℕ} (h : g.ReachesExit b) :
    ∃ p, PathTo g.RevEdge g.Exit p b ∧ ∀ x ∈ p, x < g.blocks.length := by
  obtain ⟨r, hr, hbr⟩ := h
  have hrev : ReflTransGen g.RevEdge r b := reflTransGen_swap.2 hbr
  obtain ⟨p, hp⟩ := PathTo.of_reflTransGen hr hrev
  exact ⟨p, hp, hp.forall_mem (S := (· < g.blocks.length)) (fun r hr => hr.1) fun a b hab => hab.lt⟩

/-- **FindNearestCommonPostDominator is exact** on the blocks that reach an exit: `UINT32_MAX`
says that they have no common post-dominator, and otherwise the result is the only one that
all of them post-dominate. Ids are `uint32_t` values, so there are at most `UINT32_MAX` blocks. -/
theorem findNearestCommonPostDominator_exact (h : buildGraph program = .ok g)
    (hsize : g.blocks.length ≤ uint32Max) {a b : ℕ} (ha : g.ReachesExit a)
    (hb : g.ReachesExit b) :
    (g.findNearestCommonPostDominator a b = uint32Max ↔ ¬ ∃ d, g.CommonOnWaysOut a b d) ∧
      ((∃ d, g.CommonOnWaysOut a b d) →
        g.NearestOnWaysOut a b (g.findNearestCommonPostDominator a b) ∧
        ∀ n, g.NearestOnWaysOut a b n → n = g.findNearestCommonPostDominator a b) := by
  obtain ⟨flow, hflow, -⟩ := bind_ok.1 h
  obtain ⟨-, -, -, -, -, -, -, -, hlinked, -⟩ := buildGraph_analysed hflow h
  obtain ⟨p, hp, hblocks⟩ := ha.exists_path
  obtain ⟨q, hq, hblocks'⟩ := hb.exists_path
  obtain ⟨blockA, hfindA⟩ : ∃ block, g.blocks[a]? = some block :=
    ⟨_, List.getElem?_eq_getElem (hblocks a hp.end_mem)⟩
  obtain ⟨blockB, hfindB⟩ : ∃ block, g.blocks[b]? = some block :=
    ⟨_, List.getElem?_eq_getElem (hblocks' b hq.end_mem)⟩
  unfold Graph.findNearestCommonPostDominator
  rw [hlinked.positioned.findBlock, hlinked.positioned.findBlock, hfindA, hfindB]
  dsimp only
  -- the list of the common post-dominators
  have hcommon : ∀ d, d ∈ intersectSorted blockA.postDominators blockB.postDominators ↔ g.CommonOnWaysOut a b d := by
    intro d
    rw [mem_intersectSorted, built_postDominators h hfindA, built_postDominators h hfindB]
    exact ⟨fun hd => ⟨hd.1.2, hd.2.2⟩, fun hd =>
      ⟨⟨hblocks d (hd.1 p hp), hd.1⟩, ⟨hblocks d (hd.1 p hp), hd.2⟩⟩⟩
  generalize intersectSorted blockA.postDominators blockB.postDominators = common
    at hcommon ⊢
  have hlt : ∀ d, g.CommonOnWaysOut a b d → d < g.blocks.length := fun d hd => hblocks d (hd.1 p hp)
  -- what the search looks for
  have hnearest : ∀ c, g.CommonOnWaysOut a b c →
      ((common.all fun other => other == c || g.postDominates other c) = true ↔
        g.NearestOnWaysOut a b c) := by
    intro c hc
    have hblock := List.getElem?_eq_getElem (hlt c hc)
    rw [List.all_eq_true, Graph.NearestOnWaysOut, and_iff_right hc]
    refine forall_congr' fun d => ?_
    rw [hcommon]
    refine forall_congr' fun hd => ?_
    rw [Graph.postDominates, hlinked.positioned.findBlock, hblock, Bool.or_eq_true, beq_iff_eq,
      decide_eq_true_eq, built_postDominators h hblock, and_iff_right (hlt d hd)]
    exact or_iff_right_of_imp fun heq => heq ▸ Dominates.refl d
  have hunique : ∀ c n, g.NearestOnWaysOut a b c → g.NearestOnWaysOut a b n → n = c := by
    intro c n hc hn
    obtain ⟨-, r, -, hr, -⟩ := hp.split (hn.1.1 p hp)
    exact Dominates.antisymm (hc.2 n hn.1) (hn.2 c hc.1) hr
  cases hfound : common.find? fun candidate =>
      common.all fun other => other == candidate || g.postDominates other candidate with
  | some c =>
    have hc := (hcommon c).1 (List.mem_of_find?_eq_some hfound)
    have hpred := List.find?_some hfound
    have hnear := (hnearest c hc).1 hpred
    have hne : c ≠ uint32Max := by
      have := hlt c hc
      omega
    exact ⟨iff_of_false hne fun hnone => hnone ⟨c, hc⟩,
      fun _ => ⟨hnear, fun n hn => hunique c n hnear hn⟩⟩
  | none =>
    -- a common post-dominator would have a nearest one
    have hnil : common = [] := by
      by_contra hne
      obtain ⟨c, hc, hall⟩ := Dominates.exists_nearest hp hne fun x hx => ((hcommon x).1 hx).1
      have hnear : g.NearestOnWaysOut a b c :=
        ⟨(hcommon c).1 hc, fun d hd => hall d ((hcommon d).2 hd)⟩
      exact List.find?_eq_none.1 hfound c hc ((hnearest c hnear.1).2 hnear)
    subst hnil
    have hnone : ¬ ∃ d, g.CommonOnWaysOut a b d := fun ⟨d, hd⟩ =>
      List.not_mem_nil ((hcommon d).2 hd)
    exact ⟨iff_of_true rfl hnone, fun hex => absurd hex hnone⟩

/-- The search at work: in `skippedCode` the first two blocks meet in block 2. -/
theorem findNearestCommonPostDominator_exact_skippedCode : ∃ g, buildGraph skippedCode = .ok g ∧
    g.NearestOnWaysOut 0 1 2 := by
  have hbuilt : ∃ g, buildGraph skippedCode = .ok g ∧
      g.findNearestCommonPostDominator 0 1 = 2 ∧
      g.blocks.map BasicBlock.successors = [[2], [2], [3], []] := by
    refine ⟨((buildGraph skippedCode).toOption).getD {}, ?_, ?_, ?_⟩ <;> decide +kernel
  obtain ⟨g, hg, hfind, hsuccs⟩ := hbuilt
  have hlen : g.blocks.length = 4 := by simpa using congrArg List.length hsuccs
  have hedge := fun a b => edge_iff_of_successors (a := a) (b := b) hsuccs
  have hexit : g.Exit 3 := by
    refine ⟨hlen ▸ by decide, fun s hs => ?_⟩
    obtain ⟨l, hl, hs⟩ := (hedge 3 s).1 hs
    cases hl
    exact List.not_mem_nil hs
  have h02 : g.Edge 0 2 := (hedge 0 2).2 ⟨[2], rfl, by decide⟩
  have h12 : g.Edge 1 2 := (hedge 1 2).2 ⟨[2], rfl, by decide⟩
  have h23 : g.Edge 2 3 := (hedge 2 3).2 ⟨[3], rfl, by decide⟩
  obtain ⟨hnone, hnearest⟩ := findNearestCommonPostDominator_exact hg (hlen ▸ by decide)
    ⟨3, hexit, .tail (.single h02) h23⟩ ⟨3, hexit, .tail (.single h12) h23⟩
  rw [hfind] at hnone hnearest
  exact ⟨g, hg, (hnearest (not_not.1 (mt hnone.2 (by decide)))).1⟩

end Prosperismo.Cfg
