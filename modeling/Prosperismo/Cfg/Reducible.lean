import Prosperismo.Cfg.Built
import Prosperismo.Cfg.Tarjan

/-!
# The reducibility verdict

`BuildGraph` calls a graph irreducible when a strongly connected component is entered at
two blocks, and lists as back edges the edges whose target dominates their source. Both
are exact (`computeComponents_irreducible`, `mem_backEdges_iff`), and together they say
when the verdict is right (`verdictRight_iff`). A cycle that is entered at two blocks but
lies inside a loop with one entry is not seen, and neither is a cycle whose head is
bypassed by an edge from unreachable code.
-/

namespace Prosperismo.Cfg

open Relation

variable {g : Graph} {program : Program}

/-! ### The verdict on the components -/

/-- A set has two elements. -/
theorem one_lt_length_sortUnique {l : List ℕ} :
    1 < (sortUnique l).length ↔ ∃ a ∈ l, ∃ b ∈ l, a ≠ b := by
  have hnodup : (sortUnique l).Nodup := List.nodup_dedup _
  constructor
  · intro h
    refine ⟨(sortUnique l)[0], mem_sortUnique.1 (List.getElem_mem _), (sortUnique l)[1],
      mem_sortUnique.1 (List.getElem_mem _), fun heq => ?_⟩
    exact absurd (hnodup.getElem_inj_iff.1 heq) Nat.zero_ne_one
  · rintro ⟨a, ha, b, hb, hne⟩
    have hsub : [a, b].Subperm (sortUnique l) := by
      refine List.subperm_of_subset (by simpa using hne) fun x hx => mem_sortUnique.2 ?_
      rcases List.mem_cons.1 hx with rfl | hx
      · exact ha
      · rw [List.mem_singleton.1 hx]
        exact hb
    exact hsub.length_le

/-- The entries of the component of a class. -/
theorem mem_entries (hg : g.Linked) {v : ℕ} {members : List ℕ} (hclass : g.IsClass v members)
    {e : ℕ} : e ∈ members ∧ enteredFromOutside g (sortUnique members) e = true ↔
      EntersComponent g.Edge v e := by
  rw [hclass e]
  refine and_congr_right fun _ => ?_
  unfold enteredFromOutside
  rw [hg.positioned.findBlock]
  cases hblock : g.blocks[e]? with
  | none =>
    refine ⟨fun h => absurd h Bool.false_ne_true, ?_⟩
    rintro ⟨p, hp, -⟩
    rw [List.getElem?_eq_getElem (hg.edge_lt hp)] at hblock
    cases hblock
  | some block =>
    simp only [List.any_eq_true, Bool.not_eq_true', decide_eq_false_iff_not, mem_sortUnique,
      hg.predecessors e block hblock, hclass _]

/-- **The verdict on one component**: it is irreducible when it is entered at two blocks. -/
theorem componentOf_irreducible (hg : g.Linked) {v : ℕ} {members : List ℕ}
    (hclass : g.IsClass v members) :
    (componentOf g members).irreducible = true ↔
      ∃ e₁ e₂, e₁ ≠ e₂ ∧ EntersComponent g.Edge v e₁ ∧ EntersComponent g.Edge v e₂ := by
  have hentry : ∀ e, e ∈ (sortUnique members).filter
      (enteredFromOutside g (sortUnique members)) ↔ EntersComponent g.Edge v e := by
    intro e
    rw [List.mem_filter, mem_sortUnique, mem_entries hg hclass]
  unfold componentOf
  dsimp only
  rw [Bool.and_eq_true, decide_eq_true_eq]
  constructor
  · rintro ⟨-, hentries⟩
    obtain ⟨a, ha, b, hb, hne⟩ := one_lt_length_sortUnique.1 hentries
    exact ⟨a, b, hne, (hentry a).1 ha, (hentry b).1 hb⟩
  · rintro ⟨a, b, hne, ha, hb⟩
    refine ⟨?_, one_lt_length_sortUnique.2 ⟨a, (hentry a).2 ha, b, (hentry b).2 hb, hne⟩⟩
    -- two entries are two members
    rw [Bool.or_eq_true, decide_eq_true_eq, one_lt_length_sortUnique]
    exact .inl ⟨a, (hclass a).2 ha.1, b, (hclass b).2 hb.1, hne⟩

/-- **The verdict of ComputeComponents.** -/
theorem computeComponents_irreducible (hg : g.Linked) (hsize : g.blocks.length ≤ uint32Max) :
    (computeComponents g).irreducible = true ↔ TwoEntries g.Edge := by
  obtain ⟨hcomponents, hcovered⟩ := tarjanComponents_spec hg hsize
  have hfind : (computeComponents g).irreducible = true ↔
      ∃ c ∈ tarjanComponents g, c.irreducible = true := by
    unfold computeComponents
    dsimp only
    split
    · rename_i hnone
      rw [List.find?_eq_none] at hnone
      simpa using hnone
    · rename_i c hsome
      simp only [true_iff]
      exact ⟨c, List.mem_of_find?_eq_some hsome, List.find?_some hsome⟩
  rw [hfind]
  constructor
  · rintro ⟨c, hc, hirr⟩
    obtain ⟨v, members, -, rfl, hclass⟩ := hcomponents c hc
    obtain ⟨e₁, e₂, h⟩ := (componentOf_irreducible hg hclass).1 hirr
    exact ⟨v, e₁, e₂, h⟩
  · rintro ⟨v, e₁, e₂, hne, h₁, h₂⟩
    obtain ⟨p, hp, -⟩ := h₁.2
    obtain ⟨members, hmem, hclass⟩ := hcovered e₁ (hg.edge_lt hp)
    exact ⟨_, hmem, (componentOf_irreducible hg hclass).2
      ⟨e₁, e₂, hne, h₁.of_connected h₁.1, h₂.of_connected h₁.1⟩⟩

/-! ### The back edges -/

/-- The frame of a block keeps what the flow relation reads. -/
theorem linked_of_frame {g' : Graph}
    (h : g'.blocks.map BasicBlock.frame = g.blocks.map BasicBlock.frame) (hg : g.Linked) :
    g'.Linked ∧ g'.Edge = g.Edge := by
  have hedge : g'.Edge = g.Edge := by
    refine edgeIn_congr ?_
    have := congrArg (List.map BasicBlock.successors) h
    rwa [List.map_map, List.map_map] at this
  have hlen : g'.blocks.length = g.blocks.length := by simpa using congrArg List.length h
  have hget : ∀ (i : ℕ) (block' : BasicBlock), g'.blocks[i]? = some block' →
      ∃ block, g.blocks[i]? = some block ∧ block.frame = block'.frame := by
    intro i block' hi
    have := congrArg (·[i]?) h
    simp only [List.getElem?_map, hi, Option.map_some] at this
    exact Option.map_eq_some_iff.1 this.symm
  refine ⟨⟨fun i block' hi => ?_, fun block' hblock s hs => ?_, fun i block' hi p => ?_⟩, hedge⟩
  · obtain ⟨block, hblock, heq⟩ := hget i block' hi
    exact (congrArg BasicBlock.id heq).symm.trans (hg.positioned i block hblock)
  · obtain ⟨i, hi⟩ := List.getElem?_of_mem hblock
    obtain ⟨block, hblock, heq⟩ := hget i block' hi
    have hsuccs : block.successors = block'.successors := (congrArg BasicBlock.successors heq :)
    rw [hlen]
    exact hg.successors block (List.mem_of_getElem? hblock) s (hsuccs ▸ hs)
  · obtain ⟨block, hblock, heq⟩ := hget i block' hi
    have hpreds : block.predecessors = block'.predecessors :=
      (congrArg BasicBlock.predecessors heq :)
    rw [hedge, ← hpreds]
    exact hg.predecessors i block hblock p

/-- Post-dominators leave the dominators. -/
theorem computePostDominators_getElem? {i : ℕ} {block' : BasicBlock}
    (h : (computePostDominators g).blocks[i]? = some block') :
    ∃ block, g.blocks[i]? = some block ∧ block.dominators = block'.dominators := by
  unfold computePostDominators at h
  dsimp only at h
  generalize sweepUntilStable _ _ _ = sets at h
  rw [List.getElem?_zipWith] at h
  cases hblock : g.blocks[i]? with
  | none =>
    rw [hblock] at h
    cases h
  | some block =>
    cases hset : sets[i]? with
    | none =>
      rw [hblock, hset] at h
      cases h
    | some set =>
      rw [hblock, hset] at h
      cases h
      exact ⟨block, rfl, rfl⟩

/-- `Dominates` after the dominators and post-dominators. -/
theorem dominates_iff (hg : g.Linked) {d b : ℕ} (hb : b < g.blocks.length) :
    (computePostDominators (computeDominators g)).dominates d b = true ↔
      d < g.blocks.length ∧ Dominates g.Edge g.Root d b := by
  have hframe : (computePostDominators (computeDominators g)).blocks.map BasicBlock.frame =
      g.blocks.map BasicBlock.frame :=
    (computePostDominators_frame _).trans (computeDominators_frame g)
  have hlinked := (linked_of_frame hframe hg).1
  have hlt : b < (computePostDominators (computeDominators g)).blocks.length := by
    have := congrArg List.length hframe
    rw [List.length_map, List.length_map] at this
    exact this.symm ▸ hb
  have hblock := List.getElem?_eq_getElem hlt
  obtain ⟨block, hdom, heq⟩ := computePostDominators_getElem? hblock
  rw [Graph.dominates, hlinked.positioned.findBlock, hblock]
  dsimp only
  rw [decide_eq_true_eq, ← heq]
  exact mem_dominators_iff hg hdom

/-- **The back edges** are the edges whose target lies on every path to their source. -/
theorem mem_backEdges_iff (hg : g.Linked) {a b : ℕ} :
    (∃ edge ∈ (recomputeAnalyses g).backEdges, edge.source = a ∧ edge.target = b) ↔
      g.Edge a b ∧ Dominates g.Edge g.Root b a := by
  have hframe : (computePostDominators (computeDominators g)).blocks.map BasicBlock.frame =
      g.blocks.map BasicBlock.frame :=
    (computePostDominators_frame _).trans (computeDominators_frame g)
  obtain ⟨hlinked, hedge⟩ := linked_of_frame hframe hg
  rw [recomputeAnalyses, computeComponents_backEdges]
  set analysed := computePostDominators (computeDominators g) with hanalysed
  have hmem : (∃ edge ∈ (computeNaturalLoops (computeBackEdges analysed)).backEdges,
      edge.source = a ∧ edge.target = b) ↔
      ∃ block ∈ analysed.blocks, block.id = a ∧ b ∈ block.successors ∧
        analysed.dominates b block.id = true := by
    rw [computeNaturalLoops]
    constructor
    · rintro ⟨edge, hmem, rfl, rfl⟩
      obtain ⟨found, hfound, rfl⟩ := List.mem_map.1 hmem
      obtain ⟨block, hblock, hedges⟩ := List.mem_flatMap.1 hfound
      obtain ⟨succ, hsucc, rfl⟩ := List.mem_map.1 hedges
      obtain ⟨hsucc, hdom⟩ := List.mem_filter.1 hsucc
      exact ⟨block, hblock, rfl, hsucc, hdom⟩
    · rintro ⟨block, hblock, rfl, hsucc, hdom⟩
      refine ⟨_, List.mem_map.2 ⟨{ source := block.id, target := b, natural := true },
        List.mem_flatMap.2 ⟨block, hblock, List.mem_map.2 ⟨b, ?_, rfl⟩⟩, rfl⟩, rfl, rfl⟩
      exact List.mem_filter.2 ⟨hsucc, hdom⟩
  rw [hmem]
  constructor
  · rintro ⟨block, hblock, rfl, hsucc, hdom⟩
    obtain ⟨i, hi⟩ := List.getElem?_of_mem hblock
    have hid := hlinked.positioned i block hi
    have hab : g.Edge block.id b := hedge ▸ ⟨block, hid.symm ▸ hi, hsucc⟩
    exact ⟨hab, ((dominates_iff hg hab.lt).1 hdom).2⟩
  · rintro ⟨hab, hdom⟩
    have hab' : analysed.Edge a b := hedge.symm ▸ hab
    obtain ⟨block, hblock, hsucc⟩ := hab'
    have hid := hlinked.positioned a block hblock
    refine ⟨block, List.mem_of_getElem? hblock, hid, hsucc, ?_⟩
    rw [hid]
    exact (dominates_iff hg hab.lt).2 ⟨hg.edge_lt hab, hdom⟩

/-- The verdict after all analyses. -/
theorem recomputeAnalyses_irreducible (hg : g.Linked) (hsize : g.blocks.length ≤ uint32Max) :
    (recomputeAnalyses g).irreducible = true ↔ TwoEntries g.Edge := by
  have hframe : (computeNaturalLoops (computeBackEdges (computePostDominators
      (computeDominators g)))).blocks.map BasicBlock.frame = g.blocks.map BasicBlock.frame :=
    (computePostDominators_frame _).trans (computeDominators_frame g)
  obtain ⟨hlinked, hedge⟩ := linked_of_frame hframe hg
  have hlen := congrArg List.length hframe
  rw [List.length_map, List.length_map] at hlen
  rw [recomputeAnalyses, computeComponents_irreducible hlinked (hlen.symm ▸ hsize), hedge]

/-! ### The verdict on a program -/

/-- The edges that remain when the listed back edges are deleted. -/
def Graph.KeptEdge (graph : Graph) (a b : ℕ) : Prop :=
  graph.Edge a b ∧ ¬ ∃ edge ∈ graph.backEdges, edge.source = a ∧ edge.target = b

/-- A graph that is not marked irreducible has, in the part that the entry reaches, no
cycle without a back edge. -/
def Graph.VerdictRight (graph : Graph) : Prop :=
  graph.irreducible = false →
    ∀ x, ReflTransGen graph.Edge graph.entryBlock x → ¬ TransGen graph.KeptEdge x x

/-- Every cycle of blocks that the first block reaches has a block on all paths to the
cycle, from the first block and from the blocks without predecessors. -/
def CyclesHeaded (blocks : List BasicBlock) : Prop :=
  ∀ c, IsCycle (EdgeIn blocks) c → (∀ x ∈ c, ReflTransGen (EdgeIn blocks) 0 x) →
    ∃ d ∈ c, ∀ b ∈ c, Dominates (EdgeIn blocks) (RootIn blocks 0) d b

/-- Rebuilding the predecessors sorts the successors. -/
theorem rebuildPredecessors_edge (hpos : Positioned g.blocks) :
    (rebuildPredecessors g).Edge = g.Edge := by
  have hlen := rebuildPredecessors_length hpos
  have hsuccs : ∀ {i : ℕ} {block' block : BasicBlock},
      (rebuildPredecessors g).blocks[i]? = some block' → g.blocks[i]? = some block →
      ∀ s, s ∈ block'.successors ↔ s ∈ block.successors := by
    intro i block' block hblock' hblock s
    obtain ⟨old, hold, -, heq⟩ := rebuildPredecessors_getElem? hpos hblock'
    obtain rfl : old = block := Option.some_inj.1 (hold.symm.trans hblock)
    have hsorted : block'.successors = sortUnique old.successors :=
      congrArg BasicBlock.successors heq
    rw [hsorted, mem_sortUnique]
  refine funext₂ fun a b => propext ⟨?_, ?_⟩
  · rintro ⟨block', hblock', hb⟩
    obtain ⟨block, hblock, -⟩ := rebuildPredecessors_getElem? hpos hblock'
    exact ⟨block, hblock, (hsuccs hblock' hblock b).1 hb⟩
  · rintro ⟨block, hblock, hb⟩
    have hlt : a < (rebuildPredecessors g).blocks.length :=
      hlen.symm ▸ (List.getElem?_eq_some_iff.1 hblock).1
    have hblock' := List.getElem?_eq_getElem hlt
    exact ⟨_, hblock', (hsuccs hblock' hblock b).2 hb⟩

/-- The verdict of the analyses on a graph without two-entry components. -/
theorem recomputeAnalyses_verdictRight (hg : g.Linked)
    (hreducible : (recomputeAnalyses g).irreducible = false) :
    (recomputeAnalyses g).VerdictRight ↔
      ∀ c, IsCycle g.Edge c → (∀ x ∈ c, ReflTransGen g.Edge g.entryBlock x) →
        ∃ d ∈ c, ∀ b ∈ c, Dominates g.Edge g.Root d b := by
  have hedge := (linked_of_frame (recomputeAnalyses_frame g) hg).2
  have hkept : (recomputeAnalyses g).KeptEdge = ForwardEdge g.Edge g.Root := by
    refine funext₂ fun a b => propext ?_
    rw [Graph.KeptEdge, ForwardEdge, mem_backEdges_iff hg, hedge]
    tauto
  have hentry : (recomputeAnalyses g).entryBlock = g.entryBlock := recomputeAnalyses_entryBlock g
  rw [Graph.VerdictRight, hedge, hkept, hentry, ← acyclic_iff_cycles_headed
    fun a b ha hab => ReflTransGen.tail ha hab]
  exact forall_prop_of_true hreducible

/-- **When the verdict is right.** The graph that `BuildGraph` returns for a decoded program
either is not wrongly called reducible, or is marked irreducible: because of a jump table,
or of a strongly connected component with two entries. A cycle without a head inside a
component with one entry is what the verdict misses. -/
theorem verdictRight_iff (hdecoded : program.Decoded) {flow : FlowGraph}
    (hflow : flowGraph program = .ok flow) (h : buildGraph program = .ok g) :
    g.VerdictRight ↔
      flow.indirectSetpc = true ∨ TwoEntries (EdgeIn flow.blocks) ∨ CyclesHeaded flow.blocks := by
  obtain rfl : finishGraph flow.indirectSetpc (recomputeAnalyses (rebuildPredecessors flow.graph))
      = g := by
    rw [buildGraph, hflow] at h
    exact Except.ok.inj h
  obtain ⟨htrue, hfalse, hsame⟩ := finishGraph_spec
    (recomputeAnalyses (rebuildPredecessors flow.graph))
  cases hindirect : flow.indirectSetpc with
  | true =>
    exact iff_of_true (fun hreducible => absurd (htrue.symm.trans hreducible) (by decide))
      (.inl rfl)
  | false =>
    obtain ⟨hsound, hlen⟩ := flowGraph_sound hflow hindirect
    have hlinked := rebuildPredecessors_linked hsound
    have hedge : (rebuildPredecessors flow.graph).Edge = EdgeIn flow.blocks :=
      rebuildPredecessors_edge hsound.positioned
    have hcount : (rebuildPredecessors flow.graph).blocks.length = flow.blocks.length :=
      rebuildPredecessors_length hsound.positioned
    have hroot : (rebuildPredecessors flow.graph).Root = RootIn flow.blocks 0 := by
      refine funext fun r => propext (and_congr (by rw [hcount]) (or_congr Iff.rfl ?_))
      exact forall_congr' fun p => by rw [← hedge]; rfl
    have hverdict : (recomputeAnalyses (rebuildPredecessors flow.graph)).irreducible = true ↔
        TwoEntries (EdgeIn flow.blocks) := by
      rw [← hedge]
      refine recomputeAnalyses_irreducible hlinked ?_
      have hle := hdecoded.length_le
      have hsize := hdecoded.size
      unfold uint32Max
      omega
    by_cases htwo : TwoEntries (EdgeIn flow.blocks)
    · refine iff_of_true (fun hreducible => ?_) (.inr (.inl htwo))
      rw [hfalse, hverdict.2 htwo] at hreducible
      cases hreducible
    · have hreducible := Bool.eq_false_iff.2 (mt hverdict.1 htwo)
      rw [hsame hreducible, recomputeAnalyses_verdictRight hlinked hreducible, hedge, hroot]
      exact ⟨fun hheaded => .inr (.inr hheaded),
        fun hright => (hright.resolve_left Bool.false_ne_true).resolve_left htwo⟩

/-- A loop with one entry around a cycle with two:

    0: v_op
    4: s_cbranch_scc0 12
    8: v_op
    12: s_cbranch_scc0 8
    16: s_cbranch_scc0 4
    20: s_endpgm -/
def nestedEntries : Program where
  code := List.replicate 6 0
  instructions :=
    [{ pc := 0 },
      { pc := 4, opcode := .sCbranchScc0, branchTarget := 12 },
      { pc := 8 },
      { pc := 12, opcode := .sCbranchScc0, branchTarget := 8 },
      { pc := 16, opcode := .sCbranchScc0, branchTarget := 4 },
      { pc := 20, opcode := .sEndpgm }]

theorem nestedEntries_decoded : nestedEntries.Decoded where
  size := by decide
  start := by decide
  next := by decide
  words := by decide

/-- The graph of `nestedEntries`: blocks 2 and 3 form a cycle that block 1 enters at both,
and the only back edge is the one of the outer loop. -/
theorem nestedEntries_graph : ∃ g, buildGraph nestedEntries = .ok g ∧ g.irreducible = false ∧
    g.entryBlock = 0 ∧
    g.blocks.map BasicBlock.successors = [[1], [2, 3], [3], [2, 4], [1, 5], [6], []] ∧
    g.backEdges.map (fun edge => (edge.source, edge.target)) = [(4, 1)] := by
  refine ⟨((buildGraph nestedEntries).toOption).getD {}, ?_, ?_, ?_, ?_, ?_⟩ <;> decide +kernel

/-- The verdict on `nestedEntries` is wrong. -/
theorem nestedEntries_wrong : ∃ g, buildGraph nestedEntries = .ok g ∧ ¬ g.VerdictRight := by
  obtain ⟨g, hg, hreducible, hentry, hsuccs, hback⟩ := nestedEntries_graph
  refine ⟨g, hg, fun hright => ?_⟩
  have hedge : ∀ a b succs, [[1], [2, 3], [3], [2, 4], [1, 5], [6], []][a]? = some succs →
      b ∈ succs → g.Edge a b := by
    intro a b succs ha hb
    rw [← hsuccs, List.getElem?_map] at ha
    obtain ⟨block, hblock, rfl⟩ := Option.map_eq_some_iff.1 ha
    exact ⟨block, hblock, hb⟩
  have hkept : ∀ a b, g.Edge a b → b ≠ 1 → g.KeptEdge a b := by
    refine fun a b hab hb => ⟨hab, ?_⟩
    rintro ⟨edge, hedge', rfl, rfl⟩
    have hmem := List.mem_map_of_mem (f := fun edge : BackEdge => (edge.source, edge.target)) hedge'
    rw [hback, List.mem_singleton] at hmem
    exact hb (congrArg Prod.snd hmem)
  have h23 := hkept 2 3 (hedge 2 3 [3] rfl (by decide)) (by decide)
  have h32 := hkept 3 2 (hedge 3 2 [2, 4] rfl (by decide)) (by decide)
  have hreach : ReflTransGen g.Edge g.entryBlock 2 := by
    rw [hentry]
    exact .tail (.single (hedge 0 1 [1] rfl (by decide))) (hedge 1 2 [2, 3] rfl (by decide))
  exact hright hreducible 2 hreach (.tail (.single h23) h32)

/-- The verdict is not right for every program. -/
theorem verdict_misses_nestedEntries : ¬ ∀ (program : Program) (g : Graph), program.Decoded →
    buildGraph program = .ok g → g.VerdictRight := by
  intro hall
  obtain ⟨g, hg, hwrong⟩ := nestedEntries_wrong
  exact hwrong (hall nestedEntries g nestedEntries_decoded hg)

/-- The condition at work: `nestedEntries` has a cycle without a head. -/
theorem verdictRight_iff_nestedEntries : ∃ flow, flowGraph nestedEntries = .ok flow ∧
    ¬ CyclesHeaded flow.blocks := by
  obtain ⟨g, hg, hwrong⟩ := nestedEntries_wrong
  have hflow : ∃ flow, flowGraph nestedEntries = .ok flow := by
    refine ⟨(flowGraph nestedEntries).toOption.getD ⟨[], [], false⟩, ?_⟩
    decide +kernel
  obtain ⟨flow, hflow⟩ := hflow
  exact ⟨flow, hflow, fun hheaded =>
    hwrong ((verdictRight_iff nestedEntries_decoded hflow hg).2 (.inr (.inr hheaded)))⟩

end Prosperismo.Cfg
