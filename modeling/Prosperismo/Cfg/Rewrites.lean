import Prosperismo.Cfg.Moves

/-!
# The rewrites keep the runs

Each rewrite of `Structurize` turns a sound graph into a sound graph that executes the
same sequences (`Rewritten`):

* a forwarder is appended and edges to its target are redirected to it (joined latches,
  split headers, shared merge blocks);
* a selection region is duplicated, with a private merge block.

`π` sends a forwarder to its target and a clone to its original.
-/

namespace Prosperismo.Cfg

variable {g g' g'' : Graph}

/-- `g'` is sound, executes what `g` does, and has one more block or at most `budget`. -/
structure Rewritten (budget : ℕ) (g g' : Graph) : Prop where
  sound : g'.Sound
  runs : SameRuns g g'
  length : g'.blocks.length ≤ max (g.blocks.length + 1) budget

/-- Rebuilding the predecessors and the analyses at the end of a rewrite. -/
theorem Rewritten.recompute {budget : ℕ} (h : Rewritten budget g g') :
    Rewritten budget g (recomputeAnalyses (rebuildPredecessors g')) := by
  have hrec := recompute_reshaped id h.sound
  refine ⟨hrec.sound, h.runs.trans ?_, hrec.length ▸ h.length⟩
  refine sameRuns_of_nodes h.sound.positioned hrec.sound.positioned ?_ hrec.entry
  have hnodes := congrArg (List.map Prod.snd) hrec.shape
  simp only [Graph.shape, List.map_map] at hnodes
  refine Eq.trans ?_ (hnodes.trans ?_)
  · exact List.map_congr_left fun b _ => (FlowNode.map_eq_self fun _ _ => rfl).symm
  · exact List.map_congr_left fun b _ => FlowNode.map_eq_self fun _ _ => rfl

/-- Moving blocks at the end of a rewrite. -/
theorem Rewritten.moved {budget : ℕ} (h : Rewritten budget g g') (h' : Moved g' g'') :
    Rewritten budget g g'' :=
  ⟨h'.sound, h.runs.trans h'.runs, h'.length ▸ h.length⟩

/-- A rewrite tried on the elements of a list. -/
theorem tryEach_eq_some {α β : Type} {rewrite : α → Option β} {as : List α} {b : β}
    (h : tryEach rewrite as = some b) : ∃ a ∈ as, rewrite a = some b := by
  induction as with
  | nil => cases h
  | cons a as ih =>
    rw [tryEach] at h
    split at h
    · rename_i b' hb'
      exact ⟨a, List.mem_cons_self, hb'.trans h⟩
    · obtain ⟨a', ha', hb⟩ := ih h
      exact ⟨a', List.mem_cons_of_mem _ ha', hb⟩

/-! ### One forwarder -/

/-- The forwarder `n` stands for its target. -/
def forwardTo (n target x : ℕ) : ℕ := if x = n then target else x

theorem forwardTo_self (n target : ℕ) : forwardTo n target n = target := if_pos rfl

theorem forwardTo_of_lt {n target x : ℕ} (h : x < n) : forwardTo n target x = x :=
  if_neg h.ne

/-- A graph to which a forwarder was appended, with edges redirected to it. -/
theorem sameRuns_of_forwarder (hg : g.Sound) {target : ℕ} (ht : target < g.blocks.length)
    (hsound : g'.Sound)
    (hshape : g'.shape (forwardTo g.blocks.length target) =
      (appendSyntheticBranchBlock g target).shape (forwardTo g.blocks.length target))
    (hkept : (g'.blocks[g.blocks.length]?).map BasicBlock.node = some (.forward target))
    (hentry : forwardTo g.blocks.length target g'.entryBlock = g.entryBlock) :
    SameRuns g g' := by
  refine sameRuns_of_cover hg hsound (fun x hx => forwardTo_of_lt hx) ?_ hentry
  intro i block' hi
  have hget := congrArg (·[i]?) hshape
  simp only [Graph.shape, List.getElem?_map, hi, Option.map_some] at hget
  obtain ⟨block, hblock, heq⟩ := Option.map_eq_some_iff.1 hget.symm
  by_cases hlt : i < g.blocks.length
  · rw [appendSyntheticBranchBlock, List.getElem?_append_left hlt] at hblock
    refine .inl ⟨block, by rwa [forwardTo_of_lt hlt], ?_⟩
    refine (Prod.mk.inj heq).2.symm.trans (FlowNode.map_eq_self fun t htt => ?_)
    exact forwardTo_of_lt ((hg.within block (List.mem_of_getElem? hblock)).targets t htt)
  · have hle := (List.getElem?_eq_some_iff.1 hblock).1
    rw [appendSyntheticBranchBlock_length] at hle
    obtain rfl : i = g.blocks.length := by omega
    rw [hi, Option.map_some, Option.some_inj] at hkept
    rw [forwardTo_self]
    exact .inr ⟨le_rfl, ht, hkept⟩

/-- The appended forwarder. -/
theorem appendSyntheticBranchBlock_getElem? (target : ℕ) :
    (appendSyntheticBranchBlock g target).blocks[g.blocks.length]? =
      some (syntheticBranchBlock g target) := by
  rw [appendSyntheticBranchBlock, List.getElem?_concat_length]

/-- Redirecting edges of old blocks to the new forwarder. -/
theorem redirected_forwarder (hg : g.Sound) {target : ℕ} (ht : target < g.blocks.length)
    (ids : List ℕ) (hids : ∀ id ∈ ids, id < g.blocks.length) :
    Reshaped (forwardTo g.blocks.length target) (appendSyntheticBranchBlock g target)
        (redirectBlocks (appendSyntheticBranchBlock g target) ids target g.blocks.length) ∧
      ((redirectBlocks (appendSyntheticBranchBlock g target) ids target
        g.blocks.length).blocks[g.blocks.length]?).map BasicBlock.node =
          some (.forward target) := by
  have happend := appendSyntheticBranchBlock_sound hg ht
  have hlen := appendSyntheticBranchBlock_length (g := g) target
  have hharmless : Harmless (forwardTo g.blocks.length target) (g.blocks.length + 1)
      (redirectBlock target g.blocks.length) :=
    harmless_redirect (by rw [forwardTo_self, forwardTo_of_lt ht]) (Nat.lt_succ_self _)
  refine ⟨hharmless.reshaped_foldl happend hlen ids, ?_⟩
  rw [redirectBlocks, getElem?_foldl_modifyBlock hharmless happend hlen
    fun h => (hids _ h).ne rfl, appendSyntheticBranchBlock_getElem?, Option.map_some,
    node_syntheticBranchBlock]

/-- A forwarder rewrite, with the entry sent through the forwarder or not. -/
theorem rewritten_of_forwarder (budget : ℕ) (hg : g.Sound) {target : ℕ}
    (ht : target < g.blocks.length) {r : Graph}
    (hreshaped : Reshaped (forwardTo g.blocks.length target)
      (appendSyntheticBranchBlock g target) r)
    (hkept : (r.blocks[g.blocks.length]?).map BasicBlock.node = some (.forward target))
    (entry : ℕ) (hlt : entry < g.blocks.length + 1)
    (hentry : forwardTo g.blocks.length target entry = g.entryBlock) :
    Rewritten budget g { r with entryBlock := entry } := by
  have hlen : r.blocks.length = g.blocks.length + 1 := by
    rw [hreshaped.length, appendSyntheticBranchBlock_length]
  have hsound : ({ r with entryBlock := entry } : Graph).Sound :=
    ⟨hreshaped.sound.positioned, hreshaped.sound.within, hlen.symm ▸ hlt,
      hreshaped.sound.edges, hreshaped.sound.loops⟩
  exact ⟨hsound, sameRuns_of_forwarder hg ht hsound hreshaped.shape hkept hentry,
    hlen.trans_le (le_max_left _ _)⟩

/-! ### Loop canonicalization -/

/-- A latch is the source of a back edge. -/
theorem mem_latchesOf {header latch : ℕ} (h : latch ∈ latchesOf g header) :
    ∃ edge ∈ g.backEdges, edge.source = latch := by
  have hfold : ∀ (edges : List BackEdge) (acc : List ℕ),
      latch ∈ edges.foldl (fun latches edge =>
        if edge.target = header then addUnique latches edge.source else latches) acc →
      latch ∈ acc ∨ ∃ edge ∈ edges, edge.source = latch := by
    intro edges
    induction edges with
    | nil => exact fun acc h => .inl h
    | cons edge edges ih =>
      intro acc h
      rcases ih _ h with hacc | ⟨e, he, heq⟩
      · dsimp only at hacc
        split_ifs at hacc
        · rcases mem_addUnique.1 hacc with hacc | rfl
          · exact .inl hacc
          · exact .inr ⟨edge, List.mem_cons_self, rfl⟩
        · exact .inl hacc
      · exact .inr ⟨e, List.mem_cons_of_mem _ he, heq⟩
  exact (hfold _ _ h).resolve_left (by simp)

/-- **Joining the latches** of a loop keeps the runs. -/
theorem joinLatches_rewritten (budget : ℕ) (hg : g.Sound) {loop : NaturalLoop}
    (hloop : loop ∈ g.naturalLoops) (h : joinLatches g loop = some g') :
    Rewritten budget g g' := by
  unfold joinLatches at h
  simp only at h
  split_ifs at h
  obtain rfl := Option.some_inj.1 h
  have hheader := hg.loops loop hloop
  obtain ⟨hreshaped, hkept⟩ := redirected_forwarder hg hheader
    (latchesOf g loop.header) fun latch hlatch => by
      obtain ⟨edge, hedge, rfl⟩ := mem_latchesOf hlatch
      exact (hg.edges edge hedge).1
  have hentry : (redirectBlocks (appendSyntheticBranchBlock g loop.header)
      (latchesOf g loop.header) loop.header g.blocks.length).entryBlock = g.entryBlock :=
    hreshaped.entry
  exact (rewritten_of_forwarder budget hg hheader hreshaped hkept _
    (hentry.symm ▸ Nat.lt_succ_of_lt hg.entry)
    (hentry.symm ▸ forwardTo_of_lt hg.entry)).recompute

/-- **Splitting a header** keeps the runs. -/
theorem splitHeader_rewritten (budget : ℕ) (hg : g.Sound)
    (hsize : g.blocks.length + 1 ≤ uint32Max) {loop : NaturalLoop}
    (hloop : loop ∈ g.naturalLoops) (h : splitHeader g loop = some g') :
    Rewritten budget g g' := by
  unfold splitHeader at h
  rw [hg.positioned.findBlock] at h
  split at h
  · cases h
  · rename_i header hheader
    dsimp only at h
    rw [ite_eq_iff] at h
    obtain ⟨-, h⟩ := h.resolve_left fun h => by cases h.2
    obtain rfl := Option.some_inj.1 h
    have hlt := hg.loops loop hloop
    have hwithin := hg.within header (List.mem_of_getElem? hheader)
    obtain ⟨hreshaped, hkept⟩ := redirected_forwarder hg hlt header.predecessors
      hwithin.predecessors
    have hentry : (redirectBlocks (appendSyntheticBranchBlock g loop.header)
        header.predecessors loop.header g.blocks.length).entryBlock = g.entryBlock :=
      hreshaped.entry
    -- the header's edges now enter the forwarder, and so does the entry
    have hrewritten := rewritten_of_forwarder budget hg hlt hreshaped hkept
      (if g.entryBlock = loop.header then g.blocks.length else g.entryBlock)
      (by have := hg.entry; split_ifs <;> omega)
      (by
        split_ifs with heq
        · rw [forwardTo_self, heq]
        · exact forwardTo_of_lt hg.entry)
    rw [hentry]
    refine (hrewritten.moved (moveBlockBefore_moved hrewritten.sound ?_ _ _)).recompute
    exact (hreshaped.length.trans (appendSyntheticBranchBlock_length _)).trans_le hsize

/-- One round of the canonicalization. -/
theorem canonicalizeOnce_rewritten (budget : ℕ) (hg : g.Sound)
    (hsize : g.blocks.length + 1 ≤ uint32Max) (h : canonicalizeOnce g = some g') :
    Rewritten budget g g' := by
  unfold canonicalizeOnce at h
  split at h
  · rename_i joined hjoined
    obtain rfl := Option.some_inj.1 h
    obtain ⟨loop, hloop, hjoin⟩ := tryEach_eq_some hjoined
    exact joinLatches_rewritten budget hg hloop hjoin
  · obtain ⟨loop, hloop, hsplit⟩ := tryEach_eq_some h
    exact splitHeader_rewritten budget hg hsize hloop hsplit

end Prosperismo.Cfg
