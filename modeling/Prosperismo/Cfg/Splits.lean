import Prosperismo.Cfg.Rewrites

/-!
# Splitting merge blocks and duplicating regions keep the runs

The rewrites of `SplitSharedMergeBlocks`: a shared merge block gets a forwarder of its
own for the predecessors inside the construct, and a selection region with outside
entries is cloned.
-/

namespace Prosperismo.Cfg

variable {g g' : Graph}

/-! ### Shared merge blocks -/

theorem mem_foldl_removeValue {removed values : List ℕ} {x : ℕ}
    (h : x ∈ removed.foldl removeValue values) : x ∈ values := by
  induction removed generalizing values with
  | nil => exact h
  | cons value removed ih => exact (List.mem_filter.1 (ih h)).1

/-- The edit of a split keeps the runs when old blocks are redirected. -/
theorem splitPredecessors_rewritten (budget : ℕ) (hg : g.Sound)
    (hsize : g.blocks.length + 1 ≤ uint32Max) {merge : ℕ} (hlt : merge < g.blocks.length)
    {preds : List ℕ} (hpreds : ∀ pred ∈ preds, pred < g.blocks.length) :
    Rewritten budget g (splitPredecessors g merge preds) := by
  have happend := appendSyntheticBranchBlock_sound hg hlt
  have hlen := appendSyntheticBranchBlock_length (g := g) merge
  -- the forwarder gets its predecessors
  have hown : Harmless (forwardTo g.blocks.length merge) (g.blocks.length + 1)
      (fun block => { block with predecessors := sortUnique preds }) :=
    harmless_predecessors fun _ _ p hp =>
      Nat.lt_succ_of_lt (hpreds p (mem_sortUnique.1 hp))
  have happended := hown.reshaped happend hlen g.blocks.length
  have hlen' := happended.length.trans hlen
  -- the predecessors are redirected to it
  have hredirect : Harmless (forwardTo g.blocks.length merge) (g.blocks.length + 1)
      (redirectBlock merge g.blocks.length) :=
    harmless_redirect (by rw [forwardTo_self, forwardTo_of_lt hlt]) (Nat.lt_succ_self _)
  have hredirected := hredirect.reshaped_foldl happended.sound hlen' preds
  -- the merge block loses them
  have hdetach : Harmless (forwardTo g.blocks.length merge) (g.blocks.length + 1)
      (fun block => { block with
        predecessors := sortUnique (addUnique (preds.foldl removeValue block.predecessors)
          g.blocks.length) }) :=
    harmless_predecessors fun block hblock p hp => by
      rcases mem_addUnique.1 (mem_sortUnique.1 hp) with hp | rfl
      · exact hblock p (mem_foldl_removeValue hp)
      · exact Nat.lt_succ_self _
  have hdetached := hdetach.reshaped hredirected.sound (hredirected.length.trans hlen') merge
  have hreshaped := (happended.trans hredirected).trans hdetached
  have hrewritten := rewritten_of_forwarder budget hg hlt hreshaped
    ?_ g.entryBlock (Nat.lt_succ_of_lt hg.entry) (forwardTo_of_lt hg.entry)
  · have hsame : ∀ r : Graph, r.entryBlock = g.entryBlock →
        { r with entryBlock := g.entryBlock } = r := by
      intro r hr
      rw [← hr]
    rw [hsame _ hreshaped.entry] at hrewritten
    refine hrewritten.moved (moveBlockBefore_moved hrewritten.sound ?_ _ _)
    rw [hreshaped.length, hlen]
    exact hsize
  · rw [getElem?_modifyBlock hredirected.sound hlt.ne',
      getElem?_foldl_modifyBlock hredirect happended.sound hlen' fun h => (hpreds _ h).ne rfl,
      getElem?_modifyBlock_self happend, appendSyntheticBranchBlock_getElem?]
    exact congrArg some (node_syntheticBranchBlock merge)

/-- **Splitting a shared merge block** keeps the runs. -/
theorem splitSharedMergeBlock_rewritten (budget : ℕ) (hg : g.Sound)
    (hsize : g.blocks.length + 1 ≤ uint32Max) {merge : ℕ} {constructBlocks : List ℕ}
    {forceSplit : Bool} (h : splitSharedMergeBlock g merge constructBlocks forceSplit = some g') :
    Rewritten budget g g' := by
  unfold splitSharedMergeBlock at h
  rw [ite_eq_iff] at h
  obtain ⟨hmerge, h⟩ := h.resolve_left fun h => by cases h.2
  have hlt : merge < g.blocks.length := by
    simp only [not_or] at hmerge
    omega
  rw [hg.positioned.findBlock, List.getElem?_eq_getElem hlt] at h
  dsimp only at h
  rw [ite_eq_iff] at h
  obtain ⟨-, h⟩ := h.resolve_left fun h => by cases h.2
  rw [ite_eq_iff] at h
  obtain ⟨-, h⟩ := h.resolve_left fun h => by cases h.2
  obtain rfl := Option.some_inj.1 h
  refine splitPredecessors_rewritten budget hg hsize hlt fun pred hpred => ?_
  -- only predecessors of the merge block are redirected
  simp only [mem_foldl_addUnique, List.mem_filter, List.not_mem_nil, false_or] at hpred
  exact (hg.within _ (List.getElem_mem hlt)).predecessors pred hpred.1.1

/-! ### Duplicated regions -/

section Clones

variable {clonedBlocks : List ℕ} {n merge : ℕ}

/-- The clone of the block at a position of the list. -/
theorem cloneOf_of_getElem? (hnodup : clonedBlocks.Nodup) {i c : ℕ}
    (hi : clonedBlocks[i]? = some c) : cloneOf clonedBlocks n c = n + i := by
  obtain ⟨hlt, rfl⟩ := List.getElem?_eq_some_iff.1 hi
  have hidx : clonedBlocks.idxOf? clonedBlocks[i] = some i := by
    rw [List.idxOf?, List.findIdx?_eq_some_iff_getElem]
    refine ⟨hlt, beq_self_eq_true _, fun j hj => ?_⟩
    rw [beq_iff_eq]
    exact fun h => hj.ne (hnodup.getElem_inj_iff.1 h)
  rw [cloneOf, hidx]

/-- A target is sent to a clone of it, or stays. -/
theorem cloneOf_cases (clonedBlocks : List ℕ) (n t : ℕ) :
    (∃ i, clonedBlocks[i]? = some t ∧ cloneOf clonedBlocks n t = n + i) ∨
      cloneOf clonedBlocks n t = t := by
  unfold cloneOf
  split
  · rename_i i hi
    rw [List.idxOf?, List.findIdx?_eq_some_iff_getElem] at hi
    obtain ⟨hlt, heq, -⟩ := hi
    exact .inl ⟨i, by rw [List.getElem?_eq_getElem hlt, beq_iff_eq.1 heq], rfl⟩
  · exact .inr rfl

/-- The clones stand for their originals, the private merge block for the merge block. -/
def originalOf (n : ℕ) (clonedBlocks : List ℕ) (merge x : ℕ) : ℕ :=
  if x < n then x else (clonedBlocks[x - n]?).getD merge

theorem originalOf_of_lt {x : ℕ} (h : x < n) : originalOf n clonedBlocks merge x = x :=
  if_pos h

theorem originalOf_clone {i c : ℕ} (hi : clonedBlocks[i]? = some c) :
    originalOf n clonedBlocks merge (n + i) = c := by
  rw [originalOf, if_neg (by omega), Nat.add_sub_cancel_left, hi, Option.getD_some]

theorem originalOf_privateMerge :
    originalOf n clonedBlocks merge (n + clonedBlocks.length) = merge := by
  rw [originalOf, if_neg (by omega), Nat.add_sub_cancel_left,
    List.getElem?_eq_none le_rfl, Option.getD_none]

/-- Remapping the targets to clones is harmless. -/
theorem harmless_remapToClones (merge : ℕ) (hlt : ∀ c ∈ clonedBlocks, c < n) {m : ℕ}
    (hm : n + clonedBlocks.length ≤ m) :
    Harmless (originalOf n clonedBlocks merge) m (remapToClones clonedBlocks n) := by
  refine harmless_remap (fun t => ?_) fun t ht => ?_
  · rcases cloneOf_cases clonedBlocks n t with ⟨i, hi, heq⟩ | heq
    · rw [heq, originalOf_clone hi, originalOf_of_lt (hlt t (List.mem_of_getElem? hi))]
    · rw [heq]
  · rcases cloneOf_cases clonedBlocks n t with ⟨i, hi, heq⟩ | heq
    · have := (List.getElem?_eq_some_iff.1 hi).1
      omega
    · rwa [heq]

/-- `g'` is `g` with the clones of the first `k` listed blocks behind it. -/
structure Cloned (g : Graph) (clonedBlocks : List ℕ) (k : ℕ) (g' : Graph) : Prop where
  sound : g'.Sound
  length : g'.blocks.length = g.blocks.length + k
  entry : g'.entryBlock = g.entryBlock
  old : ∀ i < g.blocks.length, g'.blocks[i]? = g.blocks[i]?
  clone : ∀ i < k, ∃ c block block', clonedBlocks[i]? = some c ∧ g.blocks[c]? = some block ∧
    g'.blocks[g.blocks.length + i]? = some block' ∧ block'.node = block.node

/-- One more clone. -/
theorem Cloned.step {c k : ℕ} (h : Cloned g clonedBlocks k g') (hg : g.Sound)
    (hnodup : clonedBlocks.Nodup) (hc : clonedBlocks[k]? = some c) (hlt : c < g.blocks.length) :
    Cloned g clonedBlocks (k + 1) (appendClone clonedBlocks g.blocks.length g' c) := by
  have hblock := List.getElem?_eq_getElem hlt
  have hwithin := hg.within _ (List.getElem_mem hlt)
  unfold appendClone
  rw [h.sound.positioned.findBlock, h.old c hlt, hblock, cloneOf_of_getElem? hnodup hc]
  refine ⟨h.sound.append h.length.symm ?_, ?_, h.entry, fun i hi => ?_, fun i hi => ?_⟩
  · have hle : g.blocks.length ≤ g'.blocks.length + 1 := by rw [h.length]; omega
    exact ⟨fun t ht => (hwithin.targets t ht).trans_le hle, hwithin.direct,
      fun s hs => (hwithin.successors s hs).trans_le hle, by simp [cloneBlock]⟩
  · rw [List.length_append, List.length_singleton, h.length, Nat.add_assoc]
  · rw [List.getElem?_append_left (by rw [h.length]; omega), h.old i hi]
  · rcases Nat.lt_succ_iff_lt_or_eq.1 hi with hi | rfl
    · obtain ⟨c', b, b', hc', hb, hb', hnode⟩ := h.clone i hi
      refine ⟨c', b, b', hc', hb, ?_, hnode⟩
      rw [List.getElem?_append_left (by rw [h.length]; omega), hb']
    · refine ⟨c, _, cloneBlock (g.blocks.length + i) g.blocks[c], hc, hblock, ?_, rfl⟩
      rw [← h.length, List.getElem?_concat_length]

/-- All the clones. -/
theorem appendClones_cloned (hg : g.Sound) (hnodup : clonedBlocks.Nodup)
    (hlt : ∀ c ∈ clonedBlocks, c < g.blocks.length) :
    Cloned g clonedBlocks clonedBlocks.length
      (appendClones g clonedBlocks g.blocks.length) := by
  have hfold : ∀ (rest done : List ℕ) (g' : Graph), done ++ rest = clonedBlocks →
      Cloned g clonedBlocks done.length g' → Cloned g clonedBlocks clonedBlocks.length
        (rest.foldl (appendClone clonedBlocks g.blocks.length) g') := by
    intro rest
    induction rest with
    | nil =>
      intro done g' hdone h
      rw [List.append_nil] at hdone
      rwa [hdone] at h
    | cons c rest ih =>
      intro done g' hdone h
      have hc : clonedBlocks[done.length]? = some c := by simp [← hdone]
      refine ih (done ++ [c]) _ (by rw [List.append_assoc, List.singleton_append, hdone]) ?_
      rw [List.length_append, List.length_singleton]
      exact h.step hg hnodup hc (hlt c (List.mem_of_getElem? hc))
  exact hfold clonedBlocks [] g rfl ⟨hg, rfl, rfl, fun _ _ => rfl, fun i hi => by cases hi⟩

/-- A graph with clones, a private merge block, and edges redirected to them. -/
theorem sameRuns_of_clones {g₁ g₂ : Graph} (hg : g.Sound) (hmerge : merge < g.blocks.length)
    (hclones : Cloned g clonedBlocks clonedBlocks.length g₁)
    (hremapped : Reshaped (originalOf g.blocks.length clonedBlocks merge) g₁ g₂)
    (hreshaped : Reshaped (originalOf g.blocks.length clonedBlocks merge)
      (appendSyntheticBranchBlock g₂ merge) g')
    (hkept : (g'.blocks[g.blocks.length + clonedBlocks.length]?).map BasicBlock.node =
      some (.forward merge)) : SameRuns g g' := by
  have hlen : g₂.blocks.length = g.blocks.length + clonedBlocks.length :=
    hremapped.length.trans hclones.length
  have hfix : ∀ block ∈ g.blocks,
      block.node.map (originalOf g.blocks.length clonedBlocks merge) = block.node :=
    fun block hblock => FlowNode.map_eq_self fun t ht =>
      originalOf_of_lt ((hg.within block hblock).targets t ht)
  refine sameRuns_of_cover (π := originalOf g.blocks.length clonedBlocks merge) hg
    hreshaped.sound (fun x hx => originalOf_of_lt hx) ?_ ?_
  · intro i block' hi
    obtain ⟨block₂, hblock₂, hnode₂⟩ := hreshaped.node hi
    by_cases hlt : i < g.blocks.length + clonedBlocks.length
    · rw [appendSyntheticBranchBlock, List.getElem?_append_left (by omega)] at hblock₂
      obtain ⟨block₁, hblock₁, hnode₁⟩ := hremapped.node hblock₂
      rw [hnode₂, hnode₁]
      by_cases hold : i < g.blocks.length
      · rw [hclones.old i hold] at hblock₁
        rw [originalOf_of_lt hold]
        exact .inl ⟨block₁, hblock₁, hfix block₁ (List.mem_of_getElem? hblock₁)⟩
      · obtain ⟨j, rfl⟩ := Nat.exists_eq_add_of_le (Nat.le_of_not_lt hold)
        obtain ⟨c, block, b, hc, hblock, hb, hnode⟩ := hclones.clone j (by omega)
        obtain rfl : b = block₁ := Option.some_inj.1 (hb.symm.trans hblock₁)
        rw [originalOf_clone hc, hnode]
        exact .inl ⟨block, hblock, hfix block (List.mem_of_getElem? hblock)⟩
    · have hle := (List.getElem?_eq_some_iff.1 hblock₂).1
      rw [appendSyntheticBranchBlock_length, hlen] at hle
      obtain rfl : i = g.blocks.length + clonedBlocks.length := by omega
      rw [hi, Option.map_some, Option.some_inj] at hkept
      rw [originalOf_privateMerge]
      exact .inr ⟨by omega, hmerge, hkept⟩
  · have hentry : g'.entryBlock = g.entryBlock :=
      hreshaped.entry.trans (hremapped.entry.trans hclones.entry)
    rw [hentry, originalOf_of_lt hg.entry]

end Clones

/-- **Duplicating a region** keeps the runs. -/
theorem duplicateRegion_rewritten {budget headerId merge : ℕ} {region clonedBlocks : List ℕ}
    (hg : g.Sound) (hheader : headerId < g.blocks.length) (hmerge : merge < g.blocks.length)
    (hregion : ∀ r ∈ region, r < g.blocks.length) (hnodup : clonedBlocks.Nodup)
    (hcloned : ∀ c ∈ clonedBlocks, c < g.blocks.length)
    (hbudget : g.blocks.length + clonedBlocks.length + 1 ≤ budget) :
    Rewritten budget g (duplicateRegion g headerId merge region clonedBlocks) := by
  have hclones := appendClones_cloned hg hnodup hcloned
  set n := g.blocks.length with hn
  have howned : ∀ id ∈ region.map (cloneOf clonedBlocks n), id < n + clonedBlocks.length := by
    intro id hid
    obtain ⟨r, hr, rfl⟩ := List.mem_map.1 hid
    rcases cloneOf_cases clonedBlocks n r with ⟨i, hi, heq⟩ | heq
    · have := (List.getElem?_eq_some_iff.1 hi).1
      omega
    · have := hregion r hr
      omega
  -- the owned blocks point into the region they own
  have hremapped := (harmless_remapToClones merge hcloned le_rfl).reshaped_foldl
    hclones.sound hclones.length (region.map (cloneOf clonedBlocks n))
  set cloned := (region.map (cloneOf clonedBlocks n)).foldl
    (fun graph id => graph.modifyBlock id (remapToClones clonedBlocks n))
    (appendClones g clonedBlocks n) with hclonedDef
  have hlen : cloned.blocks.length = n + clonedBlocks.length :=
    hremapped.length.trans hclones.length
  -- the private merge block
  have hmergeLt : merge < cloned.blocks.length := by rw [hlen]; omega
  have happend := appendSyntheticBranchBlock_sound hremapped.sound hmergeLt
  have hlen₁ : (appendSyntheticBranchBlock cloned merge).blocks.length =
      n + clonedBlocks.length + 1 := by
    rw [appendSyntheticBranchBlock_length, hlen]
  have hentered := (harmless_remapToClones merge hcloned
    (Nat.le_succ (n + clonedBlocks.length))).reshaped happend hlen₁ headerId
  have hredirect : Harmless (originalOf n clonedBlocks merge) (n + clonedBlocks.length + 1)
      (redirectBlock merge (n + clonedBlocks.length)) :=
    harmless_redirect (by rw [originalOf_privateMerge, originalOf_of_lt hmerge])
      (Nat.lt_succ_self _)
  have hleft := hredirect.reshaped_foldl hentered.sound (hentered.length.trans hlen₁)
    (region.map (cloneOf clonedBlocks n))
  have hlast := hredirect.reshaped hleft.sound
    (hleft.length.trans (hentered.length.trans hlen₁)) headerId
  have hall := (hentered.trans hleft).trans hlast
  have hdef : duplicateRegion g headerId merge region clonedBlocks =
      ((region.map (cloneOf clonedBlocks n)).foldl (fun graph id =>
        graph.modifyBlock id (redirectBlock merge (n + clonedBlocks.length)))
        ((appendSyntheticBranchBlock cloned merge).modifyBlock headerId
          (remapToClones clonedBlocks n))).modifyBlock headerId
        (redirectBlock merge (n + clonedBlocks.length)) := by
    rw [← hlen]
    rfl
  rw [hdef]
  refine ⟨hall.sound, sameRuns_of_clones hg hmerge hclones hremapped hall ?_, ?_⟩
  · -- neither the header nor an owned block is the private merge block
    have hne : n + clonedBlocks.length ≠ headerId := by omega
    rw [getElem?_modifyBlock hleft.sound hne,
      getElem?_foldl_modifyBlock hredirect hentered.sound (hentered.length.trans hlen₁)
        fun h => (howned _ h).ne rfl,
      getElem?_modifyBlock happend hne, ← hlen, appendSyntheticBranchBlock_getElem?]
    exact congrArg some (node_syntheticBranchBlock merge)
  · rw [hall.length, hlen₁]
    exact hbudget.trans (le_max_right _ _)

/-- Moving the clones and the private merge block to their place. -/
theorem moveBlocks_moved (hg : g.Sound) (hsize : g.blocks.length ≤ uint32Max)
    (source before : ℕ → ℕ) (l : List ℕ) :
    Moved g (l.foldl (fun moved i => moveBlockBefore moved (source i) (before i)) g) := by
  induction l generalizing g with
  | nil => exact .refl hg
  | cons i l ih =>
    have hstep := moveBlockBefore_moved hg hsize (source i) (before i)
    exact hstep.trans (ih hstep.sound (hstep.length ▸ hsize))

theorem duplicateSelectionRegion_rewritten {budget headerId merge : ℕ} {region : List ℕ}
    (hg : g.Sound) (hbudget : budget ≤ uint32Max) (hmerge : merge < g.blocks.length)
    (hregion : ∀ r ∈ region, r < g.blocks.length) (hnodup : region.Nodup)
    (h : duplicateSelectionRegion g headerId merge region budget = some g') :
    Rewritten budget g g' := by
  unfold duplicateSelectionRegion at h
  dsimp only at h
  rw [ite_eq_iff] at h
  obtain ⟨hguard, h⟩ := h.resolve_left fun h => by cases h.2
  obtain rfl := Option.some_inj.1 h
  simp only [Bool.or_eq_true, not_or, decide_eq_true_eq, Nat.not_lt, hg.positioned.findBlock,
    Option.isNone_iff_eq_none, List.getElem?_eq_none_iff, Nat.not_le] at hguard
  obtain ⟨⟨⟨-, hheader⟩, -⟩, hle⟩ := hguard
  have hrewritten := duplicateRegion_rewritten hg hheader hmerge hregion
    (hnodup.filter fun blockId => !g.dominates headerId blockId)
    (fun c hc => hregion c (List.mem_filter.1 hc).1) hle
  refine (hrewritten.moved (moveBlocks_moved hrewritten.sound ?_ _ _ _)).recompute
  exact hrewritten.length.trans (max_le (by omega) hbudget)

end Prosperismo.Cfg
