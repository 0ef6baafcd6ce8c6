import Prosperismo.Cfg.Splits

/-!
# Structurize preserves the program

The rounds of `CanonicalizeNaturalLoops` and `SplitSharedMergeBlocks` are runs of the
rewrites of the two modules before; the final pass only writes merge and continue
blocks, which a run does not read. So `Structurize` leaves the runs of a sound graph as
they are, whether it succeeds or gives up (`structurize_sameRuns`).
-/

namespace Prosperismo.Cfg

variable {g g' : Graph}

/-! ### The rounds -/

/-- The blocks of a selection region exist. -/
theorem mem_selectionSearch (hg : g.Sound) {merge rounds : ℕ} {region pending : List ℕ}
    (hregion : ∀ r ∈ region, r < g.blocks.length) :
    ∀ r ∈ selectionSearch g merge rounds region pending, r < g.blocks.length := by
  induction rounds generalizing region pending with
  | zero => exact hregion
  | succ rounds ih =>
    cases pending with
    | nil => exact hregion
    | cons blockId pending =>
      rw [selectionSearch]
      split_ifs
      · exact ih hregion
      · rw [hg.positioned.findBlock]
        split
        · exact ih hregion
        · rename_i block hblock
          refine ih fun r hr => ?_
          rcases mem_addUnique.1 hr with hr | rfl
          · exact hregion r hr
          · exact (List.getElem?_eq_some_iff.1 hblock).1

/-- One round of the merge splitting. -/
theorem splitOnce_rewritten {blockBudget : ℕ} (hg : g.Sound)
    (hsize : g.blocks.length + 1 ≤ uint32Max) (hbudget : blockBudget ≤ uint32Max)
    (h : splitOnce g blockBudget = some g') : Rewritten blockBudget g g' := by
  unfold splitOnce at h
  split at h
  · rename_i split hsplit
    obtain rfl := Option.some_inj.1 h
    obtain ⟨loop, -, hloop⟩ := tryEach_eq_some hsplit
    exact splitSharedMergeBlock_rewritten blockBudget hg hsize hloop
  · obtain ⟨blockId, -, hblock⟩ := tryEach_eq_some h
    unfold splitSelectionMerge at hblock
    split at hblock
    · cases hblock
    · rename_i block _
      rw [ite_eq_iff] at hblock
      obtain ⟨-, hblock⟩ := hblock.resolve_left fun h => by cases h.2
      dsimp only at hblock
      rw [ite_eq_iff] at hblock
      obtain ⟨hmerge, hblock⟩ := hblock.resolve_left fun h => by cases h.2
      rw [hg.positioned.findBlock, not_or, Option.isNone_iff_eq_none,
        List.getElem?_eq_none_iff, Nat.not_le] at hmerge
      split_ifs at hblock
      · exact duplicateSelectionRegion_rewritten hg hbudget hmerge.2
          (fun r hr => mem_selectionSearch hg (by simp) r (mem_sortUnique.1 hr))
          (List.nodup_dedup _) hblock
      · exact splitSharedMergeBlock_rewritten blockBudget hg hsize hblock

/-- Reporting a failure changes nothing that a run reads. -/
theorem sameRuns_setFailure (g : Graph) (kind : FailureKind) (blockId : ℕ)
    (message : FailureReason) : SameRuns g (setFailure g kind blockId message) :=
  fun _ _ => Iff.rfl

theorem Graph.Sound.setFailure (hg : g.Sound) (kind : FailureKind) (blockId : ℕ)
    (message : FailureReason) : (setFailure g kind blockId message).Sound :=
  ⟨hg.positioned, hg.within, hg.entry, hg.edges, hg.loops⟩

/-- **The rounds of the canonicalization.** -/
theorem canonicalizeRounds_spec (rounds : ℕ) (hg : g.Sound)
    (hsize : g.blocks.length + rounds ≤ uint32Max) :
    (canonicalizeRounds rounds g).2.Sound ∧ SameRuns g (canonicalizeRounds rounds g).2 ∧
      (canonicalizeRounds rounds g).2.blocks.length ≤ g.blocks.length + rounds := by
  induction rounds generalizing g with
  | zero => exact ⟨hg.setFailure _ _ _, sameRuns_setFailure _ _ _ _, le_rfl⟩
  | succ rounds ih =>
    rw [canonicalizeRounds]
    split
    · rename_i next hnext
      have hstep := canonicalizeOnce_rewritten 0 hg (by omega) hnext
      have hlen := hstep.length
      rw [Nat.max_zero] at hlen
      obtain ⟨hsound, hruns, hbound⟩ := ih hstep.sound (by omega)
      exact ⟨hsound, hstep.runs.trans hruns, by omega⟩
    · exact ⟨hg, .refl g, Nat.le_add_right _ _⟩

/-- **The rounds of the merge splitting.** -/
theorem splitRounds_spec (originalBlockCount splitBudget blockBudget rounds : ℕ)
    (hg : g.Sound) (hsize : g.blocks.length + rounds ≤ uint32Max)
    (hbudget : blockBudget + rounds ≤ uint32Max) :
    (splitRounds originalBlockCount splitBudget blockBudget rounds g).2.Sound ∧
      SameRuns g (splitRounds originalBlockCount splitBudget blockBudget rounds g).2 := by
  induction rounds generalizing g with
  | zero => exact ⟨hg.setFailure _ _ _, sameRuns_setFailure _ _ _ _⟩
  | succ rounds ih =>
    rw [splitRounds]
    split
    · exact ⟨hg, .refl g⟩
    · rename_i next hnext
      have hstep := (splitOnce_rewritten hg (by omega) (by omega) hnext).recompute
      have hlen := hstep.length
      obtain ⟨hsound, hruns⟩ := ih hstep.sound (by omega) (by omega)
      exact ⟨hsound, hstep.runs.trans hruns⟩

/-! ### The final pass -/

/-- A block without the fields that the final pass writes. -/
def BasicBlock.unmerged (block : BasicBlock) : BasicBlock :=
  { block with
    terminator := { block.terminator with
      mergeBlock := uint32Max
      continueBlock := uint32Max
      loopHeader := false } }

/-- `g'` is `g` with other merge and continue blocks. -/
structure Annotated (g g' : Graph) : Prop where
  blocks : g'.blocks.map BasicBlock.unmerged = g.blocks.map BasicBlock.unmerged
  entry : g'.entryBlock = g.entryBlock

namespace Annotated

theorem refl (g : Graph) : Annotated g g := ⟨rfl, rfl⟩

theorem trans {g'' : Graph} (h : Annotated g g') (h' : Annotated g' g'') : Annotated g g'' :=
  ⟨h'.blocks.trans h.blocks, h'.entry.trans h.entry⟩

theorem setFailure (g : Graph) (kind : FailureKind) (blockId : ℕ) (message : FailureReason) :
    Annotated g (setFailure g kind blockId message) := ⟨rfl, rfl⟩

/-- Ids stay positions. -/
theorem positioned (h : Annotated g g') (hg : Positioned g.blocks) : Positioned g'.blocks := by
  rw [Positioned.iff_map_id] at hg ⊢
  have hids := congrArg (List.map BasicBlock.id) h.blocks
  have hlen := congrArg List.length h.blocks
  rw [List.map_map, List.map_map] at hids
  rw [List.length_map, List.length_map] at hlen
  rw [hlen, ← hg]
  exact hids

/-- A run does not read the merge and continue blocks. -/
theorem sameRuns (h : Annotated g g') (hg : Positioned g.blocks) : SameRuns g g' := by
  refine sameRuns_of_nodes hg (h.positioned hg) ?_ h.entry
  have hnodes := congrArg (List.map BasicBlock.node) h.blocks
  rw [List.map_map, List.map_map] at hnodes
  exact hnodes

/-- Writing the merge fields of one block. -/
theorem modify (g : Graph) (i : ℕ) {write : BasicBlock → BasicBlock}
    (hwrite : ∀ block, (write block).unmerged = block.unmerged) :
    Annotated g { g with blocks := g.blocks.modify i write } := by
  refine ⟨List.ext_getElem? fun j => ?_, rfl⟩
  rw [List.getElem?_map, List.getElem?_map, List.getElem?_modify]
  cases g.blocks[j]? with
  | none => split_ifs <;> rfl
  | some block =>
    split_ifs
    · exact congrArg some (hwrite block)
    · rfl

theorem modifyBlock (g : Graph) (id : ℕ) {write : BasicBlock → BasicBlock}
    (hwrite : ∀ block, (write block).unmerged = block.unmerged) :
    Annotated g (g.modifyBlock id write) := by
  unfold Graph.modifyBlock
  split
  · exact modify g _ hwrite
  · exact refl g

end Annotated

theorem clearStructuredTerminators_annotated (g : Graph) :
    Annotated g (clearStructuredTerminators g) := by
  refine ⟨?_, rfl⟩
  rw [clearStructuredTerminators, List.map_map]
  rfl

theorem assignLoopMerges_annotated (loops : List NaturalLoop) (mergeHeaders : MergeHeaders)
    (g : Graph) : Annotated g (assignLoopMerges loops mergeHeaders g).2.2 := by
  induction loops generalizing mergeHeaders g with
  | nil => exact .refl g
  | cons loop loops ih =>
    rw [assignLoopMerges]
    split_ifs
    · exact .setFailure g _ _ _
    · split
      · exact .setFailure g _ _ _
      · refine Annotated.trans ?_ (ih _ _)
        exact Annotated.modifyBlock g _ fun _ => rfl

theorem assignSelectionMerges_annotated (positions : List ℕ) (mergeHeaders : MergeHeaders)
    (g : Graph) : Annotated g (assignSelectionMerges positions mergeHeaders g).2 := by
  induction positions generalizing mergeHeaders g with
  | nil => exact .refl g
  | cons i positions ih =>
    rw [assignSelectionMerges]
    dsimp only
    split_ifs
    · exact ih _ _
    · exact .setFailure g _ _ _
    · split
      · exact .setFailure g _ _ _
      · refine Annotated.trans ?_ (ih _ _)
        exact Annotated.modify g i fun _ => rfl

/-- The final pass. -/
theorem assignMerges_annotated (g : Graph) : Annotated g (assignMerges g).2 := by
  have hclear := clearStructuredTerminators_annotated g
  have hloops := assignLoopMerges_annotated (clearStructuredTerminators g).naturalLoops []
    (clearStructuredTerminators g)
  unfold assignMerges
  dsimp only
  split
  · rename_i mergeHeaders annotated heq
    rw [heq] at hloops
    exact hclear.trans hloops
  · rename_i mergeHeaders annotated heq
    rw [heq] at hloops
    exact (hclear.trans hloops).trans (assignSelectionMerges_annotated _ _ _)

/-! ### Structurize -/

/-- **Structurize keeps the runs** of every sound graph, also when it fails. -/
theorem structurize_sameRuns (hg : g.Sound) (hsize : 3 * g.blocks.length + 144 ≤ uint32Max) :
    SameRuns g (structurize g).2 := by
  unfold structurize
  split_ifs
  · exact fun _ _ => Iff.rfl
  · obtain ⟨hsound, hruns, hlen⟩ := canonicalizeRounds_spec (g.blocks.length * 2 + 16) hg
      (by omega)
    unfold canonicalizeNaturalLoops
    split
    · rename_i canonical heq
      rw [heq] at hruns
      exact hruns
    · rename_i canonical heq
      rw [heq] at hsound hruns hlen
      dsimp only at hsound hruns hlen
      obtain ⟨hsound', hruns'⟩ := splitRounds_spec canonical.blocks.length
        (max 16 (min 128 (canonical.blocks.length * 4)))
        (max 32 (min 512 (canonical.blocks.length * 8)))
        (max 16 (min 128 (canonical.blocks.length * 4))) hsound (by omega)
        (by unfold uint32Max; omega)
      unfold splitSharedMergeBlocks
      dsimp only
      split
      · rename_i split heq'
        rw [heq'] at hruns'
        exact hruns.trans hruns'
      · rename_i split heq'
        rw [heq'] at hsound' hruns'
        exact (hruns.trans hruns').trans
          ((assignMerges_annotated split).sameRuns hsound'.positioned)

end Prosperismo.Cfg
