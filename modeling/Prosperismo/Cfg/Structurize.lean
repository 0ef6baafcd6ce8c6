import Prosperismo.Cfg.Graph

/-!
# Structurization

The rewrites of `Structurize`: loop canonicalization, the splitting of shared merge
blocks, the duplication of selection regions, and the final pass that writes the
merge and continue blocks into the terminators.

A rewrite that the source makes on some loop or block of a list and then starts
over is `tryEach`: the first element whose rewrite applies.
-/

namespace Prosperismo.Cfg

/-- The first element on which a rewrite applies. -/
def tryEach {α β : Type} (rewrite : α → Option β) : List α → Option β
  | [] => none
  | a :: as =>
    match rewrite a with
    | some b => some b
    | none => tryEach rewrite as

/-! ### Moving and adding blocks -/

/-- The blocks of `MoveBlockBefore`, in their new order. -/
def movedBlocks (blocks : List BasicBlock) (blockPos beforePos : ℕ) : List BasicBlock :=
  (List.range blocks.length).flatMap fun i =>
    (if i = beforePos then (blocks[blockPos]?).toList else []) ++
      (if i ≠ blockPos then (blocks[i]?).toList else [])

/-- The new position of every old id. -/
def idMapOf (blocks : List BasicBlock) : List ℕ :=
  (blocks.zipIdx).foldl (fun idMap p => idMap.set p.1.id p.2)
    (List.replicate blocks.length uint32Max)

/-- The renumbering of one block. -/
def remapBlock (idMap : List ℕ) (block : BasicBlock) : BasicBlock :=
  { block with
    id := remapId block.id idMap
    predecessors := remapIds block.predecessors idMap
    successors := remapIds block.successors idMap
    dominators := remapIds block.dominators idMap
    postDominators := remapIds block.postDominators idMap
    terminator := { block.terminator with
      trueBlock := remapId block.terminator.trueBlock idMap
      falseBlock := remapId block.terminator.falseBlock idMap
      mergeBlock := remapId block.terminator.mergeBlock idMap
      continueBlock := remapId block.terminator.continueBlock idMap } }

/-- `MoveBlockBefore`. -/
def moveBlockBefore (graph : Graph) (blockId beforeId : ℕ) : Graph :=
  if blockId = beforeId ∨ graph.blocks.length ≤ blockId ∨ graph.blocks.length ≤ beforeId then graph
  else
    let newBlocks := movedBlocks graph.blocks blockId beforeId
    let idMap := idMapOf newBlocks
    { graph with
      blocks := newBlocks.map (remapBlock idMap)
      entryBlock := remapId graph.entryBlock idMap }

/-- The block `AppendSyntheticBranchBlock` appends. -/
def syntheticBranchBlock (graph : Graph) (target : ℕ) : BasicBlock :=
  let targetBlock := (graph.findBlock target).getD {}
  { id := graph.blocks.length
    startPc := targetBlock.startPc
    endPc := targetBlock.startPc
    instBegin := targetBlock.instBegin
    instEnd := targetBlock.instBegin
    successors := [target]
    terminator := { kind := .branch, condition := .always, trueBlock := target } }

/-- `AppendSyntheticBranchBlock`; the new id is the old number of blocks. -/
def appendSyntheticBranchBlock (graph : Graph) (target : ℕ) : Graph :=
  { graph with blocks := graph.blocks ++ [syntheticBranchBlock graph target] }

/-- `ReplaceValue` on the successors and `ReplaceTerminatorTarget` on the terminator of
one block. -/
def redirectBlock (oldTarget newTarget : ℕ) (block : BasicBlock) : BasicBlock :=
  { block with
    successors := replaceValue block.successors oldTarget newTarget
    terminator := replaceTerminatorTarget block.terminator oldTarget newTarget }

/-- The redirection of several blocks. -/
def redirectBlocks (graph : Graph) (ids : List ℕ) (oldTarget newTarget : ℕ) : Graph :=
  ids.foldl (fun graph id => graph.modifyBlock id (redirectBlock oldTarget newTarget)) graph

/-! ### Queries -/

/-- `DominatedBlocks`, one round of its stack loop at a time. -/
def dominatedSearch (graph : Graph) (header stopBlock : ℕ) : ℕ → List ℕ → List ℕ → List ℕ
  | 0, blocks, _ => blocks
  | _ + 1, blocks, [] => blocks
  | rounds + 1, blocks, blockId :: stack =>
    if blockId = stopBlock ∨ blockId ∈ blocks ∨ graph.dominates header blockId = false then
      dominatedSearch graph header stopBlock rounds blocks stack
    else
      match graph.findBlock blockId with
      | none => dominatedSearch graph header stopBlock rounds blocks stack
      | some block =>
        dominatedSearch graph header stopBlock rounds (addUnique blocks blockId)
          ((block.successors.filter fun succ =>
            decide (succ ≠ stopBlock) && graph.dominates header succ).reverse ++ stack)

/-- A bound on the rounds of a search that expands every block at most once. -/
def searchRounds (graph : Graph) : ℕ :=
  (graph.blocks.map fun block => block.successors.length).sum + 3

/-- `DominatedBlocks`. -/
def dominatedBlocks (graph : Graph) (header stopBlock : ℕ) : List ℕ :=
  sortUnique (dominatedSearch graph header stopBlock (searchRounds graph) [] [header])

/-- `IsSyntheticMergeForwarder`. -/
def isSyntheticMergeForwarder (graph : Graph) (blockId merge : ℕ) : Bool :=
  match graph.findBlock blockId with
  | none => false
  | some block =>
    block.instBegin == block.instEnd && block.successors == [merge] &&
      block.terminator.kind == .branch && block.terminator.condition == .always &&
      block.terminator.trueBlock == merge

/-- `FindInnermostContainingLoop`. -/
def findInnermostContainingLoop (graph : Graph) (blockId : ℕ) : Option NaturalLoop :=
  graph.naturalLoops.foldl (fun innermost loop =>
    if blockId ∈ loop.bodyBlocks then
      match innermost with
      | none => some loop
      | some best => if loop.bodyBlocks.length < best.bodyBlocks.length then some loop else some best
    else innermost) none

/-- `IsInsideLoopConstruct`. -/
def isInsideLoopConstruct (graph : Graph) (loop : NaturalLoop) (blockId : ℕ) : Bool :=
  decide (blockId ≠ uint32Max ∧ blockId ≠ loop.merge ∧ blockId ≠ loop.continueBlock) &&
    graph.dominates loop.header blockId && !graph.dominates loop.merge blockId

/-- `IsInnermostLoopControlConditional`. -/
def isInnermostLoopControlConditional (graph : Graph) (block : BasicBlock) : Bool :=
  if block.terminator.kind ≠ .conditionalBranch then false
  else
    match findInnermostContainingLoop graph block.id with
    | none => false
    | some loop =>
      if loop.merge = uint32Max ∨ loop.continueBlock = uint32Max then false
      else
        let trueTarget := block.terminator.trueBlock
        let falseTarget := block.terminator.falseBlock
        if block.id = loop.continueBlock then
          let isRepeatTarget := fun target => target == loop.header || target == loop.merge
          isRepeatTarget trueTarget && isRepeatTarget falseTarget
        else
          let isControlTarget := fun target => target == loop.merge || target == loop.continueBlock
          isControlTarget trueTarget &&
              (isControlTarget falseTarget || isInsideLoopConstruct graph loop falseTarget) ||
            isControlTarget falseTarget && isInsideLoopConstruct graph loop trueTarget

/-- `MergeLeavesContainingLoop`. -/
def mergeLeavesContainingLoop (graph : Graph) (header merge : ℕ) : Bool :=
  graph.naturalLoops.any fun loop =>
    loop.header != header && isInsideLoopConstruct graph loop header &&
      !isInsideLoopConstruct graph loop merge

/-! ### Loop canonicalization -/

/-- The latches of a loop's header. -/
def latchesOf (graph : Graph) (header : ℕ) : List ℕ :=
  graph.backEdges.foldl (fun latches edge =>
    if edge.target = header then addUnique latches edge.source else latches) []

/-- The latches of a loop with several are joined in a new continue block. -/
def joinLatches (graph : Graph) (loop : NaturalLoop) : Option Graph :=
  let latches := latchesOf graph loop.header
  if latches.length ≤ 1 then none
  else
    let continueBlock := graph.blocks.length
    some (recomputeAnalyses (rebuildPredecessors (redirectBlocks
      (appendSyntheticBranchBlock graph loop.header) latches loop.header continueBlock)))

/-- A header that is itself a selection inside the loop gets a block of its own in
front. -/
def splitHeader (graph : Graph) (loop : NaturalLoop) : Option Graph :=
  match graph.findBlock loop.header with
  | none => none
  | some header =>
    let isLoopControlTarget := fun target => target == loop.merge || target == loop.continueBlock
    if header.terminator.kind ≠ .conditionalBranch ∨
        isLoopControlTarget header.terminator.trueBlock ∨
        isLoopControlTarget header.terminator.falseBlock ∨
        header.terminator.trueBlock ∉ loop.bodyBlocks ∨
        header.terminator.falseBlock ∉ loop.bodyBlocks then none
    else
      let oldHeader := loop.header
      let newHeader := graph.blocks.length
      let redirected := redirectBlocks (appendSyntheticBranchBlock graph oldHeader)
        header.predecessors oldHeader newHeader
      let entered := { redirected with
        entryBlock := if redirected.entryBlock = oldHeader then newHeader
          else redirected.entryBlock }
      some (recomputeAnalyses (rebuildPredecessors (moveBlockBefore entered newHeader oldHeader)))

/-- One round of `CanonicalizeNaturalLoops`. -/
def canonicalizeOnce (graph : Graph) : Option Graph :=
  match tryEach (joinLatches graph) graph.naturalLoops with
  | some graph => some graph
  | none => tryEach (splitHeader graph) graph.naturalLoops

/-- The rounds of `CanonicalizeNaturalLoops`; `false` when they run out. -/
def canonicalizeRounds : ℕ → Graph → Bool × Graph
  | 0, graph =>
    (false, setFailure graph .structuredControlFlow graph.entryBlock .rewriteBudget)
  | rounds + 1, graph =>
    match canonicalizeOnce graph with
    | some graph => canonicalizeRounds rounds graph
    | none => (true, graph)

/-- `CanonicalizeNaturalLoops`. -/
def canonicalizeNaturalLoops (graph : Graph) : Bool × Graph :=
  canonicalizeRounds (graph.blocks.length * 2 + 16) graph

/-! ### Shared merge blocks -/

/-- The edit of `SplitSharedMergeBlock`: a forwarder to the merge block takes over the given
predecessors. -/
def splitPredecessors (graph : Graph) (merge : ℕ) (predecessorsToSplit : List ℕ) : Graph :=
  let syntheticMerge := graph.blocks.length
  let appended := (appendSyntheticBranchBlock graph merge).modifyBlock syntheticMerge
    fun block => { block with predecessors := sortUnique predecessorsToSplit }
  let redirected := redirectBlocks appended predecessorsToSplit merge syntheticMerge
  let detached := redirected.modifyBlock merge fun block =>
    { block with
      predecessors := sortUnique (addUnique
        (predecessorsToSplit.foldl removeValue block.predecessors) syntheticMerge) }
  moveBlockBefore detached syntheticMerge merge

/-- `SplitSharedMergeBlock`; `none` when it changes nothing. -/
def splitSharedMergeBlock (graph : Graph) (merge : ℕ) (constructBlocks : List ℕ)
    (forceSplit : Bool) : Option Graph :=
  if merge = uint32Max ∨ graph.blocks.length ≤ merge ∨ merge ∈ constructBlocks then none
  else
    match graph.findBlock merge with
    | none => none
    | some mergeBlock =>
      let constructPredecessors :=
        (mergeBlock.predecessors.filter fun pred => decide (pred ∈ constructBlocks)).foldl
          addUnique []
      let externalPredecessors :=
        (mergeBlock.predecessors.filter fun pred => decide (pred ∉ constructBlocks)).foldl
          addUnique []
      if constructPredecessors.isEmpty || (!forceSplit && externalPredecessors.isEmpty) then none
      else
        let predecessorsToSplit :=
          (constructPredecessors.filter fun pred =>
            !isSyntheticMergeForwarder graph pred merge).foldl addUnique []
        if predecessorsToSplit.isEmpty then none
        else
          some (splitPredecessors graph merge predecessorsToSplit)

/-- `SplitOneLoopMerge`. -/
def splitOneLoopMerge (graph : Graph) : Option Graph :=
  tryEach (fun loop => splitSharedMergeBlock graph loop.merge
    (dominatedBlocks graph loop.header loop.merge)
    (mergeLeavesContainingLoop graph loop.header loop.merge)) graph.naturalLoops

/-- `SelectionRegion`, one round of its stack loop at a time. -/
def selectionSearch (graph : Graph) (merge : ℕ) : ℕ → List ℕ → List ℕ → List ℕ
  | 0, region, _ => region
  | _ + 1, region, [] => region
  | rounds + 1, region, blockId :: pending =>
    if blockId = merge ∨ blockId ∈ region then selectionSearch graph merge rounds region pending
    else
      match graph.findBlock blockId with
      | none => selectionSearch graph merge rounds region pending
      | some block =>
        selectionSearch graph merge rounds (addUnique region blockId)
          (block.successors.reverse ++ pending)

/-- `SelectionRegion`. -/
def selectionRegion (graph : Graph) (header : BasicBlock) (merge : ℕ) : List ℕ :=
  sortUnique (selectionSearch graph merge (searchRounds graph) []
    [header.terminator.falseBlock, header.terminator.trueBlock])

/-- The clone of a target, or the target itself. -/
def cloneOf (clonedBlocks : List ℕ) (firstClone target : ℕ) : ℕ :=
  match clonedBlocks.idxOf? target with
  | some i => firstClone + i
  | none => target

/-- The lambda `remap_block`. -/
def remapToClones (clonedBlocks : List ℕ) (firstClone : ℕ) (block : BasicBlock) : BasicBlock :=
  let remapTarget := cloneOf clonedBlocks firstClone
  { block with
    successors := block.successors.map remapTarget
    terminator := { block.terminator with
      trueBlock := remapTarget block.terminator.trueBlock
      falseBlock := remapTarget block.terminator.falseBlock
      mergeBlock := remapTarget block.terminator.mergeBlock
      continueBlock := remapTarget block.terminator.continueBlock
      indirectTargets := block.terminator.indirectTargets.map remapTarget } }

/-- A clone of a block, under its own id. -/
def cloneBlock (id : ℕ) (block : BasicBlock) : BasicBlock :=
  { block with id := id, predecessors := [], dominators := [], postDominators := [] }

/-- One clone appended by `DuplicateSelectionRegion`. -/
def appendClone (clonedBlocks : List ℕ) (firstClone : ℕ) (graph : Graph) (blockId : ℕ) : Graph :=
  match graph.findBlock blockId with
  | none => graph
  | some block =>
    { graph with
      blocks := graph.blocks ++ [cloneBlock (cloneOf clonedBlocks firstClone blockId) block] }

/-- The clones appended by `DuplicateSelectionRegion`. -/
def appendClones (graph : Graph) (clonedBlocks : List ℕ) (firstClone : ℕ) : Graph :=
  clonedBlocks.foldl (appendClone clonedBlocks firstClone) graph

/-- The edit of `DuplicateSelectionRegion`, before the new blocks are moved: the region
with its clones in place of the cloned blocks, entered from the header and left through
a private merge block. -/
def duplicateRegion (graph : Graph) (headerId merge : ℕ) (region clonedBlocks : List ℕ) :
    Graph :=
  let firstClone := graph.blocks.length
  let ownedRegion := region.map (cloneOf clonedBlocks firstClone)
  let remap := remapToClones clonedBlocks firstClone
  let cloned := ownedRegion.foldl (fun graph id => graph.modifyBlock id remap)
    (appendClones graph clonedBlocks firstClone)
  let privateMerge := cloned.blocks.length
  let appended := (appendSyntheticBranchBlock cloned merge).modifyBlock headerId remap
  (redirectBlocks appended ownedRegion merge privateMerge).modifyBlock headerId
    (redirectBlock merge privateMerge)

/-- `DuplicateSelectionRegion`; `none` when it changes nothing. -/
def duplicateSelectionRegion (graph : Graph) (headerId merge : ℕ) (region : List ℕ)
    (blockBudget : ℕ) : Option Graph :=
  let clonedBlocks := region.filter fun blockId => !graph.dominates headerId blockId
  if clonedBlocks.isEmpty || (graph.findBlock headerId).isNone || decide (merge ≤ headerId) ||
      decide (blockBudget < graph.blocks.length + clonedBlocks.length + 1) then none
  else
    let firstClone := graph.blocks.length
    let moved := (List.range (clonedBlocks.length + 1)).foldl
      (fun moved i => moveBlockBefore moved (firstClone + i) (merge + i))
      (duplicateRegion graph headerId merge region clonedBlocks)
    some (recomputeAnalyses (rebuildPredecessors moved))

/-- The rewrite of one block in `SplitOneSelectionMerge`. -/
def splitSelectionMerge (graph : Graph) (blockBudget blockId : ℕ) : Option Graph :=
  match graph.findBlock blockId with
  | none => none
  | some block =>
    if block.terminator.kind ≠ .conditionalBranch ∨
        blockId ∈ graph.naturalLoops.map NaturalLoop.header ∨
        isInnermostLoopControlConditional graph block then none
    else
      let merge := graph.findNearestCommonPostDominator block.terminator.trueBlock
        block.terminator.falseBlock
      if merge = uint32Max ∨ (graph.findBlock merge).isNone then none
      else
        let region := selectionRegion graph block merge
        if region.any fun member => !graph.dominates blockId member then
          if graph.naturalLoops.isEmpty then
            duplicateSelectionRegion graph blockId merge region blockBudget
          else none
        else
          splitSharedMergeBlock graph merge (dominatedBlocks graph blockId merge)
            (mergeLeavesContainingLoop graph blockId merge)

/-- `SplitOneSelectionMerge`. -/
def splitOneSelectionMerge (graph : Graph) (blockBudget : ℕ) : Option Graph :=
  tryEach (splitSelectionMerge graph blockBudget) (List.range graph.blocks.length)

/-- One round of `SplitSharedMergeBlocks`. -/
def splitOnce (graph : Graph) (blockBudget : ℕ) : Option Graph :=
  match splitOneLoopMerge graph with
  | some graph => some graph
  | none => splitOneSelectionMerge graph blockBudget

/-- The rounds of `SplitSharedMergeBlocks`; `false` when they run out. -/
def splitRounds (originalBlockCount splitBudget blockBudget : ℕ) : ℕ → Graph → Bool × Graph
  | 0, graph =>
    (false, setFailure graph .structuredControlFlow graph.entryBlock
      (.splitBudget originalBlockCount graph.blocks.length splitBudget))
  | rounds + 1, graph =>
    match splitOnce graph blockBudget with
    | none => (true, graph)
    | some graph =>
      splitRounds originalBlockCount splitBudget blockBudget rounds
        (recomputeAnalyses (rebuildPredecessors graph))

/-- `SplitSharedMergeBlocks`. -/
def splitSharedMergeBlocks (graph : Graph) : Bool × Graph :=
  let originalBlockCount := graph.blocks.length
  let splitBudget := max 16 (min 128 (originalBlockCount * 4))
  let blockBudget := max 32 (min 512 (originalBlockCount * 8))
  splitRounds originalBlockCount splitBudget blockBudget splitBudget graph

/-! ### Merge and continue blocks -/

/-- `ClearStructuredTerminators`. -/
def clearStructuredTerminators (graph : Graph) : Graph :=
  { graph with
    blocks := graph.blocks.map fun block =>
      { block with
        terminator := { block.terminator with
          mergeBlock := uint32Max
          continueBlock := uint32Max
          loopHeader := false } } }

/-- The map `merge_headers`: merge blocks and the headers they are reserved for. -/
abbrev MergeHeaders := List (ℕ × ℕ)

/-- The lambda `reserve_merge_block`: the header that has the merge block already, or the
new map. -/
def reserveMergeBlock (mergeHeaders : MergeHeaders) (header merge : ℕ) :
    Except ℕ MergeHeaders :=
  match mergeHeaders.lookup merge with
  | none => .ok ((merge, header) :: mergeHeaders)
  | some usedBy => if usedBy = header then .ok mergeHeaders else .error usedBy

/-- The loop pass: every natural loop's header gets its merge and continue block. -/
def assignLoopMerges : List NaturalLoop → MergeHeaders → Graph → Bool × MergeHeaders × Graph
  | [], mergeHeaders, graph => (true, mergeHeaders, graph)
  | loop :: loops, mergeHeaders, graph =>
    if (graph.findBlock loop.header).isNone ∨ loop.merge = uint32Max ∨
        loop.continueBlock = uint32Max then
      (false, mergeHeaders,
        setFailure graph .structuredControlFlow loop.header (.loopWithoutMerge loop.header))
    else
      match reserveMergeBlock mergeHeaders loop.header loop.merge with
      | .error usedBy =>
        (false, mergeHeaders, setFailure graph .structuredControlFlow loop.header
          (.duplicateMerge loop.merge loop.header usedBy))
      | .ok mergeHeaders =>
        assignLoopMerges loops mergeHeaders (graph.modifyBlock loop.header fun block =>
          { block with
            terminator := { block.terminator with
              loopHeader := true
              mergeBlock := loop.merge
              continueBlock := loop.continueBlock } })

/-- The selection pass, over the positions of the blocks. -/
def assignSelectionMerges : List ℕ → MergeHeaders → Graph → Bool × Graph
  | [], _, graph => (true, graph)
  | i :: positions, mergeHeaders, graph =>
    let block := graph.blockAt i
    if block.terminator.kind ≠ .conditionalBranch ∨ block.terminator.loopHeader ∨
        isInnermostLoopControlConditional graph block then
      assignSelectionMerges positions mergeHeaders graph
    else
      let merge := graph.findNearestCommonPostDominator block.terminator.trueBlock
        block.terminator.falseBlock
      if merge = uint32Max then
        (false, setFailure graph .structuredControlFlow block.id (.selectionWithoutMerge block.id))
      else
        match reserveMergeBlock mergeHeaders block.id merge with
        | .error usedBy =>
          (false, setFailure graph .structuredControlFlow block.id
            (.duplicateMerge merge block.id usedBy))
        | .ok mergeHeaders =>
          assignSelectionMerges positions mergeHeaders
            { graph with
              blocks := graph.blocks.modify i fun block =>
                { block with terminator := { block.terminator with mergeBlock := merge } } }

/-- The part of `Structurize` after the rewrites. -/
def assignMerges (graph : Graph) : Bool × Graph :=
  let graph := clearStructuredTerminators graph
  match assignLoopMerges graph.naturalLoops [] graph with
  | (false, _, graph) => (false, graph)
  | (true, mergeHeaders, graph) =>
    assignSelectionMerges (List.range graph.blocks.length) mergeHeaders graph

/-- `Structurize`: whether it succeeded, and the graph it leaves. -/
def structurize (graph : Graph) : Bool × Graph :=
  if graph.unsupported || graph.irreducible then
    (false, { graph with
      unsupportedReason := some (graph.unsupportedReason.getD .unsupportedCfg) })
  else
    match canonicalizeNaturalLoops graph with
    | (false, graph) => (false, graph)
    | (true, graph) =>
      match splitSharedMergeBlocks graph with
      | (false, graph) => (false, graph)
      | (true, graph) => assignMerges graph

end Prosperismo.Cfg
