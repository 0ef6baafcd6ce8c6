import Prosperismo.Cfg.Program
import Mathlib.Data.List.Sort
import Mathlib.Data.List.Dedup

/-!
# The control-flow graph

`Graph` of `cfg/ShaderCFG.h` with its analyses: dominators and post-dominators as
the greatest solutions that repeated sweeps over the blocks arrive at, back edges,
natural loops, and strongly connected components by Tarjan's algorithm.

A `while (changed)` loop is a recursion on a number of sweeps that is always
enough; a search with an explicit stack is a recursion on a number of rounds.
-/

namespace Prosperismo.Cfg

/-! ### Blocks and graphs -/

/-- `BasicBlock`. -/
structure BasicBlock where
  id : ℕ := 0
  startPc : ℕ := 0
  endPc : ℕ := 0
  instBegin : ℕ := 0
  instEnd : ℕ := 0
  predecessors : List ℕ := []
  successors : List ℕ := []
  dominators : List ℕ := []
  postDominators : List ℕ := []
  terminator : Terminator := {}
deriving DecidableEq, Repr

/-- `BackEdge`. -/
structure BackEdge where
  source : ℕ := uint32Max
  target : ℕ := uint32Max
  natural : Bool := false
deriving DecidableEq, Repr

/-- `NaturalLoop`. -/
structure NaturalLoop where
  header : ℕ := uint32Max
  latch : ℕ := uint32Max
  merge : ℕ := uint32Max
  continueBlock : ℕ := uint32Max
  bodyBlocks : List ℕ := []
  exitBlocks : List ℕ := []
deriving DecidableEq, Repr

/-- `StronglyConnectedComponent`. -/
structure StronglyConnectedComponent where
  blocks : List ℕ := []
  entryBlocks : List ℕ := []
  irreducible : Bool := false
deriving DecidableEq, Repr

/-- `FailureKind`. -/
inductive FailureKind where
  | none
  | invalidInput
  | unsupportedInstruction
  | invalidBranchTarget
  | missingFallthrough
  | invalidLabel
  | irreducibleControlFlow
  | structuredControlFlow
deriving DecidableEq, Repr

/-- The texts of `unsupported_reason`, with the values they print. -/
inductive FailureReason where
  /-- "cannot build CFG for empty shader" -/
  | emptyShader
  /-- "unsupported decoded instruction in CFG at pc ..." -/
  | unsupportedInstruction (pc : ℕ)
  /-- "branch at pc ... targets invalid pc ..." -/
  | invalidBranch (pc target : ℕ)
  /-- "unsupported dynamic S_SETPC_B64 at pc ..." -/
  | dynamicSetpc (pc : ℕ)
  /-- "S_SETPC_B64 at pc ... targets invalid pc ..." -/
  | invalidSetpc (pc target : ℕ)
  /-- "CFG label does not start on an instruction: ..." -/
  | invalidLabel (pc : ℕ)
  /-- "conditional branch at pc ... has no fallthrough block" -/
  | missingFallthrough (pc : ℕ)
  /-- "irreducible CFG: cyclic component has multiple entries" -/
  | multipleEntries
  /-- "indirect S_SETPC_B64 jump table requires dispatcher fallback" -/
  | jumpTable
  /-- "unsupported CFG" -/
  | unsupportedCfg
  /-- "CFG loop canonicalization exceeded rewrite budget" -/
  | rewriteBudget
  /-- "CFG shared merge splitting exceeded budget: ..." -/
  | splitBudget (originalBlocks currentBlocks splitBudget : ℕ)
  /-- "loop at block ... has no structured merge/continue" -/
  | loopWithoutMerge (header : ℕ)
  /-- "duplicate structured merge block ... for header ... (already used by header ...)" -/
  | duplicateMerge (merge header usedBy : ℕ)
  /-- "conditional block ... has no structured merge" -/
  | selectionWithoutMerge (block : ℕ)
deriving DecidableEq, Repr

/-- `Graph`. An empty `unsupported_reason` is `none`. -/
structure Graph where
  blocks : List BasicBlock := []
  backEdges : List BackEdge := []
  naturalLoops : List NaturalLoop := []
  components : List StronglyConnectedComponent := []
  codeTableLoadPcs : List ℕ := []
  entryBlock : ℕ := uint32Max
  irreducible : Bool := false
  unsupported : Bool := false
  failureKind : FailureKind := .none
  failureBlock : ℕ := uint32Max
  unsupportedReason : Option FailureReason := none
deriving DecidableEq, Repr

/-- `SetFailure`. -/
def setFailure (graph : Graph) (kind : FailureKind) (blockId : ℕ) (message : FailureReason) :
    Graph :=
  { graph with
    unsupported := true
    failureKind := kind
    failureBlock := blockId
    unsupportedReason := some message }

/-! ### Lists of ids -/

/-- `SortUnique`. -/
def sortUnique (values : List ℕ) : List ℕ := (values.insertionSort (· ≤ ·)).dedup

/-- `IntersectSorted`: `std::set_intersection` of two lists without repetitions. -/
def intersectSorted (a b : List ℕ) : List ℕ := a.filter (· ∈ b)

/-- `ReplaceValue`: the new list, sorted when anything changed. -/
def replaceValue (values : List ℕ) (oldValue newValue : ℕ) : List ℕ :=
  if oldValue ∈ values then
    sortUnique (values.map fun value => if value = oldValue then newValue else value)
  else values

/-- `RemoveValue`. -/
def removeValue (values : List ℕ) (value : ℕ) : List ℕ := values.filter (· ≠ value)

/-- `ReplaceTerminatorTarget`. -/
def replaceTerminatorTarget (terminator : Terminator) (oldValue newValue : ℕ) : Terminator :=
  { terminator with
    trueBlock := if terminator.trueBlock = oldValue then newValue else terminator.trueBlock
    falseBlock := if terminator.falseBlock = oldValue then newValue else terminator.falseBlock }

/-- `RemapId`. -/
def remapId (id : ℕ) (idMap : List ℕ) : ℕ :=
  if id = uint32Max then id else (idMap[id]?).getD id

/-- `RemapIds`. -/
def remapIds (values : List ℕ) (idMap : List ℕ) : List ℕ :=
  sortUnique (values.map fun value => remapId value idMap)

/-! ### Finding blocks -/

namespace Graph

/-- The position of a block: its id when the block there has it, else the first block
with that id. -/
def blockIndex (graph : Graph) (id : ℕ) : Option ℕ :=
  if (graph.blocks[id]?).map BasicBlock.id = some id then some id
  else graph.blocks.findIdx? fun block => block.id == id

/-- `Graph::FindBlock`. -/
def findBlock (graph : Graph) (id : ℕ) : Option BasicBlock :=
  (graph.blockIndex id).bind fun i => graph.blocks[i]?

/-- A change of the block `FindBlock` points to, if any. -/
def modifyBlock (graph : Graph) (id : ℕ) (f : BasicBlock → BasicBlock) : Graph :=
  match graph.blockIndex id with
  | some i => { graph with blocks := graph.blocks.modify i f }
  | none => graph

/-- The block at a position, where the source indexes `blocks` itself. -/
def blockAt (graph : Graph) (i : ℕ) : BasicBlock := (graph.blocks[i]?).getD {}

/-- `Graph::Dominates`. -/
def dominates (graph : Graph) (dominator block : ℕ) : Bool :=
  match graph.findBlock block with
  | some target => decide (dominator ∈ target.dominators)
  | none => false

/-- `Graph::PostDominates`. -/
def postDominates (graph : Graph) (postDominator block : ℕ) : Bool :=
  match graph.findBlock block with
  | some target => decide (postDominator ∈ target.postDominators)
  | none => false

/-- `Graph::FindNearestCommonPostDominator`. -/
def findNearestCommonPostDominator (graph : Graph) (blockA blockB : ℕ) : ℕ :=
  match graph.findBlock blockA, graph.findBlock blockB with
  | some a, some b =>
    let common := intersectSorted a.postDominators b.postDominators
    match common.find? fun candidate =>
        common.all fun other => other == candidate || graph.postDominates other candidate with
    | some candidate => candidate
    | none => common.head?.getD uint32Max
  | _, _ => uint32Max

end Graph

/-! ### Predecessors -/

/-- The predecessor loops: every block is added to the predecessors of its successors,
in block order. -/
def addPredecessors (blocks : List BasicBlock) : List BasicBlock :=
  blocks.foldl (fun acc block =>
    block.successors.foldl (fun acc succ =>
      acc.modify succ fun b => { b with predecessors := addUnique b.predecessors block.id }) acc)
    blocks

/-- `RebuildPredecessors`. -/
def rebuildPredecessors (graph : Graph) : Graph :=
  let cleared := graph.blocks.map fun block =>
    { block with predecessors := [], successors := sortUnique block.successors }
  { graph with blocks := (addPredecessors cleared).map fun block =>
      { block with predecessors := sortUnique block.predecessors } }

/-! ### Dominators and post-dominators -/

/-- The sets of the blocks, by position. -/
abbrev BlockSets := List (List ℕ)

/-- One position of a sweep. -/
def sweepStep (next : BlockSets → ℕ → List ℕ) (acc : BlockSets × Bool) (i : ℕ) :
    BlockSets × Bool :=
  let value := next acc.1 i
  if value ≠ (acc.1[i]?).getD [] then (acc.1.set i value, true) else acc

/-- One sweep over the blocks, and whether it changed anything. -/
def sweep (next : BlockSets → ℕ → List ℕ) (sets : BlockSets) : BlockSets × Bool :=
  (List.range sets.length).foldl (sweepStep next) (sets, false)

/-- `while (changed)`: sweeps until one changes nothing. -/
def sweepUntilStable (next : BlockSets → ℕ → List ℕ) : ℕ → BlockSets → BlockSets
  | 0, sets => sets
  | rounds + 1, sets =>
    let swept := sweep next sets
    if swept.2 then sweepUntilStable next rounds swept.1 else swept.1

/-- Sweeps that remove at least one id from one of `count` sets of at most `count` ids
each cannot be more than this, with one last sweep that changes nothing. -/
def sweepRounds (count : ℕ) : ℕ := count * count + 1

/-- The intersection over the neighbours, with the block itself. -/
def meetNeighbours (sets : BlockSets) (neighbours : List ℕ) (self : ℕ) : List ℕ :=
  match neighbours with
  | [] => [self]
  | first :: rest =>
    sortUnique (addUnique (rest.foldl (fun acc n => intersectSorted acc ((sets[n]?).getD []))
      ((sets[first]?).getD [])) self)

/-- The new dominators of the block at a position. -/
def nextDominators (graph : Graph) (sets : BlockSets) (i : ℕ) : List ℕ :=
  let block := graph.blockAt i
  if block.id = graph.entryBlock then (sets[i]?).getD []
  else meetNeighbours sets block.predecessors block.id

/-- The new post-dominators of the block at a position. -/
def nextPostDominators (graph : Graph) (sets : BlockSets) (i : ℕ) : List ℕ :=
  let block := graph.blockAt i
  meetNeighbours sets block.successors block.id

/-- `ComputeDominators`. -/
def computeDominators (graph : Graph) : Graph :=
  let count := graph.blocks.length
  let initial := graph.blocks.map fun block =>
    if block.id = graph.entryBlock then [block.id] else List.range count
  let sets := sweepUntilStable (nextDominators graph) (sweepRounds count) initial
  { graph with
    blocks := List.zipWith (fun block set => { block with dominators := set }) graph.blocks sets }

/-- `ComputePostDominators`. -/
def computePostDominators (graph : Graph) : Graph :=
  let count := graph.blocks.length
  let initial := graph.blocks.map fun block =>
    if block.successors.isEmpty then [block.id] else List.range count
  let sets := sweepUntilStable (nextPostDominators graph) (sweepRounds count) initial
  { graph with
    blocks := List.zipWith (fun block set => { block with postDominators := set }) graph.blocks sets }

/-! ### Loops -/

/-- `ComputeBackEdges`. -/
def computeBackEdges (graph : Graph) : Graph :=
  { graph with
    backEdges := graph.blocks.flatMap fun block =>
      (block.successors.filter fun succ => graph.dominates succ block.id).map fun succ =>
        { source := block.id, target := succ, natural := true } }

/-- The locals of `NaturalLoopBody`. -/
structure LoopSearch where
  body : List ℕ
  stack : List ℕ
  natural : Bool
deriving DecidableEq, Repr

/-- One predecessor of a popped block. -/
def loopSearchPred (graph : Graph) (header : ℕ) (l : LoopSearch) (pred : ℕ) : LoopSearch :=
  let l := { l with natural := l.natural && graph.dominates header pred }
  if pred ∈ l.body then l
  else
    { l with
      body := l.body ++ [pred]
      stack := if pred ≠ header then pred :: l.stack else l.stack }

/-- The stack loop of `NaturalLoopBody`. -/
def loopSearch (graph : Graph) (header : ℕ) : ℕ → LoopSearch → LoopSearch
  | 0, l => l
  | rounds + 1, l =>
    match l.stack with
    | [] => l
    | blockId :: stack =>
      let l := { l with stack := stack }
      match graph.findBlock blockId with
      | none => loopSearch graph header rounds l
      | some block =>
        loopSearch graph header rounds (block.predecessors.foldl (loopSearchPred graph header) l)

/-- `NaturalLoopBody`: the body, and whether the header dominates all of it. -/
def naturalLoopBody (graph : Graph) (header latch : ℕ) : List ℕ × Bool :=
  let l := loopSearch graph header (graph.blocks.length + 1)
    { body := addUnique [header] latch
      stack := if latch ≠ header then [latch] else []
      natural := true }
  (sortUnique l.body, l.natural)

/-- The exit blocks of a loop body. -/
def exitBlocks (graph : Graph) (body : List ℕ) : List ℕ :=
  sortUnique (body.foldl (fun exits blockId =>
    match graph.findBlock blockId with
    | none => exits
    | some block =>
      block.successors.foldl (fun exits succ =>
        if succ ∈ body then exits else addUnique exits succ) exits) [])

/-- The natural loop of a back edge. -/
def naturalLoopOf (graph : Graph) (edge : BackEdge) : NaturalLoop :=
  let body := (naturalLoopBody graph edge.target edge.source).1
  let exits := exitBlocks graph body
  { header := edge.target
    latch := edge.source
    continueBlock := edge.source
    bodyBlocks := body
    exitBlocks := exits
    merge := match exits with
      | [] => uint32Max
      | first :: rest => rest.foldl graph.findNearestCommonPostDominator first }

/-- `ComputeNaturalLoops`. -/
def computeNaturalLoops (graph : Graph) : Graph :=
  { graph with
    backEdges := graph.backEdges.map fun edge =>
      { edge with natural := (naturalLoopBody graph edge.target edge.source).2 }
    naturalLoops := graph.backEdges.map (naturalLoopOf graph) }

/-! ### Strongly connected components -/

/-- `TarjanState`; the top of the stack is the head of the list. -/
structure TarjanState where
  nextIndex : ℕ := 0
  index : List ℕ
  lowlink : List ℕ
  onStack : List Bool
  stack : List ℕ := []
  components : List StronglyConnectedComponent := []
deriving DecidableEq, Repr

namespace TarjanState

/-- `state.index[block]`. -/
def indexOf (state : TarjanState) (block : ℕ) : ℕ := (state.index[block]?).getD uint32Max

/-- `state.lowlink[block]`. -/
def lowlinkOf (state : TarjanState) (block : ℕ) : ℕ := (state.lowlink[block]?).getD uint32Max

/-- `state.on_stack[block]`. -/
def isOnStack (state : TarjanState) (block : ℕ) : Bool := (state.onStack[block]?).getD false

/-- The entry of `TarjanVisit`. -/
def enter (state : TarjanState) (block : ℕ) : TarjanState :=
  { state with
    index := state.index.set block state.nextIndex
    lowlink := state.lowlink.set block state.nextIndex
    nextIndex := state.nextIndex + 1
    stack := block :: state.stack
    onStack := state.onStack.set block true }

/-- `lowlink[block] = min(lowlink[block], value)`. -/
def lower (state : TarjanState) (block value : ℕ) : TarjanState :=
  { state with lowlink := state.lowlink.set block (min (state.lowlinkOf block) value) }

end TarjanState

/-- The member branches to itself. -/
def hasSelfLoop (graph : Graph) (member : ℕ) : Bool :=
  match graph.findBlock member with
  | some block => decide (member ∈ block.successors)
  | none => false

/-- The member has a predecessor outside the component. -/
def enteredFromOutside (graph : Graph) (blocks : List ℕ) (member : ℕ) : Bool :=
  match graph.findBlock member with
  | some block => block.predecessors.any fun pred => !decide (pred ∈ blocks)
  | none => false

/-- The component of the popped members. -/
def componentOf (graph : Graph) (members : List ℕ) : StronglyConnectedComponent :=
  let blocks := sortUnique members
  let cyclic := decide (1 < blocks.length) || blocks.any (hasSelfLoop graph)
  let entries := sortUnique (blocks.filter (enteredFromOutside graph blocks))
  { blocks := blocks
    entryBlocks := entries
    irreducible := cyclic && decide (1 < entries.length) }

/-- The end of `TarjanVisit` on the root of a component: the members are popped. -/
def popComponent (graph : Graph) (state : TarjanState) (block : ℕ) : TarjanState :=
  let above := state.stack.takeWhile (· ≠ block)
  let members := above ++ [block]
  { state with
    stack := state.stack.drop members.length
    onStack := members.foldl (fun onStack member => onStack.set member false) state.onStack
    components := state.components ++ [componentOf graph members] }

/-- `TarjanVisit`; the number bounds the depth of the recursion. -/
def tarjanVisit (graph : Graph) : ℕ → TarjanState → ℕ → TarjanState
  | 0, state, _ => state
  | depth + 1, state, blockId =>
    let state := state.enter blockId
    let successors := ((graph.findBlock blockId).map BasicBlock.successors).getD []
    let state := successors.foldl (fun state succ =>
      if state.indexOf succ = uint32Max then
        let state := tarjanVisit graph depth state succ
        state.lower blockId (state.lowlinkOf succ)
      else if state.isOnStack succ then state.lower blockId (state.indexOf succ)
      else state) state
    if state.lowlinkOf blockId ≠ state.indexOf blockId then state
    else popComponent graph state blockId

/-- The component loop of `ComputeComponents`. -/
def tarjanComponents (graph : Graph) : List StronglyConnectedComponent :=
  let count := graph.blocks.length
  let initial : TarjanState :=
    { index := List.replicate count uint32Max
      lowlink := List.replicate count uint32Max
      onStack := List.replicate count false }
  (graph.blocks.foldl (fun state block =>
    if state.indexOf block.id = uint32Max then tarjanVisit graph count state block.id
    else state) initial).components

/-- `ComputeComponents`. -/
def computeComponents (graph : Graph) : Graph :=
  let graph := { graph with components := tarjanComponents graph, irreducible := false }
  match graph.components.find? StronglyConnectedComponent.irreducible with
  | none => graph
  | some component =>
    { graph with
      irreducible := true
      failureKind := .irreducibleControlFlow
      failureBlock := component.entryBlocks.head?.getD (component.blocks.head?.getD uint32Max)
      unsupportedReason := some .multipleEntries }

/-- `RecomputeAnalyses`. -/
def recomputeAnalyses (graph : Graph) : Graph :=
  computeComponents (computeNaturalLoops (computeBackEdges
    (computePostDominators (computeDominators graph))))

end Prosperismo.Cfg
