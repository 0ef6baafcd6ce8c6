import Mathlib.Data.Finset.Card
import Prosperismo.Base.Dataflow
import Prosperismo.SrtWalker.Model

/-!
# `EliminateReadLane`

The pass of the shader recompiler that takes a scalar through a lane of a vector register without
the vector register. Behind each `WriteLaneU32` of a lane that is read, the value is also put into a
temporary scalar register, and a `ReadLaneU32` that on every path finds the lane as such a write has
left it reads the temporary. The paths are covered by sweeps over the blocks.

Operands are left without their modifiers, which the lane instructions do not have. `none` is that
the sweeps do not end.
-/

namespace Prosperismo.ReadLane

open Prosperismo.SrtWalker (ScalarValue Memos foldCall)

/-! ### The IR -/

/-- `RegisterFile`. -/
inductive RegisterFile
  | scalar
  | vector
  | vcc
  | exec
  | scc
  | m0
  deriving DecidableEq

/-- `Operand`. -/
inductive Operand
  | register (file : RegisterFile) (index : ℕ)
  | immediateU32 (imm : BitVec 32)
  | pcRelativeU32 (imm : BitVec 32)
  | null
  deriving DecidableEq

/-- `Opcode`: those that the pass tells apart, with the other ones. -/
inductive Opcode
  | moveU32
  | moveRelDestU32
  | readLaneU32
  | writeLaneU32
  | uMadU64U32
  | moveU64
  | wqmB64
  | saveexecB64
  | bitwiseAndU64
  | bitwiseAndNotU64
  | bitwiseOrU64
  | bitwiseOrNotU64
  | bitwiseXorU64
  | bitwiseNandU64
  | bitwiseNorU64
  | bitwiseXnorU64
  | bitwiseNotU64
  | bitFieldMaskU64
  | bitFieldExtractU64
  | bitReplicateB64B32
  | shiftLeftLogicalU64
  | shiftRightLogicalU64
  | selectU64
  | other (code : ℕ)
  deriving DecidableEq

/-- `Instruction`: `src` has the operands that count, and `dataDwords` is that of `memory`. -/
structure Instruction where
  pc : ℕ
  op : Opcode
  dst : Operand := .null
  dst2 : Operand := .null
  src : List Operand := []
  scalarSources : List ℕ := []
  dataDwords : ℕ := 0
  deriving DecidableEq

/-- `BasicBlock`. -/
structure BasicBlock where
  instructions : List Instruction
  predecessors : List ℕ
  deriving DecidableEq

/-- `Program`; `values` is its provenance. -/
structure Program where
  waveSize : ℕ
  values : List ScalarValue
  blocks : List BasicBlock

/-! ### Lanes -/

/-- `LaneKey`. -/
structure LaneKey where
  reg : ℕ
  lane : ℕ
  deriving DecidableEq

/-- The order of `LaneKey`. -/
def LaneKey.before (key key' : LaneKey) : Prop :=
  key.reg < key'.reg ∨ key.reg = key'.reg ∧ key.lane < key'.lane

instance (key key' : LaneKey) : Decidable (key.before key') :=
  inferInstanceAs (Decidable (_ ∨ _ ∧ _))

/-- `LaneSet`. -/
abbrev LaneSet := Finset LaneKey

/-- `PairDwordOpcode`. -/
def pairDwordOpcode : Opcode → Bool
  | .moveU64 | .wqmB64 | .saveexecB64 | .bitwiseAndU64 | .bitwiseAndNotU64 | .bitwiseOrU64
  | .bitwiseOrNotU64 | .bitwiseXorU64 | .bitwiseNandU64 | .bitwiseNorU64 | .bitwiseXnorU64
  | .bitwiseNotU64 | .bitFieldMaskU64 | .bitFieldExtractU64 | .bitReplicateB64B32
  | .shiftLeftLogicalU64 | .shiftRightLogicalU64 | .selectU64 => true
  | _ => false

/-- `FoldScalarConstant`. -/
def foldScalarConstant (values : List ScalarValue) (value : ℕ) : Option (BitVec 32) :=
  (foldCall values Memos.initial value).bind (·.1)

/-- `ResolveLane`. -/
def resolveLane (program : Program) (inst : Instruction) (sourceIndex : ℕ) : Option ℕ :=
  match inst.src[sourceIndex]? with
  | none => none
  | some selector =>
    if program.waveSize ≠ 32 ∧ program.waveSize ≠ 64 then none
    else match selector with
      | .immediateU32 imm => some (imm.toNat % program.waveSize)
      | _ =>
        (foldScalarConstant program.values (inst.scalarSources.getD sourceIndex 0)).map
          fun folded => folded.toNat % program.waveSize

/-- `UniformWriteSource`. -/
def uniformWriteSource (inst : Instruction) : Bool :=
  match inst.src.head? with
  | some (.immediateU32 _) | some (.pcRelativeU32 _) => true
  | some (.register .scalar _) | some (.register .scc _) | some (.register .m0 _) => true
  | _ => false

/-- `WriteLaneKey`. -/
def writeLaneKey (program : Program) (inst : Instruction) : Option LaneKey :=
  match inst.op, inst.dst with
  | .writeLaneU32, .register .vector reg =>
    if uniformWriteSource inst then (resolveLane program inst 1).map (⟨reg, ·⟩) else none
  | _, _ => none

/-- `ReadLaneKey`. -/
def readLaneKey (program : Program) (inst : Instruction) : Option LaneKey :=
  match inst.op, inst.src with
  | .readLaneU32, .register .vector reg :: _ :: _ => (resolveLane program inst 1).map (⟨reg, ·⟩)
  | _, _ => none

/-- `InvalidateRegister`. -/
def invalidateRegister (valid : LaneSet) (reg : ℕ) : LaneSet :=
  valid.filter fun key => key.reg ≠ reg

/-- The vector registers of the first destination that an instruction may write. -/
def dwords (inst : Instruction) : ℕ :=
  if pairDwordOpcode inst.op || inst.op == .uMadU64U32 then max (max inst.dataDwords 1) 2
  else max inst.dataDwords 1

/-- What is left of the registers that an instruction writes with its first destination. -/
def invalidateDst (inst : Instruction) (valid : LaneSet) : LaneSet :=
  match inst.dst with
  | .register .vector reg =>
    (List.range (dwords inst)).foldl (fun valid i => invalidateRegister valid (reg + i)) valid
  | _ => valid

/-- `ApplyInstruction`. -/
def applyInstruction (program : Program) (inst : Instruction) (valid : LaneSet) : LaneSet :=
  match inst.op, inst.dst with
  | .writeLaneU32, .register .vector reg =>
    match writeLaneKey program inst with
    | some key => insert key valid
    | none =>
      match resolveLane program inst 1 with
      | some lane => valid.erase ⟨reg, lane⟩
      | none => invalidateRegister valid reg
  | .moveRelDestU32, .register .vector _ => ∅
  | _, _ =>
    match inst.dst2 with
    | .register .vector reg => invalidateRegister (invalidateDst inst valid) reg
    | _ => invalidateDst inst valid

/-- `TransferBlock`. -/
def transferBlock (program : Program) (block : BasicBlock) (state : LaneSet) : LaneSet :=
  block.instructions.foldl (fun state inst => applyInstruction program inst state) state

/-! ### The sweeps -/

/-- The instructions of a program. -/
def Program.instructions (program : Program) : List Instruction :=
  program.blocks.flatMap BasicBlock.instructions

/-- The lanes that the program writes. -/
def laneUniverse (program : Program) : LaneSet :=
  (program.instructions.filterMap (writeLaneKey program)).toFinset

/-- The lanes that are valid at the entry of a block: those that are valid at the exits of all its
predecessors. -/
def nextEntry (program : Program) (block : ℕ) (exit : ℕ → LaneSet) : LaneSet :=
  match program.blocks[block]? with
  | none => ∅
  | some basicBlock =>
    if block ≠ 0 ∧ basicBlock.predecessors ≠ [] then
      if ∀ predecessor ∈ basicBlock.predecessors, predecessor < program.blocks.length then
        basicBlock.predecessors.foldl (fun next predecessor => next ∩ exit predecessor)
          (laneUniverse program)
      else ∅
    else ∅

/-- The lanes that are valid at the exit of a block. -/
def nextExit (program : Program) (block : ℕ) (entry : LaneSet) : LaneSet :=
  match program.blocks[block]? with
  | none => entry
  | some basicBlock => transferBlock program basicBlock entry

/-- The sets that the sweeps start with. -/
def initialFacts (program : Program) : Dataflow.Facts LaneSet :=
  let entry block := if block = 0 then ∅ else laneUniverse program
  ⟨entry, fun block => nextExit program block (entry block)⟩

/-- The sets at which the sweeps end. -/
def validLanes (program : Program) : Option (Dataflow.Facts LaneSet) :=
  Dataflow.solve (nextEntry program) (nextExit program) (List.range program.blocks.length)
    (program.blocks.length * (laneUniverse program).card + 1) (initialFacts program)

/-! ### The rewriting -/

/-- The lanes of the reads of a list that find them valid. -/
def forwardedOf (program : Program) : List Instruction → LaneSet → LaneSet
  | [], _ => ∅
  | inst :: rest, state =>
    (match readLaneKey program inst with
      | some key => if key ∈ state then {key} else ∅
      | none => ∅) ∪ forwardedOf program rest (applyInstruction program inst state)

/-- The lanes that are read where they are valid. -/
def forwarded (program : Program) (entry : ℕ → LaneSet) : LaneSet :=
  (List.range program.blocks.length).toFinset.biUnion fun block =>
    match program.blocks[block]? with
    | none => ∅
    | some basicBlock => forwardedOf program basicBlock.instructions (entry block)

/-- `FirstTemporaryScalarRegister`. -/
def firstTemporaryScalarRegister : ℕ := 128

/-- `UINT32_MAX`. -/
def uint32Max : ℕ := 4294967295

/-- The `consider` of `NextTemporaryScalarRegister`. -/
def consider (next : ℕ) : Operand → ℕ
  | .register .scalar index => if next ≤ index ∧ index ≠ uint32Max then index + 1 else next
  | _ => next

/-- `NextTemporaryScalarRegister`. -/
def nextTemporaryScalarRegister (program : Program) : ℕ :=
  program.instructions.foldl
    (fun next inst => (inst.dst :: inst.dst2 :: inst.src).foldl consider next)
    firstTemporaryScalarRegister

/-- The temporary of a lane: they are numbered in the order of the lanes. -/
def temporaryOf (forwarded : LaneSet) (next : ℕ) (key : LaneKey) : Option ℕ :=
  if key ∈ forwarded then some (next + (forwarded.filter (·.before key)).card) else none

/-- `ShadowWrite`. -/
def shadowWrite (write : Instruction) (temporary : ℕ) : Instruction :=
  { pc := write.pc, op := .moveU32, dst := .register .scalar temporary,
    src := [write.src.headD .null] }

/-- `ShadowRead`. -/
def shadowRead (read : Instruction) (temporary : ℕ) : Instruction :=
  { pc := read.pc, op := .moveU32, dst := read.dst, src := [.register .scalar temporary] }

/-- `ReadLaneEliminationStats`. -/
structure Stats where
  rewrittenReads : ℕ := 0
  shadowWrites : ℕ := 0
  deriving DecidableEq

/-- The temporary of a read that finds its lane valid. -/
def readTemporary (program : Program) (temporaries : LaneKey → Option ℕ) (inst : Instruction)
    (state : LaneSet) : Option ℕ :=
  (readLaneKey program inst).bind fun key => if key ∈ state then temporaries key else none

/-- What stands in the place of one instruction. -/
def rewriteInstruction (program : Program) (temporaries : LaneKey → Option ℕ) (inst : Instruction)
    (state : LaneSet) : List Instruction :=
  match readTemporary program temporaries inst state with
  | some temporary => [shadowRead inst temporary]
  | none =>
    match (writeLaneKey program inst).bind temporaries with
    | some temporary => [inst, shadowWrite inst temporary]
    | none => [inst]

/-- The instructions of a block, rewritten. -/
def rewriteBlock (program : Program) (temporaries : LaneKey → Option ℕ) :
    List Instruction → LaneSet → List Instruction
  | [], _ => []
  | inst :: rest, state =>
    rewriteInstruction program temporaries inst state ++
      rewriteBlock program temporaries rest (applyInstruction program inst state)

/-- The reads and the writes of a block that are rewritten. -/
def blockStats (program : Program) (temporaries : LaneKey → Option ℕ) :
    List Instruction → LaneSet → Stats → Stats
  | [], _, stats => stats
  | inst :: rest, state, stats =>
    blockStats program temporaries rest (applyInstruction program inst state) <|
      match readTemporary program temporaries inst state with
      | some _ => { stats with rewrittenReads := stats.rewrittenReads + 1 }
      | none =>
        match (writeLaneKey program inst).bind temporaries with
        | some _ => { stats with shadowWrites := stats.shadowWrites + 1 }
        | none => stats

/-- A block with its instructions rewritten. -/
def rewriteBasicBlock (program : Program) (temporaries : LaneKey → Option ℕ)
    (entry : ℕ → LaneSet) (block : ℕ) (basicBlock : BasicBlock) : BasicBlock :=
  ⟨rewriteBlock program temporaries basicBlock.instructions (entry block), basicBlock.predecessors⟩

/-- A program with its blocks rewritten. -/
def rewrite (program : Program) (temporaries : LaneKey → Option ℕ) (entry : ℕ → LaneSet) :
    Program × Stats :=
  ({ program with blocks := program.blocks.mapIdx (rewriteBasicBlock program temporaries entry) },
    (program.blocks.zipIdx).foldl (fun stats block =>
      blockStats program temporaries block.1.instructions (entry block.2) stats) {})

/-- `EliminateReadLane`. -/
def eliminateReadLane (program : Program) : Option (Program × Stats) :=
  if program.blocks = [] ∨ program.waveSize ≠ 32 ∧ program.waveSize ≠ 64 then some (program, {})
  else if laneUniverse program = ∅ then some (program, {})
  else do
    let facts ← validLanes program
    let lanes := forwarded program facts.entry
    if lanes = ∅ then some (program, {})
    else
      let next := nextTemporaryScalarRegister program
      -- the numbers of the temporaries end before `UINT32_MAX`
      if uint32Max < next + lanes.card then some (program, {})
      else some (rewrite program (temporaryOf lanes next) facts.entry)

end Prosperismo.ReadLane
