import Mathlib.Logic.Function.Basic
import Prosperismo.ResourceTracking.Model

/-!
# Folding and evaluating scalar values

`ConstantFolder` and `Evaluator` of `SrtWalker.cpp`: two recursions over the values of a provenance
graph, each with an array of states that keeps what is in progress and what is known. `none` of both
is that the fuel is used up.

The texts of errors are left out. Memory and the rest of the runtime are those of `SrtRuntime`, with
the memory of the host behind a null `read_memory`.
-/

namespace Prosperismo.SrtWalker

open Prosperismo.ResourceTracking (ScalarValueOp scalarValueArgCount)

/-- `ScalarValue`, with the arguments as an array. -/
structure ScalarValue where
  op : ScalarValueOp
  imm : BitVec 32
  args : ℕ → ℕ
  phiArgs : List ℕ

/-- The arguments that count. -/
def ScalarValue.operands (value : ScalarValue) : List ℕ :=
  (List.range (scalarValueArgCount value.op)).map value.args

/-! ### Operations -/

/-- The mask of `BitFieldMaskU64Low` and `BitFieldMaskU64High`. -/
def bitFieldMask64 (count offset : BitVec 32) : BitVec 64 :=
  (((1 : BitVec 64) <<< (count &&& 63)) - 1) <<< (offset &&& 63)

/-- `ApplyOperation`; arguments that are not given are zero. -/
def applyOperation (op : ScalarValueOp) (args : List (BitVec 32)) : Option (BitVec 32) :=
  let a := args.getD 0 0
  let b := args.getD 1 0
  let c := args.getD 2 0
  let shift := b &&& 31
  match op with
  | .add => some (a + b)
  | .addCarry => some (a + b + (c &&& 1))
  | .carry =>
    some (((a.setWidth 64 + b.setWidth 64 + (c &&& 1).setWidth 64) >>> 32).setWidth 32)
  | .sub => some (a - b)
  | .subBorrow => some (a - b - (c &&& 1))
  | .borrow => some (if a.setWidth 64 < b.setWidth 64 + (c &&& 1).setWidth 64 then 1 else 0)
  | .mul => some (a * b)
  | .and => some (a &&& b)
  | .andNot => some (a &&& ~~~b)
  | .or => some (a ||| b)
  | .orNot => some (a ||| ~~~b)
  | .xor => some (a ^^^ b)
  | .not => some (~~~a)
  | .shiftLeft => some (a <<< shift)
  | .shiftRight => some (a >>> shift)
  | .shiftRightArithmetic => some (a.sshiftRight' shift)
  | .bitFieldMaskU32 => some ((((1 : BitVec 32) <<< (a &&& 31)) - 1) <<< (b &&& 31))
  | .bitFieldMaskU64Low => some ((bitFieldMask64 a b).setWidth 32)
  | .bitFieldMaskU64High => some ((bitFieldMask64 a b >>> 32).setWidth 32)
  | .add3 => some (a + b + c)
  | .shiftLeftAdd => some ((a <<< shift) + c)
  | .shiftLeftAddCarry =>
    some ((((a.setWidth 64 <<< shift) + c.setWidth 64) >>> 32).setWidth 32)
  | .addShiftLeft => some ((a + b) <<< (c &&& 31))
  | .xorAdd => some ((a ^^^ b) + c)
  | .shiftLeftOr => some ((a <<< shift) ||| c)
  | _ => none

/-! ### States -/

/-- An entry of `m_state`, with that of `m_values` where there is one. -/
inductive Memo
  | fresh
  | busy
  | done (value : BitVec 32)
  | dynamic
deriving DecidableEq

/-- `m_state` and `m_values`. -/
abbrev Memos := ℕ → Memo

/-- The states of a new folder, or of a new evaluator. -/
def Memos.initial : Memos := fun _ => .fresh

/-- What a step gives: a value or a failure, and the states. -/
abbrev Outcome (α : Type) := Option (Option α × Memos)

/-- The values of some ids, one after the other, up to the first one that has none. -/
def allValues (value : Memos → ℕ → Outcome (BitVec 32)) :
    List ℕ → Memos → Outcome (List (BitVec 32))
  | [], memos => some (some [], memos)
  | id :: ids, memos =>
    match value memos id with
    | none => none
    | some (none, memos) => some (none, memos)
    | some (some c, memos) =>
      match allValues value ids memos with
      | none => none
      | some (none, memos) => some (none, memos)
      | some (some cs, memos) => some (some (c :: cs), memos)

/-- Whether some ids have a given value, one after the other, up to the first one that has not. -/
def sameValues (value : Memos → ℕ → Outcome (BitVec 32)) (out : BitVec 32) :
    List ℕ → Memos → Outcome (BitVec 32)
  | [], memos => some (some out, memos)
  | id :: ids, memos =>
    match value memos id with
    | none => none
    | some (none, memos) => some (none, memos)
    | some (some other, memos) =>
      if other ≠ out then some (none, memos) else sameValues value out ids memos

/-- An operation on the values of its arguments. -/
def applyTo (op : ScalarValueOp) : Outcome (List (BitVec 32)) → Outcome (BitVec 32)
  | none => none
  | some (none, memos) => some (none, memos)
  | some (some args, memos) => some (applyOperation op args, memos)

variable (values : List ScalarValue)

/-! ### `ConstantFolder` -/

/-- The `switch` of `ConstantFolder::Fold`, with the fold of the arguments. -/
def foldValue (foldArg : Memos → ℕ → Outcome (BitVec 32)) (value : ScalarValue) (memos : Memos) :
    Outcome (BitVec 32) :=
  match value.op with
  | .constant => some (some value.imm, memos)
  | .phi =>
    match value.phiArgs with
    | [] => some (none, memos)
    | first :: others =>
      match foldArg memos first with
      | none => none
      | some (none, memos) => some (none, memos)
      | some (some out, memos) => sameValues foldArg out others memos
  | op =>
    let count := scalarValueArgCount op
    if count = 0 ∨ 3 < count ∨ op = .readConst then some (none, memos)
    else applyTo op (allValues foldArg value.operands memos)

/-- `ConstantFolder::Fold`. -/
def fold : ℕ → Memos → ℕ → Outcome (BitVec 32)
  | 0, _, _ => none
  | fuel + 1, memos, id =>
    match values[id]? with
    | none => some (none, memos)
    | some value =>
      match memos id with
      | .busy | .dynamic => some (none, memos)
      | .done c => some (some c, memos)
      | .fresh =>
        match foldValue (fold fuel) value (Function.update memos id .busy) with
        | none => none
        | some (none, memos) => some (none, Function.update memos id .dynamic)
        | some (some out, memos) => some (some out, Function.update memos id (.done out))

/-- A call of `Fold`. -/
def foldCall (memos : Memos) (id : ℕ) : Outcome (BitVec 32) :=
  fold values (values.length + 1) memos id

/-- Calls of `Fold` on one folder. -/
def foldCalls : List ℕ → Memos → Option Memos
  | [], memos => some memos
  | id :: ids, memos =>
    match foldCall values memos id with
    | none => none
    | some (_, memos) => foldCalls ids memos

/-! ### `Evaluator` -/

/-- `SrtRuntime`, with `user_data_base` of the program. -/
structure Runtime where
  userDataBase : BitVec 32
  userData : List (BitVec 32)
  shaderBase : BitVec 64
  readMemory : BitVec 64 → Option (BitVec 32)

/-- `AddressMask`. -/
def addressMask : BitVec 64 := 0x0000ffffffffffff

/-- `AddSignedAddress`. -/
def addSignedAddress (base offset : BitVec 64) : Option (BitVec 64) :=
  if addressMask < base then none
  else if offset.slt 0 then
    let magnitude := 0 - offset
    if base < magnitude then none else some (base - magnitude)
  else if addressMask - base < offset then none
  else some (base + offset)

/-- The address `Evaluator::Read` reads for `ReadConst`. -/
def readConstAddress (lo hi offset imm : BitVec 32) : Option (BitVec 64) :=
  let base := (hi.setWidth 64 <<< 32 ||| lo.setWidth 64) &&& addressMask
  addSignedAddress (base &&& ~~~3)
    ((imm.signExtend 64 &&& ~~~3) + (offset &&& ~~~3).setWidth 64)

/-- The address `Evaluator::Read` reads for `ReadConstBuffer`. -/
def readConstBufferAddress (lo hi numRecords offset imm : BitVec 32) : Option (BitVec 64) :=
  let base := (hi.setWidth 64 <<< 32 ||| lo.setWidth 64) &&& addressMask
  if imm.slt 0 then none
  else
    let byteOffset := imm.signExtend 64 + offset.setWidth 64
    let alignedOffset := byteOffset &&& ~~~3
    let stride := (hi >>> 16) &&& 0x3fff
    let size := if stride = 0 then numRecords.setWidth 64
      else stride.setWidth 64 * numRecords.setWidth 64
    if size < alignedOffset ∨ size - alignedOffset < 4 then none
    else some (((base &&& ~~~3) + byteOffset) &&& ~~~3)

variable (runtime : Runtime)

/-- `Evaluator::Read`, with the arguments that were evaluated. -/
def readAt (address : List (BitVec 32) → Option (BitVec 64)) :
    Outcome (List (BitVec 32)) → Outcome (BitVec 32)
  | none => none
  | some (none, memos) => some (none, memos)
  | some (some args, memos) => some ((address args).bind runtime.readMemory, memos)

/-- The `switch` of `Evaluator::Evaluate`, with the evaluation of the arguments. -/
def evaluateValue (evaluateArg : Memos → ℕ → Outcome (BitVec 32)) (id : ℕ) (value : ScalarValue)
    (memos : Memos) : Outcome (BitVec 32) :=
  match value.op with
  | .userData =>
    if value.imm < runtime.userDataBase then some (none, memos)
    else some (runtime.userData[(value.imm - runtime.userDataBase).toNat]?, memos)
  | .constant => some (some value.imm, memos)
  | .pcRelativeLow =>
    some (some ((runtime.shaderBase + value.imm.setWidth 64).setWidth 32), memos)
  | .pcRelativeHigh =>
    some (some (((runtime.shaderBase + value.imm.setWidth 64) >>> 32).setWidth 32), memos)
  | .phi =>
    match value.phiArgs.find? (· ≠ id) with
    | none => some (none, memos)
    | some first =>
      match evaluateArg memos first with
      | none => none
      | some (none, memos) => some (none, memos)
      | some (some out, memos) =>
        sameValues evaluateArg out (value.phiArgs.filter fun arg => arg ≠ id ∧ arg ≠ first) memos
  | .readConst =>
    readAt runtime (fun args => readConstAddress (args.getD 0 0) (args.getD 1 0) (args.getD 2 0)
      value.imm) (allValues evaluateArg ([0, 1, 2].map value.args) memos)
  | .readConstBuffer =>
    -- the offset is evaluated before the number of records
    readAt runtime (fun args => readConstBufferAddress (args.getD 0 0) (args.getD 1 0)
      (args.getD 3 0) (args.getD 2 0) value.imm)
      (allValues evaluateArg ([0, 1, 4, 2, 3].map value.args) memos)
  | .undefined | .unknown => some (none, memos)
  | op =>
    let count := scalarValueArgCount op
    if count = 0 ∨ 3 < count then some (none, memos)
    else applyTo op (allValues evaluateArg value.operands memos)

/-- `Evaluator::Evaluate`. A failure leaves what was in progress so. -/
def evaluate : ℕ → Memos → ℕ → Outcome (BitVec 32)
  | 0, _, _ => none
  | fuel + 1, memos, id =>
    match values[id]? with
    | none => some (none, memos)
    | some value =>
      match memos id with
      | .done c => some (some c, memos)
      | .busy | .dynamic => some (none, memos)
      | .fresh =>
        match evaluateValue runtime (evaluate fuel) id value (Function.update memos id .busy) with
        | none => none
        | some (none, memos) => some (none, memos)
        | some (some out, memos) => some (some out, Function.update memos id (.done out))

/-- A call of `Evaluate` on a new evaluator. -/
def evaluateCall (id : ℕ) : Outcome (BitVec 32) :=
  evaluate values runtime (values.length + 1) Memos.initial id

end Prosperismo.SrtWalker
