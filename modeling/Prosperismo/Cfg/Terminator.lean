import Mathlib.Algebra.Order.Ring.Int

/-!
# Terminators

The block endings of `cfg/ShaderCFG.h`, shared by the control-flow graph and by
the lowered program. Block ids are the source's `uint32_t` values, with
`UINT32_MAX` where there is none.
-/

namespace Prosperismo.Cfg

/-- `UINT32_MAX`, the id of no block, register or selector. -/
def uint32Max : ℕ := 0xffffffff

/-- `BranchCondition`. -/
inductive BranchCondition where
  | always
  | sccZero
  | sccNonZero
  | vccZero
  | vccNonZero
  | execZero
  | execNonZero
  | unknown
deriving DecidableEq, Repr

/-- `TerminatorKind`. -/
inductive TerminatorKind where
  | branch
  | conditionalBranch
  | indirectBranch
  | return_
  | unsupported
deriving DecidableEq, Repr

/-- `Terminator`. -/
structure Terminator where
  kind : TerminatorKind := .return_
  condition : BranchCondition := .always
  trueBlock : ℕ := uint32Max
  falseBlock : ℕ := uint32Max
  mergeBlock : ℕ := uint32Max
  continueBlock : ℕ := uint32Max
  indirectPcSgpr : ℕ := uint32Max
  indirectSelectorCode : ℕ := uint32Max
  indirectTargetPcs : List ℕ := []
  indirectTargets : List ℕ := []
  indirectSelectorValues : List ℕ := []
  indirectSelectorTargets : List ℕ := []
  loopHeader : Bool := false
deriving DecidableEq, Repr

end Prosperismo.Cfg
