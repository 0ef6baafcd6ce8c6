import Prosperismo.Decoder.ScalarAluOps
import Prosperismo.Decoder.ImageOps
import Prosperismo.Decoder.VectorAluOps

/-!
# Decoding a program

`DecodeProgram`: the instructions from the first word on, each where the one before it
ends, up to an `s_endpgm` that no branch seen so far jumps right behind.

The loop runs on fuel, one step an instruction; `none` is its end, which is never reached
(`decodeProgram_terminates`).
-/

namespace Prosperismo.Decoder

/-- `IsControlFlowBranch`: the direct branches. -/
def isControlFlowBranch (opcode : Opcode) : Bool :=
  opcode ∈ [.sBranch, .sCbranchScc0, .sCbranchScc1, .sCbranchVccz, .sCbranchVccnz,
    .sCbranchExecz, .sCbranchExecnz]

/-- The decoder of the family of a word; the `ok` of the loop of `DecodeProgram`. -/
def decodeInstruction (code : Code) (index : ℕ) : Except Failure Instruction := do
  let pc := index * 4
  let word ← code.word index
  if word &&& 0x80000000 = 0 then decodeVop2 pc code index
  else if word &&& 0xc0000000 = 0x80000000 then
    let opcode := word >>> 23 &&& 0x7f
    if opcode = 0x7d then decodeSop1 pc code index
    else if opcode = 0x7e then decodeSopc pc code index
    else if opcode = 0x7f then decodeSopp pc code index
    else if 0x60 ≤ opcode then decodeSopk pc code index
    else decodeSop2 pc code index
  else
    match word >>> 26 with
    | 0x32 => decodeVintrp pc code index
    | 0x33 => decodeVop3p pc code index
    | 0x35 => decodeVop3 pc code index
    | 0x36 => decodeDs pc code index
    | 0x37 => decodeFlat pc code index
    | 0x38 => decodeMubuf pc code index
    | 0x3a => decodeMtbuf pc code index
    | 0x3c => decodeMimg pc code index
    | 0x3d => decodeSmem pc code index
    | 0x3e => decodeExp pc code index
    | _ => .error (.unknownFamily pc word)

/-- `branch_targets` behind an instruction. -/
def branchTargets (inst : Instruction) (targets : List ℕ) : List ℕ :=
  if isControlFlowBranch inst.opcode then inst.branchTarget :: targets else targets

/-- Decoding ends behind the instruction, at the index. -/
def isEnd (code : Code) (targets : List ℕ) (inst : Instruction) (index : ℕ) : Bool :=
  inst.opcode = .sEndpgm && (decide (code.length ≤ index) || decide (index * 4 ∉ targets))

/-- The loop of `DecodeProgram`. -/
def decodeLoop (code : Code) :
    ℕ → List ℕ → List Instruction → ℕ → Option (Except Failure (List Instruction))
  | 0, _, _, _ => none
  | fuel + 1, targets, instructions, index =>
    if code.length ≤ index then some (.error .noEndpgm)
    else
      match decodeInstruction code index with
      | .error failure => some (.error failure)
      | .ok inst =>
        let instructions := instructions ++ [inst]
        let index := index + inst.wordCount
        let targets := branchTargets inst targets
        if isEnd code targets inst index then some (.ok instructions)
        else decodeLoop code fuel targets instructions index

/-- `DecodeProgram`. The check of the size keeps the pcs below `2 ^ 32`. -/
def decodeProgram (code : Code) : Option (Except Failure (List Instruction)) :=
  if code = [] ∨ (2 ^ 32 - 1) / 4 < code.length then some (.error .invalidInput)
  else decodeLoop code (code.length + 1) [] [] 0

end Prosperismo.Decoder
