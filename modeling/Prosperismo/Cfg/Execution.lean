import Prosperismo.Cfg.Ascending
import Mathlib.Logic.Function.Basic
import Mathlib.Logic.Relation

/-!
# Execution of the scalar instructions

What a wave does between an `S_GETPC_B64` and an `S_SETPC_B64`: the scalar
instructions that `ShaderCFG.cpp` looks through are executed as the hardware does, on
the scalar registers, SCC and the program counter. Program counters are relative to the
start of the code, as `LowerScalarGetpcB64` has them. Any other instruction may change
SCC and the registers that it `writes`, and no others.

`Program.Straight` is what the backward searches of the resolver take for granted: a
point of the sequence is reached from the instruction in front of it. A fact about the
registers then holds at every later point up to the next write (`Straight.carry`).
-/

namespace Prosperismo.Cfg

open Relation (ReflTransGen)

/-- The scalar state of a wave: the 64-bit program counter, and the registers by their code. -/
structure ScalarState where
  pc : ℕ
  registers : ℕ → ℕ
  scc : Bool

/-! ### Operands -/

/-- The value of a source operand. `NULL` reads as 0; the sources that are not registers of this
model, such as `VCCZ`, may have any value. -/
def ScalarState.Reads (s : ScalarState) (operand : Operand) (value : ℕ) : Prop :=
  match scalarOperandCode operand, immediate operand with
  | some code, _ => value = s.registers code
  | none, some imm => value = imm
  | none, none => operand.kind = .null → value = 0

/-- The two dwords of a 64-bit source operand. -/
def ScalarState.ReadsPair (s : ScalarState) (operand : Operand) (low high : ℕ) : Prop :=
  match scalarOperandCode operand with
  | some code => low = s.registers code ∧ high = s.registers (code + 1)
  | none => True

/-- The registers after a write to a destination operand. -/
def writeScalar (registers : ℕ → ℕ) (operand : Operand) (value : ℕ) : ℕ → ℕ :=
  match scalarOperandCode operand with
  | some code => Function.update registers code value
  | none => registers

/-- The registers after a 64-bit write to a destination operand. -/
def writeScalarPair (registers : ℕ → ℕ) (operand : Operand) (low high : ℕ) : ℕ → ℕ :=
  match scalarOperandCode operand with
  | some code => Function.update (Function.update registers code low) (code + 1) high
  | none => registers

/-! ### Instructions -/

/-- The sum of two `int32_t` values does not fit. -/
def overflows (x : ℤ) : Bool := decide (x < -2 ^ 31) || decide (2 ^ 31 ≤ x)

/-- The result of an arithmetic opcode, and SCC. -/
def arithmetic (opcode : Opcode) (x y : ℕ) (scc : Bool) : Option (ℕ × Bool) :=
  match opcode with
  | .sAddU32 => some (u32 (x + y), u32 (x + y) != x + y)
  | .sAddI32 => some (u32 (x + y), overflows (i32 x + i32 y))
  | .sSubU32 => some (u32Sub x y, decide (x < y))
  | .sSubI32 => some (u32Sub x y, overflows (i32 x - i32 y))
  | .sAddcU32 => some (u32 (x + y + scc.toNat), u32 (x + y + scc.toNat) != x + y + scc.toNat)
  | .sLshlB32 => some (u32 (x <<< (y % 32)), u32 (x <<< (y % 32)) != 0)
  | .sMinU32 => some (min x y, decide (x < y))
  | _ => none

/-- The opcodes that the resolver looks for in no place. -/
def Opcode.isOther : Opcode → Bool
  | .unsupported | .other _ => true
  | _ => false

/-- A branch with the condition is taken. -/
def ScalarState.Takes (s : ScalarState) : BranchCondition → Prop
  | .always => True
  | .sccZero => s.scc = false
  | .sccNonZero => s.scc = true
  | .vccZero => s.registers 106 = 0 ∧ s.registers 107 = 0
  | .vccNonZero => ¬(s.registers 106 = 0 ∧ s.registers 107 = 0)
  | .execZero => s.registers 126 = 0 ∧ s.registers 127 = 0
  | .execNonZero => ¬(s.registers 126 = 0 ∧ s.registers 127 = 0)
  | _ => False

/-- The dword address of an `S_LOAD`: the offset of the instruction is sign-extended, and the
low bits of the sum are ignored. -/
def loadWord (offset low high soffset : ℕ) : ℕ :=
  let extended := if offset < 2 ^ 31 then offset else offset + (2 ^ 64 - 2 ^ 32)
  (low + 2 ^ 32 * high + soffset + extended) % 2 ^ 64 / 4

section Executes

variable (code : List ℕ) (writes : Instruction → ℕ → Prop)

/-- A word of memory: those of the code are known. -/
def Holds (word value : ℕ) : Prop := ∀ known, code[word]? = some known → value = known

/-- **One instruction.** An `S_ENDPGM` ends the execution, and so does an `S_TRAP`, whose handler
is not part of the program. -/
inductive Instruction.Executes (inst : Instruction) (s : ScalarState) : ScalarState → Prop
  | branch (hop : isBranch inst.opcode = true) (htaken : s.Takes (conditionForOpcode inst.opcode)) :
      Executes inst s { s with pc := inst.branchTarget }
  | notTaken (hop : isBranch inst.opcode = true)
      (htaken : ¬s.Takes (conditionForOpcode inst.opcode)) :
      Executes inst s { s with pc := instructionEndPc inst }
  | getpc (hop : inst.opcode = .sGetpcB64) :
      Executes inst s
        { s with
          pc := instructionEndPc inst
          registers := writeScalarPair s.registers inst.dst (instructionEndPc inst) 0 }
  | arithmetic {x y : ℕ} {result : ℕ × Bool}
      (hop : Cfg.arithmetic inst.opcode x y s.scc = some result) (hx : s.Reads inst.src0 x)
      (hy : s.Reads inst.src1 y) :
      Executes inst s
        { pc := instructionEndPc inst
          registers := writeScalar s.registers inst.dst result.1
          scc := result.2 }
  | load {low high soffset lowWord highWord : ℕ} (hop : inst.opcode = .sLoadDwordx2)
      (hbase : s.ReadsPair inst.src0 low high) (hoffset : s.Reads inst.src1 soffset)
      (hlow : Holds code (loadWord inst.offset low high soffset) lowWord)
      (hhigh : Holds code (loadWord inst.offset low high soffset + 1) highWord) :
      Executes inst s
        { s with
          pc := instructionEndPc inst
          registers := writeScalarPair s.registers inst.dst lowWord highWord }
  | setpc {low high : ℕ} (hop : inst.opcode = .sSetpcB64)
      (htarget : s.ReadsPair inst.src0 low high) :
      Executes inst s { s with pc := alignDown low + 2 ^ 32 * high }
  | other {registers : ℕ → ℕ} {scc : Bool} (hop : inst.opcode.isOther = true)
      (hframe : ∀ c, ¬writes inst c → registers c = s.registers c) :
      Executes inst s { pc := instructionEndPc inst, registers, scc }

/-- The scalar registers that an instruction changes. -/
def Instruction.Changes (inst : Instruction) (c : ℕ) : Prop :=
  match inst.opcode with
  | .sGetpcB64 | .sLoadDwordx2 =>
    ∃ d, scalarOperandCode inst.dst = some d ∧ (c = d ∨ c = d + 1)
  | .sAddU32 | .sAddI32 | .sSubU32 | .sSubI32 | .sAddcU32 | .sLshlB32 | .sMinU32 =>
    scalarOperandCode inst.dst = some c
  | .unsupported | .other _ => writes inst c
  | _ => False

end Executes

theorem writeScalar_of_ne {registers : ℕ → ℕ} {operand : Operand} {value c : ℕ}
    (h : scalarOperandCode operand ≠ some c) :
    writeScalar registers operand value c = registers c := by
  unfold writeScalar
  cases hd : scalarOperandCode operand with
  | none => rfl
  | some d => exact Function.update_of_ne (fun heq => h (by rw [hd, heq])) _ _

theorem writeScalar_self {registers : ℕ → ℕ} {operand : Operand} {value c : ℕ}
    (h : scalarOperandCode operand = some c) : writeScalar registers operand value c = value := by
  rw [writeScalar, h]
  exact Function.update_self c value registers

theorem writeScalarPair_of_ne {registers : ℕ → ℕ} {operand : Operand} {low high c : ℕ}
    (h : ¬∃ d, scalarOperandCode operand = some d ∧ (c = d ∨ c = d + 1)) :
    writeScalarPair registers operand low high c = registers c := by
  unfold writeScalarPair
  cases hd : scalarOperandCode operand with
  | none => rfl
  | some d =>
    dsimp only
    rw [Function.update_of_ne (fun heq => h ⟨d, hd, .inr heq⟩),
      Function.update_of_ne (fun heq => h ⟨d, hd, .inl heq⟩)]

theorem writeScalarPair_low {registers : ℕ → ℕ} {operand : Operand} {low high c : ℕ}
    (h : scalarOperandCode operand = some c) :
    writeScalarPair registers operand low high c = low := by
  rw [writeScalarPair, h]
  dsimp only
  rw [Function.update_of_ne (Nat.lt_succ_self c).ne, Function.update_self]

namespace Instruction.Executes

variable {code : List ℕ} {writes : Instruction → ℕ → Prop} {inst : Instruction}
  {s s' : ScalarState}

/-- **Frame.** A register that an instruction does not change keeps its value. -/
theorem frame (h : inst.Executes code writes s s') {c : ℕ} (hc : ¬inst.Changes writes c) :
    s'.registers c = s.registers c := by
  cases h with
  | branch => rfl
  | notTaken => rfl
  | setpc => rfl
  | getpc hop =>
    refine writeScalarPair_of_ne ?_
    simpa [Instruction.Changes, hop] using hc
  | load hop =>
    refine writeScalarPair_of_ne ?_
    simpa [Instruction.Changes, hop] using hc
  | arithmetic hop =>
    refine writeScalar_of_ne fun hdst => hc ?_
    unfold Cfg.arithmetic at hop
    unfold Instruction.Changes
    split at hop <;> first | simp only [*]; done | cases hop
  | other hop hframe =>
    refine hframe c fun hwrites => hc ?_
    unfold Opcode.isOther at hop
    unfold Instruction.Changes
    split at hop <;> first | simp only [*]; done | cases hop

/-! What the opcodes do that the resolver looks for: of the rules, only one is about the opcode. -/

theorem of_getpc (h : inst.Executes code writes s s') (hop : inst.opcode = .sGetpcB64) {d : ℕ}
    (hd : scalarOperandCode inst.dst = some d) : s'.registers d = instructionEndPc inst := by
  cases h with
  | getpc => exact writeScalarPair_low hd
  | arithmetic h => rw [hop] at h; cases h
  | branch h | notTaken h | load h | setpc h | other h => rw [hop] at h; cases h

theorem of_arithmetic (h : inst.Executes code writes s s')
    (hop : ∀ x y scc, (Cfg.arithmetic inst.opcode x y scc).isSome) {d : ℕ}
    (hd : scalarOperandCode inst.dst = some d) :
    ∃ x y result, Cfg.arithmetic inst.opcode x y s.scc = some result ∧ s.Reads inst.src0 x ∧
      s.Reads inst.src1 y ∧ s'.registers d = result.1 := by
  cases h with
  | arithmetic h hx hy => exact ⟨_, _, _, h, hx, hy, writeScalar_self hd⟩
  | branch h | notTaken h | getpc h | load h | setpc h | other h =>
    have := hop 0 0 false
    unfold Cfg.arithmetic at this
    split at this <;> simp_all [isBranch, isUnconditionalBranch, isConditionalBranch, Opcode.isOther]

theorem of_load (h : inst.Executes code writes s s') (hop : inst.opcode = .sLoadDwordx2) {d : ℕ}
    (hd : scalarOperandCode inst.dst = some d) :
    ∃ low high soffset, s.ReadsPair inst.src0 low high ∧ s.Reads inst.src1 soffset ∧
      Holds code (loadWord inst.offset low high soffset) (s'.registers d) := by
  cases h with
  | load _ hbase hoffset hlow =>
    refine ⟨_, _, _, hbase, hoffset, ?_⟩
    dsimp only
    rwa [writeScalarPair_low hd]
  | arithmetic h => rw [hop] at h; cases h
  | branch h | notTaken h | getpc h | setpc h | other h => rw [hop] at h; cases h

theorem of_setpc (h : inst.Executes code writes s s') (hop : inst.opcode = .sSetpcB64) :
    ∃ low high, s.ReadsPair inst.src0 low high ∧ s'.pc = alignDown low + 2 ^ 32 * high := by
  cases h with
  | setpc _ htarget => exact ⟨_, _, htarget, rfl⟩
  | arithmetic h => rw [hop] at h; cases h
  | branch h | notTaken h | getpc h | load h | other h => rw [hop] at h; cases h

end Instruction.Executes

/-! ### What can be executed -/

theorem ScalarState.exists_reads (s : ScalarState) (operand : Operand) :
    ∃ value, s.Reads operand value := by
  unfold Reads
  cases scalarOperandCode operand with
  | some code => exact ⟨_, rfl⟩
  | none =>
    cases immediate operand with
    | some imm => exact ⟨_, rfl⟩
    | none => exact ⟨0, fun _ => rfl⟩

theorem ScalarState.exists_readsPair (s : ScalarState) (operand : Operand) :
    ∃ low high, s.ReadsPair operand low high := by
  unfold ReadsPair
  cases scalarOperandCode operand with
  | some code => exact ⟨_, _, rfl, rfl⟩
  | none => exact ⟨0, 0, trivial⟩

theorem exists_holds (code : List ℕ) (word : ℕ) : ∃ value, Holds code word value := by
  unfold Holds
  cases code[word]? with
  | some value => exact ⟨value, fun known h => Option.some_inj.1 h⟩
  | none => exact ⟨0, fun known h => by cases h⟩

/-- A conditional branch can be taken and not taken. -/
theorem exists_takes (pc : ℕ) {opcode : Opcode} (h : isConditionalBranch opcode = true) :
    (∃ s : ScalarState, s.pc = pc ∧ s.Takes (conditionForOpcode opcode)) ∧
      ∃ s : ScalarState, s.pc = pc ∧ ¬s.Takes (conditionForOpcode opcode) := by
  -- SCC is clear and the masks are zero in the one state, and not in the other
  let zero : ScalarState := ⟨pc, fun _ => 0, false⟩
  let one : ScalarState := ⟨pc, fun _ => 1, true⟩
  have hone : ∀ c, one.registers c ≠ 0 := fun _ => Nat.one_ne_zero
  unfold isConditionalBranch at h
  split at h
  · exact ⟨⟨zero, rfl, rfl⟩, one, rfl, Bool.true_eq_false_eq_False⟩
  · exact ⟨⟨one, rfl, rfl⟩, zero, rfl, Bool.false_ne_true⟩
  · exact ⟨⟨zero, rfl, rfl, rfl⟩, one, rfl, fun h => hone _ h.1⟩
  · exact ⟨⟨one, rfl, fun h => hone _ h.1⟩, zero, rfl, fun h => h ⟨rfl, rfl⟩⟩
  · exact ⟨⟨zero, rfl, rfl, rfl⟩, one, rfl, fun h => hone _ h.1⟩
  · exact ⟨⟨one, rfl, fun h => hone _ h.1⟩, zero, rfl, fun h => h ⟨rfl, rfl⟩⟩
  · cases h

/-- The pcs that a wave at the instruction can go to. -/
def Instruction.ExecutesTo (code : List ℕ) (writes : Instruction → ℕ → Prop) (inst : Instruction)
    (pc : ℕ) : Prop :=
  ∃ s s', s.pc = inst.pc ∧ inst.Executes code writes s s' ∧ s'.pc = pc

/-- An instruction that is not about the pc can be executed in every state. -/
theorem exists_falls_through (code : List ℕ) (writes : Instruction → ℕ → Prop) {inst : Instruction}
    (hbranch : isBranch inst.opcode = false) (hsetpc : inst.opcode ≠ .sSetpcB64)
    (hend : inst.opcode ≠ .sEndpgm ∧ inst.opcode ≠ .sTrap) (s : ScalarState) :
    ∃ s', inst.Executes code writes s s' ∧ s'.pc = instructionEndPc inst := by
  obtain ⟨x, hx⟩ := s.exists_reads inst.src0
  obtain ⟨y, hy⟩ := s.exists_reads inst.src1
  obtain ⟨low, high, hpair⟩ := s.exists_readsPair inst.src0
  have harithmetic : (Cfg.arithmetic inst.opcode x y s.scc).isSome = true →
      ∃ s', inst.Executes code writes s s' ∧ s'.pc = instructionEndPc inst := fun hsome => by
    obtain ⟨result, hresult⟩ := Option.isSome_iff_exists.1 hsome
    exact ⟨_, .arithmetic hresult hx hy, rfl⟩
  cases hop : inst.opcode with
  | sGetpcB64 => exact ⟨_, .getpc hop, rfl⟩
  | sLoadDwordx2 =>
    obtain ⟨lowWord, hlow⟩ := exists_holds code (loadWord inst.offset low high y)
    obtain ⟨highWord, hhigh⟩ := exists_holds code (loadWord inst.offset low high y + 1)
    exact ⟨_, .load hop hpair hy hlow hhigh, rfl⟩
  | sAddU32 | sAddI32 | sSubU32 | sSubI32 | sAddcU32 | sLshlB32 | sMinU32 =>
    exact harithmetic (by rw [hop]; rfl)
  | unsupported | other =>
    have hother : inst.opcode.isOther = true := by rw [hop]; rfl
    exact ⟨⟨_, s.registers, s.scc⟩, .other hother fun _ _ => rfl, rfl⟩
  | sSetpcB64 => exact absurd hop hsetpc
  | sEndpgm => exact absurd hop hend.1
  | sTrap => exact absurd hop hend.2
  | sBranch | sCbranchScc0 | sCbranchScc1 | sCbranchVccz | sCbranchVccnz | sCbranchExecz
  | sCbranchExecnz =>
    rw [hop] at hbranch
    cases hbranch

/-- **Where control goes** at an instruction that computes no pc and does not end the
execution. -/
theorem executesTo_iff {code : List ℕ} {writes : Instruction → ℕ → Prop} {inst : Instruction}
    (hsetpc : inst.opcode ≠ .sSetpcB64) (hend : inst.opcode ≠ .sEndpgm ∧ inst.opcode ≠ .sTrap)
    {pc : ℕ} : inst.ExecutesTo code writes pc ↔
      pc ∈ if isUnconditionalBranch inst.opcode then [inst.branchTarget]
        else if isConditionalBranch inst.opcode then [inst.branchTarget, instructionEndPc inst]
        else [instructionEndPc inst] := by
  let start : ScalarState := ⟨inst.pc, fun _ => 0, false⟩
  split_ifs with huncond hcond
  · have hop := beq_iff_eq.1 huncond
    rw [List.mem_singleton]
    constructor
    · rintro ⟨s, s', -, hexec, rfl⟩
      cases hexec with
      | branch => rfl
      | notTaken _ htaken => exact absurd trivial (by rwa [hop] at htaken)
      | arithmetic h => rw [hop] at h; cases h
      | getpc h | load h | setpc h | other h => rw [hop] at h; cases h
    · rintro rfl
      have htaken : start.Takes (conditionForOpcode inst.opcode) := by
        rw [hop]
        trivial
      exact ⟨start, _, rfl, .branch (by rw [isBranch, huncond]; rfl) htaken, rfl⟩
  · have hbranch : isBranch inst.opcode = true := by rw [isBranch, hcond, Bool.or_true]
    constructor
    · rintro ⟨s, s', -, hexec, rfl⟩
      cases hexec with
      | branch => exact List.mem_cons_self
      | setpc hop => exact absurd hop hsetpc
      | _ => exact List.mem_cons_of_mem _ (List.mem_singleton_self _)
    · obtain ⟨⟨s, hs, htaken⟩, t, ht, hnot⟩ := exists_takes inst.pc hcond
      intro hpc
      obtain rfl | rfl := List.mem_pair.1 hpc
      · exact ⟨s, _, hs, .branch hbranch htaken, rfl⟩
      · exact ⟨t, _, ht, .notTaken hbranch hnot, rfl⟩
  · have hbranch : isBranch inst.opcode = false := by
      rw [isBranch, Bool.or_eq_false_iff]
      exact ⟨Bool.eq_false_of_not_eq_true huncond, Bool.eq_false_of_not_eq_true hcond⟩
    rw [List.mem_singleton]
    constructor
    · rintro ⟨s, s', -, hexec, rfl⟩
      cases hexec with
      | branch hop => rw [hbranch] at hop; cases hop
      | setpc hop => exact absurd hop hsetpc
      | _ => rfl
    · rintro rfl
      obtain ⟨s', hexec, hpc⟩ := exists_falls_through code writes hbranch hsetpc hend start
      exact ⟨start, s', rfl, hexec, hpc⟩

/-! ### Runs -/

section Runs

variable (program : Program) (writes : Instruction → ℕ → Prop)

/-- The program counter is at the instruction with the index. -/
def Program.At (i : ℕ) (s : ScalarState) : Prop :=
  ∃ inst, program.instructions[i]? = some inst ∧ s.pc = inst.pc

/-- The wave executes the instruction that its program counter is at. -/
def Program.Step (s s' : ScalarState) : Prop :=
  ∃ (i : ℕ) (inst : Instruction), program.instructions[i]? = some inst ∧ s.pc = inst.pc ∧
    inst.Executes program.code writes s s'

/-- A wave before its first instruction. -/
def Program.Starts (s : ScalarState) : Prop :=
  s.pc = firstPc program ∧ ∀ c, u32 (s.registers c) = s.registers c

/-- The step does not enter the instructions behind the first one of a sequence but from the
instruction in front. -/
def Program.StepsStraight (first last : ℕ) (s s' : ScalarState) : Prop :=
  ∀ j, first < j → j ≤ last → program.At j s' → program.At (j - 1) s

/-- A set of states whose members inside of the sequence come from the instruction in front, by
the relation and without leaving the set. -/
def Program.Straight (first last : ℕ) (S : ScalarState → Prop)
    (R : ScalarState → ScalarState → Prop) : Prop :=
  ∀ j, first < j → j ≤ last → ∀ s', S s' → program.At j s' →
    ∃ (s : ScalarState) (inst : Instruction), S s ∧ R s s' ∧
      program.instructions[j - 1]? = some inst ∧ s.pc = inst.pc ∧
      inst.Executes program.code writes s s'

variable {program writes} {R : ScalarState → ScalarState → Prop}

/-- **Straight runs.** The states of the runs whose steps are all straight. -/
theorem Program.Ascending.straight (ha : program.Ascending) {first last : ℕ}
    (hsub : ∀ s s', R s s' →
      program.Step writes s s' ∧ program.StepsStraight first last s s')
    {s₀ : ScalarState} (hstart : program.Starts s₀) :
    program.Straight writes first last (ReflTransGen R s₀) R := by
  intro j hfirst hlast s' hrun hat
  cases hrun with
  | refl =>
    -- a run starts at index 0, which is no inner point
    obtain ⟨inst, hj, hpc⟩ := hat
    have hle := ha.firstPc_le (List.getElem?_eq_getElem (Nat.zero_lt_of_lt
      (List.getElem?_eq_some_iff.1 hj).1))
    have hlt := ha.pc_lt (Nat.zero_lt_of_lt hfirst)
      (List.getElem?_eq_getElem (Nat.zero_lt_of_lt (List.getElem?_eq_some_iff.1 hj).1)) hj
    exact absurd (hstart.1.symm.trans hpc) (hle.trans_lt hlt).ne
  | tail hrun hstep =>
    rename_i s
    obtain ⟨⟨i, inst, hi, hpc, hexec⟩, hstraight⟩ := hsub _ _ hstep
    obtain ⟨inst', hi', hpc'⟩ := hstraight j hfirst hlast hat
    obtain rfl := ha.index_unique hi hi' (hpc.symm.trans hpc')
    exact ⟨s, inst, hrun, hstep, hi, hpc, hexec⟩

/-- Falling through is straight. -/
theorem Program.Ascending.stepsStraight (ha : program.Ascending) {first last i : ℕ}
    {s s' : ScalarState} (hs : program.At i s) (hs' : program.At (i + 1) s') :
    program.StepsStraight first last s s' := by
  intro j _ _ ⟨inst, hj, hpc⟩
  obtain ⟨inst', hi, hpc'⟩ := hs'
  obtain rfl := ha.index_unique hj hi (hpc.symm.trans hpc')
  exact hs

/-- Behind an instruction of a straight sequence, it has been executed. -/
theorem Program.Straight.after {first last : ℕ} {S : ScalarState → Prop}
    (hstraight : program.Straight writes first last S R) {i : ℕ} {inst : Instruction}
    (hi : program.instructions[i]? = some inst) (hfirst : first ≤ i) (hlast : i < last)
    {s' : ScalarState} (hs' : S s') (hat : program.At (i + 1) s') :
    ∃ s, S s ∧ R s s' ∧ program.At i s ∧ inst.Executes program.code writes s s' := by
  obtain ⟨s, inst', hs, hR, hi', hpc, hexec⟩ :=
    hstraight (i + 1) (Nat.lt_succ_of_le hfirst) hlast s' hs' hat
  rw [Nat.add_sub_cancel] at hi'
  obtain rfl := Option.some_inj.1 (hi.symm.trans hi')
  exact ⟨s, hs, hR, ⟨inst, hi, hpc⟩, hexec⟩

/-- A property that depends on some registers only. -/
def DependsOn (C : ℕ → Prop) (P : (ℕ → ℕ) → Prop) : Prop :=
  ∀ r r' : ℕ → ℕ, (∀ c, C c → r' c = r c) → P r → P r'

/-- **What is not written is kept**: a property that holds behind an instruction holds at every
later point of a straight sequence, up to the next write to a register that it depends on. -/
theorem Program.Straight.carry {first last : ℕ} {S : ScalarState → Prop}
    (hstraight : program.Straight writes first last S R) {C : ℕ → Prop} {P : (ℕ → ℕ) → Prop}
    (hP : DependsOn C P) {i : ℕ} (hfirst : first ≤ i)
    (hafter : ∀ s, S s → program.At (i + 1) s → P s.registers) {j : ℕ} (hij : i < j)
    (hlast : j ≤ last)
    (hkept : ∀ x, i < x → x < j → ∀ inst, program.instructions[x]? = some inst →
      ∀ c, C c → ¬inst.Changes writes c) :
    ∀ s, S s → program.At j s → P s.registers := by
  induction hij with
  | refl => exact hafter
  | step hij ih =>
    rename_i j
    intro s' hs' hat
    have hij : i < j := hij
    obtain ⟨s, inst, hs, -, hj, hpc, hexec⟩ := hstraight (j + 1) (by omega) hlast s' hs' hat
    rw [Nat.add_sub_cancel] at hj
    have hbefore := ih (by omega) (fun x hx hxj => hkept x hx (hxj.trans (Nat.lt_succ_self j)))
      s hs ⟨inst, hj, hpc⟩
    exact hP _ _ (fun c hc => hexec.frame (hkept j hij (Nat.lt_succ_self j) inst hj c hc)) hbefore

end Runs

end Prosperismo.Cfg
