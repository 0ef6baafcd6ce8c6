import Prosperismo.Cfg.Execution
import Prosperismo.Cfg.JumpTable

/-!
# The resolved targets of an S_SETPC_B64

`ResolveSetpcTargets` reads the instruction list backwards from an `S_SETPC_B64`. What it
has found is a `TableSequence`, or one of the two short sequences of `ResolveSetpcTarget`;
along a straight run through the sequence the registers have the values it computed
(`TableSequence.sound`, `relative_sound`, `next_sound`).

The searches ignore how the sequence is entered, take a constant on the left of a
subtraction or a shift for one on the right, leave out the offset of the load, and know
only the registers that `InstructionWritesScalarCode` reports. `Trusted` and
`TrustedStep` say that none of it matters for the `S_SETPC_B64`.
-/

namespace Prosperismo.Cfg

open Relation (ReflTransGen)

variable {program : Program} {writes : Instruction → ℕ → Prop} {k : ℕ}

/-! ### The backward searches -/

/-- No instruction strictly between the indices is reported to write the register. -/
def Unreported (instructions : List Instruction) (first last c : ℕ) : Prop :=
  ∀ x, first < x → x < last → ∀ inst, instructions[x]? = some inst →
    instructionWritesScalarCode inst c = false

theorem Unreported.extend {instructions : List Instruction} {first i c : ℕ} {inst : Instruction}
    (h : Unreported instructions first i c) (hi : instructions[i]? = some inst)
    (hquiet : instructionWritesScalarCode inst c = false) :
    Unreported instructions first (i + 1) c := by
  intro x hx hxi inst' hinst'
  obtain hlt | rfl := Nat.lt_or_eq_of_le (Nat.le_of_lt_succ hxi)
  · exact h x hx hlt inst' hinst'
  · rw [hi, Option.some_inj] at hinst'
    exact hinst' ▸ hquiet

theorem Unreported.empty (instructions : List Instruction) (i c : ℕ) :
    Unreported instructions i (i + 1) c := by
  intro x hx hxi
  omega

/-- An instruction of the list, with its index. -/
structure Located where
  index : ℕ
  inst : Instruction

/-- The instruction is in the list, at its index. -/
def Located.In (l : Located) (instructions : List Instruction) : Prop :=
  instructions[l.index]? = some l.inst

variable {instructions : List Instruction}

theorem isScalarCode_iff {operand : Operand} {c : ℕ} :
    isScalarCode operand c = true ↔ scalarOperandCode operand = some c := by
  rw [isScalarCode, beq_iff_eq]

theorem findPreviousGetpc_spec {c g : ℕ} : ∀ {i : ℕ},
    findPreviousGetpc instructions c i = some g →
      ∃ getpc : Located, getpc.index = g ∧ getpc.In instructions ∧ g < i ∧
        getpc.inst.opcode = .sGetpcB64 ∧ scalarOperandCode getpc.inst.dst = some c ∧
        Unreported instructions g i c
  | 0, h => by cases h
  | i + 1, h => by
    rw [findPreviousGetpc] at h
    split at h
    · cases h
    rename_i candidate hi
    split_ifs at h with hgetpc hwrites
    · cases h
      rw [Bool.and_eq_true, beq_iff_eq, isScalarCode_iff] at hgetpc
      exact ⟨⟨g, candidate⟩, rfl, hi, Nat.lt_succ_self g, hgetpc.1, hgetpc.2, .empty _ _ _⟩
    · obtain ⟨getpc, hg, hin, hlt, hop, hdst, hquiet⟩ := findPreviousGetpc_spec h
      exact ⟨getpc, hg, hin, hlt.trans (Nat.lt_succ_self i), hop, hdst,
        hquiet.extend hi (Bool.eq_false_of_not_eq_true hwrites)⟩

/-- The opcodes `adds` of the resolver. -/
def Opcode.adds (opcode : Opcode) : Bool := opcode == .sAddU32 || opcode == .sAddI32

/-- The opcodes `subs` of the resolver. -/
def Opcode.subs (opcode : Opcode) : Bool := opcode == .sSubU32 || opcode == .sSubI32

/-- A base and a constant combined, as the resolver does it. -/
def Opcode.combine (opcode : Opcode) (base imm : ℕ) : ℕ :=
  alignDown (if opcode.adds then u32 (base + imm) else u32Sub base imm)

/-- `ResolvePcRelativeBase` has found the last write to the register, and the pc in it before. -/
structure PcRelative (instructions : List Instruction) (i base pc : ℕ) where
  getpc : Located
  arith : Located
  constant : Operand
  imm : ℤ
  getpc_in : getpc.In instructions
  arith_in : arith.In instructions
  getpc_lt : getpc.index < arith.index
  arith_lt : arith.index < i
  getpc_opcode : getpc.inst.opcode = .sGetpcB64
  getpc_dst : scalarOperandCode getpc.inst.dst = some base
  arith_opcode : (arith.inst.opcode.adds || arith.inst.opcode.subs) = true
  arith_writes : instructionWritesScalarCode arith.inst base = true
  source : otherScalarSource arith.inst base = some constant
  immediate : immediateSigned constant = some imm
  pc_eq : pc = arith.inst.opcode.combine (instructionEndPc getpc.inst) (u32OfInt imm)
  quiet_before : Unreported instructions getpc.index arith.index base
  quiet_after : Unreported instructions arith.index i base

theorem resolvePcRelativeBase_found {base pc : ℕ} : ∀ {i : ℕ},
    resolvePcRelativeBase instructions base i = some pc →
      Nonempty (PcRelative instructions i base pc)
  | 0, h => by cases h
  | i + 1, h => by
    rw [resolvePcRelativeBase] at h
    split at h
    · cases h
    rename_i candidate hi
    split_ifs at h with hwrites
    · obtain ⟨found⟩ := resolvePcRelativeBase_found h
      exact ⟨{ found with
        arith_lt := found.arith_lt.trans (Nat.lt_succ_self i)
        quiet_after := found.quiet_after.extend hi (by simpa using hwrites) }⟩
    · obtain ⟨_, hop, h⟩ := Option.bind_eq_some_iff.1 h
      obtain ⟨constant, hsource, h⟩ := Option.bind_eq_some_iff.1 h
      obtain ⟨imm, himm, h⟩ := Option.bind_eq_some_iff.1 h
      obtain ⟨g, hg, h⟩ := Option.bind_eq_some_iff.1 h
      obtain ⟨getpc, rfl, hin, hlt, hopcode, hdst, hquiet⟩ := findPreviousGetpc_spec hg
      obtain ⟨inst, hinst, h⟩ := Option.bind_eq_some_iff.1 h
      obtain rfl := Option.some_inj.1 (hinst.symm.trans hin)
      cases h
      have hop := (Option.guard_eq_some' _).1 hop
      exact ⟨{
        getpc, arith := ⟨i, candidate⟩, constant, imm
        getpc_in := hin
        arith_in := hi
        getpc_lt := hlt
        arith_lt := Nat.lt_succ_self i
        getpc_opcode := hopcode
        getpc_dst := hdst
        arith_opcode := hop
        arith_writes := by simpa using hwrites
        source := hsource
        immediate := himm
        pc_eq := rfl
        quiet_before := hquiet
        quiet_after := .empty _ _ _ }⟩

/-- `ResolveJumpTableEntryCount` has found the shift and the clamp of the table index. -/
structure ClampedIndex (instructions : List Instruction) (i sel entryCount : ℕ) where
  clamp : Located
  shift : Located
  bound : Operand
  maxIndex : ℕ
  amount : Operand
  clamp_in : clamp.In instructions
  shift_in : shift.In instructions
  clamp_lt : clamp.index < shift.index
  shift_lt : shift.index < i
  clamp_opcode : clamp.inst.opcode = .sMinU32
  clamp_dst : scalarOperandCode clamp.inst.dst = some sel
  clamp_source : otherScalarSource clamp.inst sel = some bound
  clamp_bound : immediate bound = some maxIndex
  entryCount_eq : entryCount = u32 (maxIndex + 1)
  entryCount_ne : entryCount ≠ 0
  shift_opcode : shift.inst.opcode = .sLshlB32
  shift_dst : scalarOperandCode shift.inst.dst = some sel
  shift_source : otherScalarSource shift.inst sel = some amount
  shift_amount : immediate amount = some 3
  quiet_between : Unreported instructions clamp.index shift.index sel
  quiet_after : Unreported instructions shift.index i sel

theorem resolveIndexClamp_found {sel count : ℕ} : ∀ {j : ℕ},
    resolveIndexClamp instructions sel j = some count →
      ∃ (clamp : Located) (bound : Operand) (maxIndex : ℕ), clamp.In instructions ∧
        clamp.index < j ∧ clamp.inst.opcode = .sMinU32 ∧
        scalarOperandCode clamp.inst.dst = some sel ∧
        otherScalarSource clamp.inst sel = some bound ∧ immediate bound = some maxIndex ∧
        count = u32 (maxIndex + 1) ∧ count ≠ 0 ∧ Unreported instructions clamp.index j sel
  | 0, h => by cases h
  | j + 1, h => by
    rw [resolveIndexClamp] at h
    split at h
    · cases h
    rename_i candidate hj
    split_ifs at h with hwrites
    · obtain ⟨clamp, bound, maxIndex, hin, hlt, hop, hdst, hsource, hbound, heq, hne, hquiet⟩ :=
        resolveIndexClamp_found h
      exact ⟨clamp, bound, maxIndex, hin, hlt.trans (Nat.lt_succ_self j), hop, hdst, hsource, hbound,
        heq, hne, hquiet.extend hj (by simpa using hwrites)⟩
    · obtain ⟨_, hop, h⟩ := Option.bind_eq_some_iff.1 h
      obtain ⟨bound, hsource, h⟩ := Option.bind_eq_some_iff.1 h
      obtain ⟨maxIndex, hbound, h⟩ := Option.bind_eq_some_iff.1 h
      obtain ⟨_, hne, h⟩ := Option.bind_eq_some_iff.1 h
      cases h
      have hop := (Option.guard_eq_some' _).1 hop
      rw [Bool.and_eq_true, beq_iff_eq, isScalarCode_iff] at hop
      have hne := (Option.guard_eq_some' _).1 hne
      exact ⟨⟨j, candidate⟩, bound, maxIndex, hj, Nat.lt_succ_self j, hop.1, hop.2, hsource, hbound,
        rfl, by simpa using hne, .empty _ _ _⟩

theorem resolveOffsetShift_found {sel count : ℕ} : ∀ {i : ℕ},
    resolveOffsetShift instructions sel i = some count →
      Nonempty (ClampedIndex instructions i sel count)
  | 0, h => by cases h
  | i + 1, h => by
    rw [resolveOffsetShift] at h
    split at h
    · cases h
    rename_i candidate hi
    split_ifs at h with hwrites
    · obtain ⟨found⟩ := resolveOffsetShift_found h
      exact ⟨{ found with
        shift_lt := found.shift_lt.trans (Nat.lt_succ_self i)
        quiet_after := found.quiet_after.extend hi (by simpa using hwrites) }⟩
    · obtain ⟨_, hop, h⟩ := Option.bind_eq_some_iff.1 h
      obtain ⟨amount, hsource, h⟩ := Option.bind_eq_some_iff.1 h
      obtain ⟨shiftAmount, hamount, h⟩ := Option.bind_eq_some_iff.1 h
      obtain ⟨_, hthree, h⟩ := Option.bind_eq_some_iff.1 h
      have hop := (Option.guard_eq_some' _).1 hop
      rw [Bool.and_eq_true, beq_iff_eq, isScalarCode_iff] at hop
      have hthree := beq_iff_eq.1 ((Option.guard_eq_some' _).1 hthree)
      obtain ⟨clamp, bound, maxIndex, hin, hlt, hopcode, hdst, hbound, himm, heq, hne, hquiet⟩ :=
        resolveIndexClamp_found h
      exact ⟨{
        clamp, shift := ⟨i, candidate⟩, bound, maxIndex, amount
        clamp_in := hin
        shift_in := hi
        clamp_lt := hlt
        shift_lt := Nat.lt_succ_self i
        clamp_opcode := hopcode
        clamp_dst := hdst
        clamp_source := hbound
        clamp_bound := himm
        entryCount_eq := heq
        entryCount_ne := hne
        shift_opcode := hop.1
        shift_dst := hop.2
        shift_source := hsource
        shift_amount := hthree ▸ hamount
        quiet_between := hquiet
        quiet_after := .empty _ _ _ }⟩

theorem findPreviousScalarLoadPair_spec {c l : ℕ} : ∀ {i : ℕ},
    findPreviousScalarLoadPair instructions c i = some l →
      ∃ load : Located, load.index = l ∧ load.In instructions ∧ l < i ∧
        load.inst.opcode = .sLoadDwordx2 ∧ scalarOperandCode load.inst.dst = some c ∧
        Unreported instructions l i c
  | 0, h => by cases h
  | i + 1, h => by
    rw [findPreviousScalarLoadPair] at h
    split at h
    · cases h
    rename_i candidate hi
    split_ifs at h with hwrites hload
    · cases h
      rw [Bool.and_eq_true, beq_iff_eq, isScalarCode_iff] at hload
      exact ⟨⟨l, candidate⟩, rfl, hi, Nat.lt_succ_self l, hload.1, hload.2, .empty _ _ _⟩
    · obtain ⟨load, hl, hin, hlt, hop, hdst, hquiet⟩ := findPreviousScalarLoadPair_spec h
      exact ⟨load, hl, hin, hlt.trans (Nat.lt_succ_self i), hop, hdst,
        hquiet.extend hi (Bool.eq_false_of_not_eq_true hwrites)⟩

/-! ### The sequence of a jump table -/

/-- What `ResolveSetpcJumpTable` has found in front of the `S_SETPC_B64` at index `k`. -/
structure TableSequence (program : Program) (k : ℕ) where
  pcReg : ℕ
  low : ℕ
  sel : ℕ
  base : ℕ
  tablePc : ℕ
  entryCount : ℕ
  load : Located
  getpc : Instruction
  add : Instruction
  addc : Instruction
  setpc : Instruction
  offset : Operand
  table : PcRelative program.instructions load.index base tablePc
  clamped : ClampedIndex program.instructions load.index sel entryCount
  four_le : 4 ≤ k
  load_lt : load.index < k - 3
  load_in : load.In program.instructions
  getpc_in : program.instructions[k - 3]? = some getpc
  add_in : program.instructions[k - 2]? = some add
  addc_in : program.instructions[k - 1]? = some addc
  setpc_in : program.instructions[k]? = some setpc
  load_opcode : load.inst.opcode = .sLoadDwordx2
  load_dst : scalarOperandCode load.inst.dst = some low
  load_base : scalarOperandCode load.inst.src0 = some base
  load_offset : scalarOperandCode load.inst.src1 = some sel
  getpc_opcode : getpc.opcode = .sGetpcB64
  getpc_dst : scalarOperandCode getpc.dst = some pcReg
  add_opcode : add.opcode = .sAddU32
  add_dst : scalarOperandCode add.dst = some pcReg
  add_source : otherScalarSource add pcReg = some offset
  add_offset : scalarOperandCode offset = some low
  addc_opcode : addc.opcode = .sAddcU32
  addc_dst : scalarOperandCode addc.dst = some (u32 (pcReg + 1))
  setpc_opcode : setpc.opcode = .sSetpcB64
  setpc_source : scalarOperandCode setpc.src0 = some pcReg
  quiet_low : Unreported program.instructions load.index (k - 3) low
  quiet_sel : Unreported program.instructions load.index k sel

/-- The result of `ResolveSetpcJumpTable`, given the targets in the table. -/
def TableSequence.info (seq : TableSequence program k) (targetPcs : List ℕ) : SetpcTargetInfo where
  indirect := true
  pcSgpr := seq.pcReg
  selectorCode := seq.sel
  tableLoadPc := seq.load.inst.pc
  targetPcs := targetPcs.foldl addUnique []
  selectorValues := (List.range seq.entryCount).map fun i => u32 (i * 8)
  selectorTargetPcs := targetPcs

theorem scalarCodeWrittenInRange_spec {first last c : ℕ}
    (h : scalarCodeWrittenInRange instructions (first + 1) last c = false) :
    Unreported instructions first last c := by
  intro x hx hxl inst hinst
  unfold scalarCodeWrittenInRange at h
  rw [List.any_eq_false] at h
  refine Bool.eq_false_of_not_eq_true (h inst (List.mem_of_getElem? (i := x - (first + 1)) ?_))
  rw [List.getElem?_drop, List.getElem?_take, if_pos (by omega),
    show first + 1 + (x - (first + 1)) = x by omega, hinst]

/-- **What is found.** A jump table that is resolved has its sequence, and the targets of its
entries have been read. -/
theorem resolveSetpcJumpTable_found {info : SetpcTargetInfo}
    (h : resolveSetpcJumpTable program k = some info) :
    ∃ (seq : TableSequence program k) (targetPcs : List ℕ),
      readJumpTable program.code (seq.tablePc / 4) (instructionEndPc seq.getpc) seq.entryCount =
          some targetPcs ∧
        info = seq.info targetPcs := by
  unfold resolveSetpcJumpTable at h
  obtain ⟨_, hfour, h⟩ := Option.bind_eq_some_iff.1 h
  obtain ⟨setpc, hsetpc, h⟩ := Option.bind_eq_some_iff.1 h
  obtain ⟨_, hkind, h⟩ := Option.bind_eq_some_iff.1 h
  obtain ⟨pcReg, hpcReg, h⟩ := Option.bind_eq_some_iff.1 h
  obtain ⟨getpc, hgetpc, h⟩ := Option.bind_eq_some_iff.1 h
  obtain ⟨add, hadd, h⟩ := Option.bind_eq_some_iff.1 h
  obtain ⟨addc, haddc, h⟩ := Option.bind_eq_some_iff.1 h
  obtain ⟨_, hops, h⟩ := Option.bind_eq_some_iff.1 h
  obtain ⟨offset, hoffset, h⟩ := Option.bind_eq_some_iff.1 h
  obtain ⟨offsetHigh, -, h⟩ := Option.bind_eq_some_iff.1 h
  obtain ⟨low, hlow, h⟩ := Option.bind_eq_some_iff.1 h
  obtain ⟨high, -, h⟩ := Option.bind_eq_some_iff.1 h
  obtain ⟨_, -, h⟩ := Option.bind_eq_some_iff.1 h
  obtain ⟨l, hl, h⟩ := Option.bind_eq_some_iff.1 h
  obtain ⟨load, rfl, hloadIn, hloadLt, hloadOp, hloadDst, hquietLow⟩ :=
    findPreviousScalarLoadPair_spec hl
  obtain ⟨inst, hinst, h⟩ := Option.bind_eq_some_iff.1 h
  obtain rfl := Option.some_inj.1 (hinst.symm.trans hloadIn)
  obtain ⟨base, hbase, h⟩ := Option.bind_eq_some_iff.1 h
  obtain ⟨tablePc, htable, h⟩ := Option.bind_eq_some_iff.1 h
  obtain ⟨entryCount, hcount, h⟩ := Option.bind_eq_some_iff.1 h
  obtain ⟨sel, hsel, h⟩ := Option.bind_eq_some_iff.1 h
  obtain ⟨_, hquiet, h⟩ := Option.bind_eq_some_iff.1 h
  obtain ⟨_, -, h⟩ := Option.bind_eq_some_iff.1 h
  obtain ⟨targetPcs, htargets, h⟩ := Option.bind_eq_some_iff.1 h
  obtain ⟨_, -, h⟩ := Option.bind_eq_some_iff.1 h
  cases h
  obtain ⟨byteOffset, hbyte, hcount⟩ := Option.bind_eq_some_iff.1 hcount
  obtain rfl := Option.some_inj.1 (hsel.symm.trans hbyte)
  obtain ⟨found⟩ := resolvePcRelativeBase_found htable
  obtain ⟨clamped⟩ := resolveOffsetShift_found hcount
  have hkind := (Option.guard_eq_some' _).1 hkind
  rw [Bool.and_eq_true, beq_iff_eq] at hkind
  have hops := (Option.guard_eq_some' _).1 hops
  simp only [Bool.and_eq_true, beq_iff_eq, isScalarCode_iff] at hops
  obtain ⟨⟨⟨⟨⟨hgetpcOp, hgetpcDst⟩, haddOp⟩, haddDst⟩, haddcOp⟩, haddcDst⟩ := hops
  have hquiet := (Option.guard_eq_some' _).1 hquiet
  refine ⟨{
    pcReg, low, sel, base, tablePc, entryCount, load, getpc, add, addc, setpc, offset
    table := found
    clamped
    four_le := (Option.guard_eq_some' _).1 hfour
    load_lt := hloadLt
    load_in := hloadIn
    getpc_in := hgetpc
    add_in := hadd
    addc_in := haddc
    setpc_in := hsetpc
    load_opcode := hloadOp
    load_dst := hloadDst
    load_base := hbase
    load_offset := hsel
    getpc_opcode := hgetpcOp
    getpc_dst := hgetpcDst
    add_opcode := haddOp
    add_dst := haddDst
    add_source := hoffset
    add_offset := hlow
    addc_opcode := haddcOp
    addc_dst := haddcDst
    setpc_opcode := hkind.1
    setpc_source := hpcReg
    quiet_low := hquietLow
    quiet_sel := scalarCodeWrittenInRange_spec (by simpa using hquiet) }, targetPcs, htargets, rfl⟩

/-! ### The arithmetic -/

/-- What decoding makes of the operands: constants are `uint32_t` values, an addition or a
subtraction writes one dword, and the two readings of a constant in it agree. -/
structure Program.OperandsDecoded (program : Program) : Prop where
  values : ∀ inst ∈ program.instructions, inst.src0.value < 2 ^ 32 ∧ inst.src1.value < 2 ^ 32
  sums : ∀ inst ∈ program.instructions, (inst.opcode.adds || inst.opcode.subs) = true →
    inst.dataDwords = 1 ∧ (immediateSigned inst.src0).map u32OfInt = immediate inst.src0 ∧
      (immediateSigned inst.src1).map u32OfInt = immediate inst.src1

theorem scalarOperandCode_of_immediate {operand : Operand} {imm : ℕ}
    (h : immediate operand = some imm) : scalarOperandCode operand = none := by
  unfold immediate at h
  unfold scalarOperandCode
  split at h <;> first | simp only [*]; done | cases h

namespace ScalarState

variable {s : ScalarState} {operand : Operand} {value : ℕ}

theorem Reads.of_code (h : s.Reads operand value) {c : ℕ}
    (hc : scalarOperandCode operand = some c) :
    value = s.registers c := by
  rw [Reads, hc] at h
  exact h

theorem Reads.of_immediate (h : s.Reads operand value) {imm : ℕ}
    (himm : immediate operand = some imm) :
    value = imm := by
  rw [Reads, scalarOperandCode_of_immediate himm, himm] at h
  exact h

theorem ReadsPair.of_code {low high : ℕ} (h : s.ReadsPair operand low high) {c : ℕ}
    (hc : scalarOperandCode operand = some c) :
    low = s.registers c ∧ high = s.registers (c + 1) := by
  rw [ReadsPair, hc] at h
  exact h

end ScalarState

theorem value_of_immediate {operand : Operand} {imm : ℕ} (h : immediate operand = some imm) :
    imm = operand.value := by
  unfold immediate at h
  split at h <;> cases h <;> rfl

theorem otherScalarSource_cases {inst : Instruction} {c : ℕ} {other : Operand}
    (h : otherScalarSource inst c = some other) :
    (scalarOperandCode inst.src0 = some c ∧ inst.src1 = other) ∨
      (scalarOperandCode inst.src0 ≠ some c ∧ scalarOperandCode inst.src1 = some c ∧
        inst.src0 = other) := by
  unfold otherScalarSource at h
  simp only [isScalarCode_iff] at h
  split_ifs at h with h0 h1
  · exact .inl ⟨h0, Option.some_inj.1 h⟩
  · exact .inr ⟨h0, h1, Option.some_inj.1 h⟩

theorem Opcode.arithmetic_of_adds {opcode : Opcode} (h : opcode.adds = true) (x y : ℕ)
    (scc : Bool) :
    ∃ scc', arithmetic opcode x y scc = some (u32 (x + y), scc') := by
  rw [adds, Bool.or_eq_true, beq_iff_eq, beq_iff_eq] at h
  obtain rfl | rfl := h <;> exact ⟨_, rfl⟩

theorem Opcode.arithmetic_of_subs {opcode : Opcode} (h : opcode.subs = true) (x y : ℕ)
    (scc : Bool) :
    ∃ scc', arithmetic opcode x y scc = some (u32Sub x y, scc') ∧ opcode.adds = false := by
  rw [subs, Bool.or_eq_true, beq_iff_eq, beq_iff_eq] at h
  obtain rfl | rfl := h <;> exact ⟨_, rfl, rfl⟩

theorem Opcode.combine_lt (opcode : Opcode) (base imm : ℕ) : opcode.combine base imm < 2 ^ 32 := by
  have hlt : ∀ x, u32 x < 2 ^ 32 := fun x => Nat.mod_lt _ (by decide)
  have hle : ∀ x, alignDown x ≤ x := fun x => Nat.div_mul_le_self x 4
  unfold combine
  split_ifs
  · exact (hle _).trans_lt (hlt _)
  · exact (hle _).trans_lt (hlt _)

/-- **An addition or subtraction** with the constant on the right, or an addition with the constant
on the left, computes what the resolver does. -/
theorem Instruction.Executes.combine {inst : Instruction} {s s' : ScalarState} {code : List ℕ}
    (h : inst.Executes code writes s s') (hop : (inst.opcode.adds || inst.opcode.subs) = true)
    {d base imm : ℕ} {constant : Operand} (hd : scalarOperandCode inst.dst = some d)
    (hsource : otherScalarSource inst base = some constant)
    (himm : Cfg.immediate constant = some imm)
    (hright : inst.opcode.subs = true → scalarOperandCode inst.src0 = some base) :
    alignDown (s'.registers d) = inst.opcode.combine (s.registers base) imm := by
  have hsome : ∀ x y scc, (Cfg.arithmetic inst.opcode x y scc).isSome := fun x y scc => by
    rw [Bool.or_eq_true] at hop
    obtain hadds | hsubs := hop
    · obtain ⟨scc', heq⟩ := Opcode.arithmetic_of_adds hadds x y scc
      rw [heq]
      rfl
    · obtain ⟨scc', heq, -⟩ := Opcode.arithmetic_of_subs hsubs x y scc
      rw [heq]
      rfl
  obtain ⟨x, y, result, hresult, hx, hy, hregister⟩ := h.of_arithmetic hsome hd
  rw [hregister, Opcode.combine]
  rw [Bool.or_eq_true] at hop
  obtain hadds | hsubs := hop
  · obtain ⟨scc', heq⟩ := Opcode.arithmetic_of_adds hadds x y s.scc
    obtain rfl := Option.some_inj.1 (heq.symm.trans hresult)
    rw [if_pos hadds]
    obtain ⟨h0, rfl⟩ | ⟨-, h1, rfl⟩ := otherScalarSource_cases hsource
    · rw [hx.of_code h0, hy.of_immediate himm]
    · rw [hx.of_immediate himm, hy.of_code h1, Nat.add_comm]
  · obtain ⟨scc', heq, hadds⟩ := Opcode.arithmetic_of_subs hsubs x y s.scc
    obtain rfl := Option.some_inj.1 (heq.symm.trans hresult)
    rw [if_neg (by rw [hadds]; exact Bool.false_ne_true)]
    obtain ⟨h0, rfl⟩ | ⟨hnot, -, -⟩ := otherScalarSource_cases hsource
    · rw [hx.of_code h0, hy.of_immediate himm]
    · exact absurd (hright hsubs) hnot

/-! ### Straight runs through the sequence of a table -/

/-- The address of a table entry. -/
theorem loadWord_entry {base tablePc i : ℕ} (hbase : alignDown base = tablePc)
    (hlt : tablePc / 4 + i * 2 < 2 ^ 30) :
    loadWord 0 base 0 (u32 (i * 8)) = tablePc / 4 + i * 2 := by
  unfold alignDown at hbase
  have hoffset : u32 (i * 8) = i * 8 := Nat.mod_eq_of_lt (by omega)
  rw [loadWord, hoffset, if_pos (by decide)]
  omega

namespace TableSequence

variable (seq : TableSequence program k)

/-- The first instruction of the sequence. -/
def first : ℕ := min seq.table.getpc.index seq.clamped.clamp.index

/-- The sequence does what the resolver takes it to do: the constants stand where it expects them,
the registers do not overlap, no register it looks at is changed but by a reported write, and the
table lies in the code. -/
structure Trusted (writes : Instruction → ℕ → Prop) : Prop where
  constant_right : seq.table.arith.inst.opcode.subs = true →
    scalarOperandCode seq.table.arith.inst.src0 = some seq.base
  amount_right : scalarOperandCode seq.clamped.shift.inst.src0 = some seq.sel
  no_offset : seq.load.inst.offset = 0
  sel_apart : seq.sel ≠ seq.low ∧ seq.sel ≠ seq.low + 1
  low_apart : seq.low ≠ seq.pcReg ∧ seq.low ≠ seq.pcReg + 1
  base_reported : ∀ x, seq.table.getpc.index < x → x < seq.load.index → ∀ inst,
    program.instructions[x]? = some inst → inst.Changes writes seq.base →
      instructionWritesScalarCode inst seq.base = true
  sel_reported : ∀ x, seq.clamped.clamp.index < x → x < k → ∀ inst,
    program.instructions[x]? = some inst → inst.Changes writes seq.sel →
      instructionWritesScalarCode inst seq.sel = true
  low_reported : ∀ x, seq.load.index < x → x < k - 3 → ∀ inst,
    program.instructions[x]? = some inst → inst.Changes writes seq.low →
      instructionWritesScalarCode inst seq.low = true
  fits : seq.tablePc / 4 + seq.entryCount * 2 ≤ program.code.length

/-- The selector is the byte offset of an entry. -/
def Selects (r : ℕ → ℕ) (i : ℕ) : Prop := i < seq.entryCount ∧ r seq.sel = u32 (i * 8)

/-- The low dword of entry `i`. -/
def entry (i : ℕ) : ℕ := (program.code[seq.tablePc / 4 + i * 2]?).getD 0

section Sound

variable {S : ScalarState → Prop} {R : ScalarState → ScalarState → Prop}
  (hs : program.Straight writes seq.first k S R)

variable {seq}

theorem first_le_getpc : seq.first ≤ seq.table.getpc.index := min_le_left _ _

theorem first_le_clamp : seq.first ≤ seq.clamped.clamp.index := min_le_right _ _

/-- The number of entries does not wrap. -/
theorem maxIndex_lt (ho : program.OperandsDecoded) : seq.clamped.maxIndex < seq.entryCount := by
  have hvalue : seq.clamped.maxIndex < 2 ^ 32 := by
    rw [value_of_immediate seq.clamped.clamp_bound]
    obtain ⟨h0, h1⟩ := ho.values _ (List.mem_of_getElem? seq.clamped.clamp_in)
    obtain ⟨-, hother⟩ | ⟨-, -, hother⟩ := otherScalarSource_cases seq.clamped.clamp_source
    · exact hother ▸ h1
    · exact hother ▸ h0
  have heq := seq.clamped.entryCount_eq
  have hne := seq.clamped.entryCount_ne
  unfold u32 at heq
  omega

include hs

/-- The base register holds the pc behind the `S_GETPC_B64` until it is added to. -/
theorem base_at_arith (ht : seq.Trusted writes) : ∀ s, S s → program.At seq.table.arith.index s →
    s.registers seq.base = instructionEndPc seq.table.getpc.inst := by
  have hlt := seq.table.getpc_lt
  have hle := seq.table.arith_lt
  have hload := seq.load_lt
  let P (r : ℕ → ℕ) : Prop := r seq.base = instructionEndPc seq.table.getpc.inst
  have hP : DependsOn (· = seq.base) P := fun r r' h hr => (h seq.base rfl).trans hr
  refine hs.carry hP first_le_getpc (fun s' hs' hat => ?_) hlt (by omega)
    fun x hx hxa inst hinst c hc hchanges => ?_
  · obtain ⟨s, -, -, -, hexec⟩ := hs.after seq.table.getpc_in first_le_getpc (by omega) hs' hat
    exact hexec.of_getpc seq.table.getpc_opcode seq.table.getpc_dst
  · subst hc
    have hquiet := seq.table.quiet_before x hx hxa inst hinst
    exact absurd (ht.base_reported x hx (by omega) inst hinst hchanges) (by rw [hquiet]; decide)

/-- The base register holds the table until the load. -/
theorem base_at_load (ht : seq.Trusted writes) (ho : program.OperandsDecoded) :
    ∀ s, S s → program.At seq.load.index s → alignDown (s.registers seq.base) = seq.tablePc := by
  have hlt := seq.table.getpc_lt
  have hle := seq.table.arith_lt
  have hload := seq.load_lt
  have hfirst : seq.first ≤ seq.table.arith.index := (@first_le_getpc _ _ seq).trans hlt.le
  let P (r : ℕ → ℕ) : Prop := alignDown (r seq.base) = seq.tablePc
  have hP : DependsOn (· = seq.base) P := fun r r' h hr =>
    (congrArg alignDown (h seq.base rfl)).trans hr
  refine hs.carry hP hfirst (fun s' hs' hat => ?_) hle (by omega)
    fun x hx hxa inst hinst c hc hchanges => ?_
  · obtain ⟨s, hs₀, -, hat₀, hexec⟩ := hs.after seq.table.arith_in hfirst (by omega) hs' hat
    obtain ⟨hdwords, h0, h1⟩ := ho.sums _ (List.mem_of_getElem? seq.table.arith_in)
      seq.table.arith_opcode
    -- one dword is written, so the reported register is the destination
    have hdst : scalarOperandCode seq.table.arith.inst.dst = some seq.base := by
      have hwrites := seq.table.arith_writes
      unfold instructionWritesScalarCode at hwrites
      split at hwrites
      · cases hwrites
      · rename_i d hd
        rw [hdwords, Bool.and_eq_true, decide_eq_true_eq, decide_eq_true_eq] at hwrites
        have hmod : u32 (d + max 1 1) ≤ d + 1 := Nat.mod_le _ _
        rw [hd, show d = seq.base by omega]
    have himm : Cfg.immediate seq.table.constant = some (u32OfInt seq.table.imm) := by
      have hsigned := seq.table.immediate
      obtain ⟨-, hother⟩ | ⟨-, -, hother⟩ := otherScalarSource_cases seq.table.source
      · rw [← hother] at hsigned ⊢
        rw [← h1, hsigned, Option.map_some]
      · rw [← hother] at hsigned ⊢
        rw [← h0, hsigned, Option.map_some]
    show alignDown (s'.registers seq.base) = seq.tablePc
    rw [hexec.combine seq.table.arith_opcode hdst seq.table.source himm ht.constant_right,
      base_at_arith hs ht s hs₀ hat₀]
    exact seq.table.pc_eq.symm
  · subst hc
    have hquiet := seq.table.quiet_after x hx hxa inst hinst
    exact absurd (ht.base_reported x (by omega) hxa inst hinst hchanges) (by rw [hquiet]; decide)

/-- The table index is clamped until it is shifted. -/
theorem sel_at_shift (ht : seq.Trusted writes) : ∀ s, S s → program.At seq.clamped.shift.index s →
    s.registers seq.sel ≤ seq.clamped.maxIndex := by
  have hlt := seq.clamped.clamp_lt
  have hle := seq.clamped.shift_lt
  have hload := seq.load_lt
  let P (r : ℕ → ℕ) : Prop := r seq.sel ≤ seq.clamped.maxIndex
  have hP : DependsOn (· = seq.sel) P := fun r r' h hr => (h seq.sel rfl).trans_le hr
  refine hs.carry hP first_le_clamp (fun s' hs' hat => ?_) hlt (by omega)
    fun x hx hxa inst hinst c hc hchanges => ?_
  · obtain ⟨s, -, -, -, hexec⟩ := hs.after seq.clamped.clamp_in first_le_clamp (by omega) hs' hat
    obtain ⟨x, y, result, hresult, hx, hy, hregister⟩ := hexec.of_arithmetic
      (fun x y scc => by rw [seq.clamped.clamp_opcode]; rfl) seq.clamped.clamp_dst
    rw [seq.clamped.clamp_opcode] at hresult
    cases hresult
    show s'.registers seq.sel ≤ seq.clamped.maxIndex
    rw [hregister]
    have hbound := seq.clamped.clamp_bound
    -- the minimum is at most the constant, on whichever side it stands
    obtain ⟨-, hother⟩ | ⟨-, -, hother⟩ := otherScalarSource_cases seq.clamped.clamp_source
    · exact (min_le_right x y).trans_eq (hy.of_immediate (hother ▸ hbound))
    · exact (min_le_left x y).trans_eq (hx.of_immediate (hother ▸ hbound))
  · subst hc
    have hquiet := seq.clamped.quiet_between x hx hxa inst hinst
    exact absurd (ht.sel_reported x hx (by omega) inst hinst hchanges) (by rw [hquiet]; decide)

/-- The selector is the byte offset of an entry until the load. -/
theorem sel_at_load (ht : seq.Trusted writes) (ho : program.OperandsDecoded) :
    ∀ s, S s → program.At seq.load.index s →
    ∃ i, seq.Selects s.registers i := by
  have hlt := seq.clamped.clamp_lt
  have hle := seq.clamped.shift_lt
  have hload := seq.load_lt
  have hfirst : seq.first ≤ seq.clamped.shift.index := (@first_le_clamp _ _ seq).trans hlt.le
  let P (r : ℕ → ℕ) : Prop := ∃ i, seq.Selects r i
  have hP : DependsOn (· = seq.sel) P := fun r r' h ⟨i, hi, hr⟩ => ⟨i, hi, (h seq.sel rfl).trans hr⟩
  refine hs.carry hP hfirst (fun s' hs' hat => ?_) hle (by omega)
    fun x hx hxa inst hinst c hc hchanges => ?_
  · obtain ⟨s, hs₀, -, hat₀, hexec⟩ := hs.after seq.clamped.shift_in hfirst (by omega) hs' hat
    obtain ⟨x, y, result, hresult, hx, hy, hregister⟩ := hexec.of_arithmetic
      (fun x y scc => by rw [seq.clamped.shift_opcode]; rfl) seq.clamped.shift_dst
    rw [seq.clamped.shift_opcode] at hresult
    cases hresult
    have hamount := seq.clamped.shift_amount
    obtain ⟨h0, hother⟩ | ⟨hnot, -, -⟩ := otherScalarSource_cases seq.clamped.shift_source
    · refine ⟨s.registers seq.sel, ?_, ?_⟩
      · exact (sel_at_shift hs ht s hs₀ hat₀).trans_lt (maxIndex_lt ho)
      · rw [hregister, hy.of_immediate (hother ▸ hamount), hx.of_code h0]
        show u32 (s.registers seq.sel <<< 3) = u32 (s.registers seq.sel * 8)
        rw [Nat.shiftLeft_eq]
    · exact absurd ht.amount_right hnot
  · subst hc
    have hquiet := seq.clamped.quiet_after x hx hxa inst hinst
    exact absurd (ht.sel_reported x (by omega) (by omega) inst hinst hchanges)
      (by rw [hquiet]; decide)

/-- The load has read the low dword of the selected entry. -/
theorem entry_at_getpc (ht : seq.Trusted writes) (ho : program.OperandsDecoded)
    (hsize : program.code.length ≤ 2 ^ 30 - 1)
    (hhigh : ∀ s s', R s s' → program.At seq.load.index s → s.registers (seq.base + 1) = 0) :
    ∀ s, S s → program.At (k - 3) s →
      ∃ i, seq.Selects s.registers i ∧ s.registers seq.low = seq.entry i := by
  have hfirst : seq.first ≤ seq.load.index :=
    ((@first_le_getpc _ _ seq).trans seq.table.getpc_lt.le).trans seq.table.arith_lt.le
  have hload := seq.load_lt
  let P (r : ℕ → ℕ) : Prop := ∃ i, seq.Selects r i ∧ r seq.low = seq.entry i
  have hP : DependsOn (fun c => c = seq.sel ∨ c = seq.low) P := fun r r' h ⟨i, ⟨hi, hr⟩, hlow⟩ =>
    ⟨i, ⟨hi, (h seq.sel (.inl rfl)).trans hr⟩, (h seq.low (.inr rfl)).trans hlow⟩
  refine hs.carry hP hfirst (fun s' hs' hat => ?_) hload (by omega)
    fun x hx hxa inst hinst c hc hchanges => ?_
  · obtain ⟨s, hs₀, hR, hat₀, hexec⟩ := hs.after seq.load_in hfirst (by omega) hs' hat
    obtain ⟨i, hi, hsel⟩ := sel_at_load hs ht ho s hs₀ hat₀
    obtain ⟨low, high, soffset, hpair, hoffset, hword⟩ := hexec.of_load seq.load_opcode seq.load_dst
    obtain ⟨rfl, rfl⟩ := hpair.of_code seq.load_base
    obtain rfl := hoffset.of_code seq.load_offset
    refine ⟨i, ⟨hi, ?_⟩, ?_⟩
    · -- the selector is not loaded over
      refine (hexec.frame fun hchanges => ?_).trans hsel
      rw [Instruction.Changes, seq.load_opcode] at hchanges
      obtain ⟨d, hd, heq⟩ := hchanges
      obtain rfl := Option.some_inj.1 (seq.load_dst.symm.trans hd)
      exact heq.elim ht.sel_apart.1 ht.sel_apart.2
    · -- the address is that of entry `i`
      have hbase := base_at_load hs ht ho s hs₀ hat₀
      have hfits := ht.fits
      rw [ht.no_offset, hhigh s s' hR hat₀, hsel] at hword
      rw [loadWord_entry hbase (by omega)] at hword
      have hlt : seq.tablePc / 4 + i * 2 < program.code.length := by omega
      have hknown := hword _ (List.getElem?_eq_getElem hlt)
      rw [hknown, entry, List.getElem?_eq_getElem hlt, Option.getD_some]
  · obtain rfl | rfl := hc
    · have hquiet := seq.quiet_sel x hx (by omega) inst hinst
      have hclamp := seq.clamped.clamp_lt
      have hshift := seq.clamped.shift_lt
      exact absurd (ht.sel_reported x (by omega) (by omega) inst hinst hchanges)
        (by rw [hquiet]; decide)
    · have hquiet := seq.quiet_low x hx hxa inst hinst
      exact absurd (ht.low_reported x hx hxa inst hinst hchanges) (by rw [hquiet]; decide)

/-- Behind the `S_GETPC_B64`, the low dword of the selected entry and the pc are there. -/
theorem target_at_setpc (ht : seq.Trusted writes) (ho : program.OperandsDecoded)
    (hsize : program.code.length ≤ 2 ^ 30 - 1)
    (hhigh : ∀ s s', R s s' → program.At seq.load.index s → s.registers (seq.base + 1) = 0) :
    ∀ s, S s → program.At k s → ∃ i, seq.Selects s.registers i ∧
      s.registers seq.pcReg = u32 (instructionEndPc seq.getpc + seq.entry i) := by
  have hload := seq.load_lt
  have hfour := seq.four_le
  have hfirst : seq.first ≤ k - 3 :=
    (((@first_le_getpc _ _ seq).trans seq.table.getpc_lt.le).trans seq.table.arith_lt.le).trans
      hload.le
  -- nothing behind the load changes the selector
  have hsel : ∀ x, seq.load.index < x → x < k → ∀ inst, program.instructions[x]? = some inst →
      ¬inst.Changes writes seq.sel := fun x hx hxk inst hinst hchanges => by
    have hclamp := seq.clamped.clamp_lt
    have hshift := seq.clamped.shift_lt
    exact absurd (ht.sel_reported x (by omega) hxk inst hinst hchanges)
      (by rw [seq.quiet_sel x hx hxk inst hinst]; decide)
  intro s₃ hs₃ hat₃
  obtain ⟨s₂, hs₂, -, hat₂, haddc⟩ := hs.after seq.addc_in (by omega) (by omega) hs₃
    (by rwa [Nat.sub_add_cancel (by omega)])
  obtain ⟨s₁, hs₁, -, hat₁, hadd⟩ := hs.after seq.add_in (by omega) (by omega) hs₂
    (by rwa [show k - 2 + 1 = k - 1 by omega])
  obtain ⟨s₀, hs₀, -, hat₀, hgetpc⟩ := hs.after seq.getpc_in hfirst (by omega) hs₁
    (by rwa [show k - 3 + 1 = k - 2 by omega])
  obtain ⟨i, ⟨hi, hi₀⟩, hlow₀⟩ := entry_at_getpc hs ht ho hsize hhigh s₀ hs₀ hat₀
  have hlow₁ : s₁.registers seq.low = seq.entry i := by
    refine (hgetpc.frame fun hchanges => ?_).trans hlow₀
    rw [Instruction.Changes, seq.getpc_opcode] at hchanges
    obtain ⟨d, hd, heq⟩ := hchanges
    obtain rfl := Option.some_inj.1 (seq.getpc_dst.symm.trans hd)
    exact heq.elim ht.low_apart.1 ht.low_apart.2
  have hpc₁ := hgetpc.of_getpc seq.getpc_opcode seq.getpc_dst
  have hpc₂ : s₂.registers seq.pcReg = u32 (instructionEndPc seq.getpc + seq.entry i) := by
    obtain ⟨x, y, result, hresult, hx, hy, hregister⟩ := hadd.of_arithmetic
      (fun x y scc => by rw [seq.add_opcode]; rfl) seq.add_dst
    rw [seq.add_opcode] at hresult
    cases hresult
    have hoffset := seq.add_offset
    rw [hregister]
    obtain ⟨h0, hother⟩ | ⟨-, h1, hother⟩ := otherScalarSource_cases seq.add_source
    · rw [hx.of_code h0, hy.of_code (hother ▸ hoffset), hpc₁, hlow₁]
    · rw [hx.of_code (hother ▸ hoffset), hy.of_code h1, hpc₁, hlow₁, Nat.add_comm]
  refine ⟨i, ⟨hi, ?_⟩, ?_⟩
  · rw [haddc.frame (hsel _ (by omega) (by omega) _ seq.addc_in),
      hadd.frame (hsel _ (by omega) (by omega) _ seq.add_in),
      hgetpc.frame (hsel _ hload (by omega) _ seq.getpc_in), hi₀]
  · -- the carry goes to another register
    refine (haddc.frame fun hchanges => ?_).trans hpc₂
    rw [Instruction.Changes, seq.addc_opcode] at hchanges
    have heq := Option.some_inj.1 (seq.addc_dst.symm.trans hchanges)
    unfold u32 at heq
    omega

end Sound

end TableSequence

/-! ### The short sequences -/

/-- What `ResolveSetpcTarget` finds first: a constant is added to or subtracted from the pc. -/
structure RelativeSequence (program : Program) (k : ℕ) where
  pcReg : ℕ
  imm : ℕ
  constant : Operand
  getpc : Instruction
  arith : Instruction
  setpc : Instruction
  two_le : 2 ≤ k
  getpc_in : program.instructions[k - 2]? = some getpc
  arith_in : program.instructions[k - 1]? = some arith
  setpc_in : program.instructions[k]? = some setpc
  getpc_opcode : getpc.opcode = .sGetpcB64
  getpc_dst : scalarOperandCode getpc.dst = some pcReg
  arith_opcode : (arith.opcode.adds || arith.opcode.subs) = true
  arith_dst : scalarOperandCode arith.dst = some pcReg
  source : otherScalarSource arith pcReg = some constant
  immediate : immediate constant = some imm
  setpc_opcode : setpc.opcode = .sSetpcB64
  setpc_source : scalarOperandCode setpc.src0 = some pcReg

/-- What it finds next: a jump to the pc. -/
structure NextSequence (program : Program) (k : ℕ) where
  pcReg : ℕ
  getpc : Instruction
  setpc : Instruction
  one_le : 1 ≤ k
  getpc_in : program.instructions[k - 1]? = some getpc
  setpc_in : program.instructions[k]? = some setpc
  getpc_opcode : getpc.opcode = .sGetpcB64
  getpc_dst : scalarOperandCode getpc.dst = some pcReg
  setpc_opcode : setpc.opcode = .sSetpcB64
  setpc_source : scalarOperandCode setpc.src0 = some pcReg

theorem scalarOperandCode_of_isRegister {operand : Operand} {reg : ℕ}
    (h : isRegister operand .sgpr reg = true) : scalarOperandCode operand = some reg := by
  rw [isRegister, Bool.and_eq_true, beq_iff_eq, beq_iff_eq] at h
  rw [scalarOperandCode, h.1, ← h.2]

/-- One source is the register, and the constant that was found is the other one. -/
theorem otherScalarSource_of_constant {inst : Instruction} {c imm : ℕ}
    (hsource : (isRegister inst.src0 .sgpr c || isRegister inst.src1 .sgpr c) = true)
    (himm : (immediate inst.src0 <|> immediate inst.src1) = some imm) :
    ∃ constant, otherScalarSource inst c = some constant ∧ immediate constant = some imm := by
  have hnone : ∀ {operand : Operand}, scalarOperandCode operand = some c →
      immediate operand = none := fun {operand} hc => by
    rw [Option.eq_none_iff_forall_ne_some]
    intro imm' himm'
    rw [scalarOperandCode_of_immediate himm'] at hc
    cases hc
  unfold otherScalarSource
  simp only [isScalarCode_iff]
  by_cases h0 : scalarOperandCode inst.src0 = some c
  · rw [hnone h0] at himm
    exact ⟨inst.src1, by rw [if_pos h0], himm⟩
  · have h1 : scalarOperandCode inst.src1 = some c := by
      rw [Bool.or_eq_true] at hsource
      exact hsource.elim (fun h => absurd (scalarOperandCode_of_isRegister h) h0)
        scalarOperandCode_of_isRegister
    refine ⟨inst.src0, by rw [if_neg h0, if_pos h1], ?_⟩
    rw [hnone h1] at himm
    cases h : immediate inst.src0 with
    | none =>
      rw [h] at himm
      cases himm
    | some v =>
      rw [h] at himm
      exact himm

/-- **What is found.** A single target is that of one of the two sequences. -/
theorem resolveSetpcTarget_found {target : ℕ} (h : resolveSetpcTarget program k = some target) :
    (∃ seq : RelativeSequence program k,
        target = seq.arith.opcode.combine (instructionEndPc seq.getpc) seq.imm) ∨
      ∃ seq : NextSequence program k, target = instructionEndPc seq.getpc := by
  unfold resolveSetpcTarget at h
  obtain ⟨setpc, hsetpc, h⟩ := Option.bind_eq_some_iff.1 h
  obtain ⟨_, hkind, h⟩ := Option.bind_eq_some_iff.1 h
  have hkind := (Option.guard_eq_some' _).1 hkind
  rw [Bool.and_eq_true, beq_iff_eq, beq_iff_eq] at hkind
  have hsource : scalarOperandCode setpc.src0 = some setpc.src0.reg := by
    rw [scalarOperandCode, hkind.2]
  rcases (Option.orElse_eq_some _ _ _).1 h with h | ⟨-, h⟩
  · obtain ⟨_, htwo, h⟩ := Option.bind_eq_some_iff.1 h
    obtain ⟨arith, harith, h⟩ := Option.bind_eq_some_iff.1 h
    obtain ⟨getpc, hgetpc, h⟩ := Option.bind_eq_some_iff.1 h
    obtain ⟨_, hregisters, h⟩ := Option.bind_eq_some_iff.1 h
    obtain ⟨_, hop, h⟩ := Option.bind_eq_some_iff.1 h
    obtain ⟨_, hsources, h⟩ := Option.bind_eq_some_iff.1 h
    obtain ⟨imm, himm, h⟩ := Option.bind_eq_some_iff.1 h
    cases h
    have hregisters := (Option.guard_eq_some' _).1 hregisters
    simp only [Bool.and_eq_true, beq_iff_eq] at hregisters
    obtain ⟨constant, hother, hconstant⟩ :=
      otherScalarSource_of_constant ((Option.guard_eq_some' _).1 hsources) himm
    exact .inl ⟨{
      pcReg := setpc.src0.reg, imm, constant, getpc, arith, setpc
      two_le := (Option.guard_eq_some' _).1 htwo
      getpc_in := hgetpc
      arith_in := harith
      setpc_in := hsetpc
      getpc_opcode := hregisters.1.1
      getpc_dst := scalarOperandCode_of_isRegister hregisters.1.2
      arith_opcode := (Option.guard_eq_some' _).1 hop
      arith_dst := scalarOperandCode_of_isRegister hregisters.2
      source := hother
      immediate := hconstant
      setpc_opcode := hkind.1
      setpc_source := hsource }, rfl⟩
  · obtain ⟨_, hone, h⟩ := Option.bind_eq_some_iff.1 h
    obtain ⟨getpc, hgetpc, h⟩ := Option.bind_eq_some_iff.1 h
    obtain ⟨_, hregister, h⟩ := Option.bind_eq_some_iff.1 h
    cases h
    have hregister := (Option.guard_eq_some' _).1 hregister
    rw [Bool.and_eq_true, beq_iff_eq] at hregister
    exact .inr ⟨{
      pcReg := setpc.src0.reg, getpc, setpc
      one_le := (Option.guard_eq_some' _).1 hone
      getpc_in := hgetpc
      setpc_in := hsetpc
      getpc_opcode := hregister.1
      getpc_dst := scalarOperandCode_of_isRegister hregister.2
      setpc_opcode := hkind.1
      setpc_source := hsource }, rfl⟩

section Short

variable {S : ScalarState → Prop} {R : ScalarState → ScalarState → Prop}

/-- The register of a relative sequence holds the resolved target, but for its low bits. -/
theorem RelativeSequence.target_at_setpc {seq : RelativeSequence program k}
    (hs : program.Straight writes (k - 2) k S R)
    (hright : seq.arith.opcode.subs = true → scalarOperandCode seq.arith.src0 = some seq.pcReg) :
    ∀ s, S s → program.At k s → alignDown (s.registers seq.pcReg) =
      seq.arith.opcode.combine (instructionEndPc seq.getpc) seq.imm := by
  intro s₂ hs₂ hat₂
  have htwo := seq.two_le
  obtain ⟨s₁, hs₁, -, hat₁, harith⟩ := hs.after seq.arith_in (by omega) (by omega) hs₂
    (by rwa [Nat.sub_add_cancel (by omega)])
  obtain ⟨s₀, -, -, -, hgetpc⟩ := hs.after seq.getpc_in le_rfl (by omega) hs₁
    (by rwa [show k - 2 + 1 = k - 1 by omega])
  rw [harith.combine seq.arith_opcode seq.arith_dst seq.source seq.immediate hright,
    hgetpc.of_getpc seq.getpc_opcode seq.getpc_dst]

/-- The register of a jump to the pc. -/
theorem NextSequence.target_at_setpc {seq : NextSequence program k}
    (hs : program.Straight writes (k - 1) k S R) :
    ∀ s, S s → program.At k s → s.registers seq.pcReg = instructionEndPc seq.getpc := by
  intro s₁ hs₁ hat₁
  have hone := seq.one_le
  obtain ⟨s₀, -, -, -, hgetpc⟩ := hs.after seq.getpc_in le_rfl (by omega) hs₁
    (by rwa [Nat.sub_add_cancel (by omega)])
  exact hgetpc.of_getpc seq.getpc_opcode seq.getpc_dst

end Short

/-! ### Resolved targets -/

/-- The step is to where the resolver says: to the target, or to a target that stands in the table
beside the value of the selector. -/
def SetpcTargetInfo.Sound (info : SetpcTargetInfo) (s s' : ScalarState) : Prop :=
  if info.indirect then
    ∃ i : ℕ, info.selectorValues[i]? = some (s.registers info.selectorCode) ∧
      info.selectorTargetPcs[i]? = some (u32 s'.pc)
  else u32 s'.pc = info.target

/-- The sequence in front of the `S_SETPC_B64` at index `k` does what the resolver takes it to
do: a constant that is subtracted stands on the right, and a table sequence is trusted. -/
structure Trusted (program : Program) (writes : Instruction → ℕ → Prop) (k : ℕ) : Prop where
  table : ∀ seq : TableSequence program k, seq.Trusted writes
  relative : ∀ seq : RelativeSequence program k, seq.arith.opcode.subs = true →
    scalarOperandCode seq.arith.src0 = some seq.pcReg

/-- A step that does not jump into the sequence in front of the `S_SETPC_B64` at index `k`, nor
loads from a table whose base has a high dword. -/
structure TrustedStep (program : Program) (writes : Instruction → ℕ → Prop) (k : ℕ)
    (s s' : ScalarState) : Prop where
  step : program.Step writes s s'
  table : ∀ seq : TableSequence program k, program.StepsStraight seq.first k s s' ∧
    (program.At seq.load.index s → s.registers (seq.base + 1) = 0)
  relative : RelativeSequence program k → program.StepsStraight (k - 2) k s s'
  next : NextSequence program k → program.StepsStraight (k - 1) k s s'

/-- The instructions of a decoded program are at word boundaries. -/
theorem Program.Decoded.pc_mod (h : program.Decoded) : ∀ {i : ℕ} {inst : Instruction},
    program.instructions[i]? = some inst → inst.pc % 4 = 0
  | 0, inst, hi => by
    have hstart := h.start
    rw [List.head?_eq_getElem?, hi, Option.map_some, Option.some_inj] at hstart
    rw [hstart]
  | i + 1, inst, hi => by
    have hlt := (List.getElem?_eq_some_iff.1 hi).1
    have hbefore := h.pc_mod (List.getElem?_eq_getElem (Nat.lt_of_succ_lt hlt))
    have hnext := List.isChain_iff_getElem.1 h.next i hlt
    rw [List.getElem?_eq_getElem hlt, Option.some_inj] at hi
    rw [hi] at hnext
    omega

/-- What `mapM` has collected is what the function gives. -/
theorem map_eq_of_mapM_some {α β : Type} {f : α → Option β} {l : List α} {r : List β}
    (h : l.mapM f = some r) : l.map f = r.map some := by
  induction l generalizing r with
  | nil => cases h; rfl
  | cons a l ih =>
    rw [List.mapM_cons] at h
    obtain ⟨b, hb, h⟩ := Option.bind_eq_some_iff.1 h
    obtain ⟨rest, hrest, h⟩ := Option.bind_eq_some_iff.1 h
    cases h
    rw [List.map_cons, List.map_cons, hb, ih hrest]

theorem readJumpTable_getElem? {code targetPcs : List ℕ} {tableWord targetBase entryCount : ℕ}
    (h : readJumpTable code tableWord targetBase entryCount = some targetPcs) {i : ℕ}
    (hi : i < entryCount) :
    targetPcs[i]? =
      some (alignDown (u32 (targetBase + (code[tableWord + i * 2]?).getD 0))) := by
  have hentry := congrArg (·[i]?) (map_eq_of_mapM_some h)
  simp only [List.getElem?_map, List.getElem?_range hi, Option.map_some] at hentry
  obtain ⟨target, htarget, heq⟩ := Option.map_eq_some_iff.1 hentry.symm
  obtain ⟨_, -, heq⟩ := Option.bind_eq_some_iff.1 heq.symm
  rw [htarget, ← Option.some_inj.1 heq]

theorem u32_alignDown_u32 (x : ℕ) : u32 (alignDown (u32 x)) = alignDown (u32 x) :=
  Nat.mod_eq_of_lt ((Nat.div_mul_le_self _ 4).trans_lt (Nat.mod_lt _ (by decide)))

/-- **Resolved targets are sound**: along every run that does not jump into the sequence in front
of it, a resolved `S_SETPC_B64` goes to its target. -/
theorem resolved_setpc_sound (hdecoded : program.Decoded) (hoperands : program.OperandsDecoded)
    {info : SetpcTargetInfo} (hresolved : resolveSetpcTargets program k = some info)
    (htrusted : Trusted program writes k) {s₀ s s' : ScalarState} (hstart : program.Starts s₀)
    (hrun : ReflTransGen (TrustedStep program writes k) s₀ s) (hat : program.At k s)
    (hstep : program.Step writes s s') : info.Sound s s' := by
  have ha := hdecoded.ascending
  -- the instruction at `k` is the `S_SETPC_B64`, which goes to the pair of its register
  have hjump : ∀ {setpc : Instruction} {c : ℕ}, program.instructions[k]? = some setpc →
      setpc.opcode = .sSetpcB64 → scalarOperandCode setpc.src0 = some c →
        u32 s'.pc = u32 (alignDown (s.registers c)) := by
    intro setpc c hin hop hsource
    obtain ⟨i, inst, hi, hpc, hexec⟩ := hstep
    obtain ⟨inst', hk, hpc'⟩ := hat
    obtain rfl := ha.index_unique hi hk (hpc.symm.trans hpc')
    obtain rfl := Option.some_inj.1 (hin.symm.trans hi)
    obtain ⟨low, high, hpair, htarget⟩ := hexec.of_setpc hop
    obtain ⟨rfl, -⟩ := hpair.of_code hsource
    rw [htarget, u32, Nat.add_mul_mod_self_left, u32]
  unfold resolveSetpcTargets at hresolved
  cases htable : resolveSetpcJumpTable program k with
  | some found =>
    rw [htable] at hresolved
    cases hresolved
    obtain ⟨seq, targetPcs, htargets, rfl⟩ := resolveSetpcJumpTable_found htable
    have hstraight := ha.straight
      (fun s s' (h : TrustedStep program writes k s s') => ⟨h.step, (h.table seq).1⟩) hstart
    obtain ⟨i, ⟨hi, hsel⟩, hpc⟩ := seq.target_at_setpc hstraight (htrusted.table seq) hoperands
      hdecoded.size (fun s s' h => (h.table seq).2) s hrun hat
    rw [SetpcTargetInfo.Sound, TableSequence.info, if_pos rfl]
    refine ⟨i, ?_, ?_⟩
    · rw [List.getElem?_map, List.getElem?_range hi, Option.map_some, hsel]
    · rw [readJumpTable_getElem? htargets hi, hjump seq.setpc_in seq.setpc_opcode seq.setpc_source,
        hpc, TableSequence.entry, u32_alignDown_u32]
  | none =>
    rw [htable] at hresolved
    obtain ⟨target, htarget, rfl⟩ := Option.map_eq_some_iff.1 hresolved
    rw [SetpcTargetInfo.Sound, if_neg Bool.false_ne_true]
    obtain ⟨seq, rfl⟩ | ⟨seq, rfl⟩ := resolveSetpcTarget_found htarget
    · have hstraight := ha.straight
        (fun s s' (h : TrustedStep program writes k s s') => ⟨h.step, h.relative seq⟩) hstart
      rw [hjump seq.setpc_in seq.setpc_opcode seq.setpc_source,
        seq.target_at_setpc hstraight (htrusted.relative seq) s hrun hat]
      exact Nat.mod_eq_of_lt (Opcode.combine_lt _ _ _)
    · have hstraight := ha.straight
        (fun s s' (h : TrustedStep program writes k s s') => ⟨h.step, h.next seq⟩) hstart
      rw [hjump seq.setpc_in seq.setpc_opcode seq.setpc_source,
        seq.target_at_setpc hstraight s hrun hat]
      -- the end of an instruction is a word boundary
      have hmod := hdecoded.pc_mod seq.getpc_in
      have hend := ha.instructionEndPc_eq (List.mem_of_getElem? seq.getpc_in)
      have hlt := (ha.words _ (List.mem_of_getElem? seq.getpc_in)).2
      show u32 (alignDown (instructionEndPc seq.getpc)) = instructionEndPc seq.getpc
      unfold u32 alignDown
      omega

/-! ### A jump into the sequence -/

/-- A branch enters the sequence behind its `S_GETPC_B64`:

    0: s_getpc_b64 s[0:1]
    4: s_add_u32 s0, s0, 8
    8: s_setpc_b64 s[0:1]
    12: s_cbranch_scc0 4
    16: s_branch 20
    20: s_endpgm -/
def enteredSequence : Program where
  code := List.replicate 6 0
  instructions :=
    let sgpr (reg : ℕ) : Operand := { kind := .sgpr, reg }
    [{ pc := 0, opcode := .sGetpcB64, dst := sgpr 0 },
      { pc := 4, opcode := .sAddU32, dst := sgpr 0, src0 := sgpr 0,
        src1 := { kind := .integerInlineConstant, value := 8, signedVal := 8 } },
      { pc := 8, opcode := .sSetpcB64, src0 := sgpr 0 },
      { pc := 12, opcode := .sCbranchScc0, branchTarget := 4 },
      { pc := 16, opcode := .sBranch, branchTarget := 20 },
      { pc := 20, opcode := .sEndpgm }]

theorem enteredSequence_decoded : enteredSequence.Decoded where
  size := by decide
  start := by decide
  next := by decide
  words := by decide

theorem enteredSequence_operands : enteredSequence.OperandsDecoded where
  values := by decide
  sums := by decide

/-- The state of a wave in `enteredSequence`. -/
def enteredState (pc r0 : ℕ) : ScalarState where
  pc := pc
  registers := Function.update (fun _ => 0) 0 r0
  scc := false

theorem enteredState_starts : enteredSequence.Starts (enteredState 0 0) := by
  refine ⟨rfl, fun c => ?_⟩
  show u32 (Function.update (fun _ => 0) 0 0 c) = Function.update (fun _ => 0) 0 0 c
  rw [Function.update_eq_self]
  rfl

theorem ScalarState.ext_registers {s s' : ScalarState} (hpc : s.pc = s'.pc)
    (hregisters : ∀ c, s.registers c = s'.registers c) (hscc : s.scc = s'.scc) : s = s' := by
  cases s
  cases s'
  obtain rfl := funext hregisters
  cases hpc
  cases hscc
  rfl

/-- The `S_GETPC_B64` of `enteredSequence`. -/
theorem enteredSequence_getpc :
    enteredSequence.Step writes (enteredState 0 0) (enteredState 4 4) := by
  have heq : enteredState 4 4 =
      { enteredState 0 0 with
        pc := 4
        registers := writeScalarPair (enteredState 0 0).registers { kind := .sgpr, reg := 0 } 4 0 } := by
    refine ScalarState.ext_registers rfl (fun c => ?_) rfl
    show Function.update (fun _ => 0) 0 4 c =
      Function.update (Function.update (Function.update (fun _ => 0) 0 0) 0 4) (0 + 1) 0 c
    rw [Function.update_idem]
    by_cases hc : c = 1
    · rw [hc]
      rfl
    · rw [Function.update_of_ne hc]
  rw [heq]
  exact ⟨0, _, rfl, rfl, .getpc rfl⟩

/-- The addition is executed with any value of `s0`. -/
theorem enteredSequence_add {r0 : ℕ} (hr0 : r0 + 8 < 2 ^ 32) :
    enteredSequence.Step writes (enteredState 4 r0) (enteredState 8 (r0 + 8)) := by
  have hsum : u32 (r0 + 8) = r0 + 8 := Nat.mod_eq_of_lt hr0
  have heq : enteredState 8 (r0 + 8) =
      { pc := 8
        registers := writeScalar (enteredState 4 r0).registers { kind := .sgpr, reg := 0 } (r0 + 8)
        scc := u32 (r0 + 8) != r0 + 8 } := by
    refine ScalarState.ext_registers rfl (fun c => ?_) (by simp [enteredState, hsum])
    exact congrFun (Function.update_idem r0 (r0 + 8) fun _ => 0).symm c
  rw [heq]
  let inst : Instruction :=
    { pc := 4, opcode := .sAddU32, dst := { kind := .sgpr, reg := 0 },
      src0 := { kind := .sgpr, reg := 0 },
      src1 := { kind := .integerInlineConstant, value := 8, signedVal := 8 } }
  have hresult : arithmetic .sAddU32 r0 8 false = some (r0 + 8, u32 (r0 + 8) != r0 + 8) := by
    rw [arithmetic, hsum]
  exact ⟨1, inst, rfl, rfl,
    @Instruction.Executes.arithmetic _ _ inst (enteredState 4 r0) r0 8 _ hresult rfl rfl⟩

/-- The jump goes to any word boundary that `s0` holds. -/
theorem enteredSequence_setpc {r0 : ℕ} (hr0 : alignDown r0 = r0) :
    enteredSequence.Step writes (enteredState 8 r0) (enteredState r0 r0) := by
  have heq : enteredState r0 r0 = { enteredState 8 r0 with pc := alignDown r0 + 2 ^ 32 * 0 } := by
    rw [hr0]
    rfl
  rw [heq]
  exact ⟨2, _, rfl, rfl, .setpc rfl ⟨rfl, rfl⟩⟩

/-- The branch is taken. -/
theorem enteredSequence_branch (r0 : ℕ) :
    enteredSequence.Step writes (enteredState 12 r0) (enteredState 4 r0) :=
  ⟨3, _, rfl, rfl, .branch rfl rfl⟩

/-- **The second time around**, the wave is at the `S_SETPC_B64` and jumps to 20. -/
theorem enteredSequence_run : ∃ s s', enteredSequence.Starts s ∧
    ReflTransGen (enteredSequence.Step writes) s s' ∧ enteredSequence.At 2 s' ∧
      enteredSequence.Step writes s' (enteredState 20 20) := by
  refine ⟨enteredState 0 0, enteredState 8 20, enteredState_starts, ?_, ⟨_, rfl, rfl⟩,
    enteredSequence_setpc rfl⟩
  have hfirst := (ReflTransGen.single (@enteredSequence_getpc writes)).tail
    (enteredSequence_add (by decide))
  have hback := (hfirst.tail (enteredSequence_setpc rfl)).tail (enteredSequence_branch 12)
  exact hback.tail (enteredSequence_add (by decide))

/-- Resolved targets are not sound along every run. -/
theorem resolved_setpc_unsound : ¬ ∀ (program : Program) (writes : Instruction → ℕ → Prop) (k : ℕ)
    (info : SetpcTargetInfo), program.Decoded → program.OperandsDecoded →
      resolveSetpcTargets program k = some info → ∀ s₀ s s', program.Starts s₀ →
        ReflTransGen (program.Step writes) s₀ s → program.At k s → program.Step writes s s' →
          info.Sound s s' := by
  intro hall
  obtain ⟨s₀, s, hstart, hrun, hat, hstep⟩ := @enteredSequence_run fun _ _ => False
  have hresolved : resolveSetpcTargets enteredSequence 2 = some { target := 12 } := by decide
  have hsound := hall enteredSequence _ 2 _ enteredSequence_decoded enteredSequence_operands
    hresolved s₀ s _ hstart hrun hat hstep
  exact absurd (show u32 20 = 12 from hsound) (by decide)

/-- The theorem at work: the first time around, the wave goes to the resolved target. -/
theorem resolved_setpc_sound_enteredSequence :
    SetpcTargetInfo.Sound { target := 12 } (enteredState 8 12) (enteredState 12 12) := by
  have htables : TableSequence enteredSequence 2 → False := fun seq => by
    have hfour := seq.four_le
    omega
  have hnexts : NextSequence enteredSequence 2 → False := fun seq => by
    have hop := congrArg (Option.map Instruction.opcode) seq.getpc_in
    rw [Option.map_some, seq.getpc_opcode] at hop
    cases hop
  have hsums : ∀ seq : RelativeSequence enteredSequence 2, seq.arith.opcode.subs = false := by
    intro seq
    have hop := congrArg (Option.map Instruction.opcode) seq.arith_in
    rw [Option.map_some] at hop
    rw [← Option.some_inj.1 hop]
    rfl
  have htrusted : ∀ {i : ℕ} {s s' : ScalarState}, enteredSequence.Step (fun _ _ => False) s s' →
      enteredSequence.At i s → enteredSequence.At (i + 1) s' →
        TrustedStep enteredSequence (fun _ _ => False) 2 s s' := fun hstep hs hs' =>
    ⟨hstep, fun seq => (htables seq).elim,
      fun _ => enteredSequence_decoded.ascending.stepsStraight hs hs', fun seq => (hnexts seq).elim⟩
  exact resolved_setpc_sound enteredSequence_decoded enteredSequence_operands (k := 2) (by decide)
    ⟨fun seq => (htables seq).elim, fun seq hsubs => by rw [hsums seq] at hsubs; cases hsubs⟩
    enteredState_starts
    ((ReflTransGen.single (@htrusted 0 _ _ enteredSequence_getpc ⟨_, rfl, rfl⟩ ⟨_, rfl, rfl⟩)).tail
      (@htrusted 1 _ _ (enteredSequence_add (by decide)) ⟨_, rfl, rfl⟩ ⟨_, rfl, rfl⟩))
    ⟨_, rfl, rfl⟩ (enteredSequence_setpc rfl)

end Prosperismo.Cfg
