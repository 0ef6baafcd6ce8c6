import Prosperismo.Cfg.Build

/-!
# The jump table of an S_SETPC_B64

`ResolveSetpcJumpTable` in two halves: the match against the instruction list, which
gives where the table is and how many entries it has, and the reading of the table.
`jumpTableReads` are the words of the code that the second half reads.

Only one comparison, in `uint32_t` arithmetic, stands between the two. For a table whose
end wraps it compares the wrapped value, so the reads stay inside of the code exactly
when the end of a table that passes does not wrap (`stays_inside_iff`).
-/

namespace Prosperismo.Cfg

variable {program : Program} {setpcIndex : ℕ}

/-! ### The two halves -/

/-- The locals of `ResolveSetpcJumpTable` at its bounds test. -/
structure JumpTable where
  pcReg : ℕ
  selectorCode : ℕ
  loadPc : ℕ
  targetBase : ℕ
  tablePc : ℕ
  entryCount : ℕ
deriving DecidableEq, Repr

/-- `table_word`. -/
def JumpTable.tableWord (table : JumpTable) : ℕ := table.tablePc / 4

/-- `ResolveSetpcJumpTable` up to its bounds test. -/
def matchJumpTable (program : Program) (setpcIndex : ℕ) : Option JumpTable := do
  let instructions := program.instructions
  guard (4 ≤ setpcIndex)
  let setpc ← instructions[setpcIndex]?
  guard (setpc.opcode == .sSetpcB64 && setpc.src0.kind == .sgpr)
  let pcReg ← scalarOperandCode setpc.src0
  let getpc ← instructions[setpcIndex - 3]?
  let add ← instructions[setpcIndex - 2]?
  let addc ← instructions[setpcIndex - 1]?
  guard (getpc.opcode == .sGetpcB64 && isScalarCode getpc.dst pcReg &&
    add.opcode == .sAddU32 && isScalarCode add.dst pcReg &&
    addc.opcode == .sAddcU32 && isScalarCode addc.dst (u32 (pcReg + 1)))
  let offsetLowOperand ← otherScalarSource add pcReg
  let offsetHighOperand ← otherScalarSource addc (u32 (pcReg + 1))
  let offsetLowCode ← scalarOperandCode offsetLowOperand
  let offsetHighCode ← scalarOperandCode offsetHighOperand
  guard (offsetHighCode == u32 (offsetLowCode + 1))
  let loadIndex ← findPreviousScalarLoadPair instructions offsetLowCode (setpcIndex - 3)
  let load ← instructions[loadIndex]?
  let tableBaseCode ← scalarOperandCode load.src0
  let tablePc ← resolvePcRelativeBase instructions tableBaseCode loadIndex
  let entryCount ← resolveJumpTableEntryCount instructions loadIndex load.src1
  let selectorCode ← scalarOperandCode load.src1
  guard (!scalarCodeWrittenInRange instructions (loadIndex + 1) setpcIndex selectorCode)
  return { pcReg, selectorCode, loadPc := load.pc, targetBase := instructionEndPc getpc,
           tablePc, entryCount }

/-- The bounds test. -/
def JumpTable.passes (table : JumpTable) (code : List ℕ) : Bool :=
  table.tablePc % 4 == 0 && decide (u32 (table.tableWord + table.entryCount * 2) ≤ code.length)

/-- `ResolveSetpcJumpTable` from its bounds test on. -/
def JumpTable.read (table : JumpTable) (code : List ℕ) : Option SetpcTargetInfo := do
  guard (table.passes code)
  let targetPcs ← readJumpTable code table.tableWord table.targetBase table.entryCount
  guard (!targetPcs.isEmpty)
  return {
    indirect := true
    pcSgpr := table.pcReg
    selectorCode := table.selectorCode
    tableLoadPc := table.loadPc
    targetPcs := targetPcs.foldl addUnique []
    selectorValues := (List.range table.entryCount).map fun i => u32 (i * 8)
    selectorTargetPcs := targetPcs }

/-- A sequence of steps that goes on in `k` can be cut there, whatever its first step gives. -/
theorem bind_cut {α β γ : Type} {x : Option α} {f : α → Option γ} {g : α → Option β}
    {k : β → Option γ} (h : ∀ a, f a = (g a).bind k) : x.bind f = (x.bind g).bind k := by
  cases x with
  | none => rfl
  | some a => exact h a

/-- The two halves are the function. -/
theorem resolveSetpcJumpTable_eq (program : Program) (setpcIndex : ℕ) :
    resolveSetpcJumpTable program setpcIndex =
      (matchJumpTable program setpcIndex).bind fun table => table.read program.code := by
  unfold resolveSetpcJumpTable matchJumpTable
  iterate 20 refine bind_cut fun _ => ?_
  rfl

/-- `ResolvePcRelativeBase` clears the low bits of a `uint32_t`. -/
theorem resolvePcRelativeBase_spec {instructions : List Instruction} {baseCode pc : ℕ} :
    ∀ {i : ℕ}, resolvePcRelativeBase instructions baseCode i = some pc → pc % 4 = 0 ∧ pc < 2 ^ 32
  | 0, h => by cases h
  | i + 1, h => by
    rw [resolvePcRelativeBase] at h
    split at h
    · cases h
    split_ifs at h
    · exact resolvePcRelativeBase_spec h
    · -- the five steps of the match
      obtain ⟨-, -, h⟩ := Option.bind_eq_some_iff.1 h
      obtain ⟨offset, -, h⟩ := Option.bind_eq_some_iff.1 h
      obtain ⟨imm, -, h⟩ := Option.bind_eq_some_iff.1 h
      obtain ⟨getpcIndex, -, h⟩ := Option.bind_eq_some_iff.1 h
      obtain ⟨getpc, -, h⟩ := Option.bind_eq_some_iff.1 h
      cases h
      have halign : ∀ x, x < 2 ^ 32 → alignDown x % 4 = 0 ∧ alignDown x < 2 ^ 32 := fun x hx => by
        unfold alignDown
        omega
      refine halign _ ?_
      split_ifs <;> exact Nat.mod_lt _ (by decide)

/-- A clamped table has at least one entry, and fewer than 2^32. -/
theorem resolveIndexClamp_spec {instructions : List Instruction} {indexCode count : ℕ} :
    ∀ {j : ℕ}, resolveIndexClamp instructions indexCode j = some count → count < 2 ^ 32
  | 0, h => by cases h
  | j + 1, h => by
    rw [resolveIndexClamp] at h
    split at h
    · cases h
    split_ifs at h
    · exact resolveIndexClamp_spec h
    · obtain ⟨-, -, h⟩ := Option.bind_eq_some_iff.1 h
      obtain ⟨clampOther, -, h⟩ := Option.bind_eq_some_iff.1 h
      obtain ⟨maxIndex, -, h⟩ := Option.bind_eq_some_iff.1 h
      obtain ⟨-, -, h⟩ := Option.bind_eq_some_iff.1 h
      cases h
      exact Nat.mod_lt _ (by decide)

theorem resolveOffsetShift_spec {instructions : List Instruction} {code count : ℕ} :
    ∀ {i : ℕ}, resolveOffsetShift instructions code i = some count → count < 2 ^ 32
  | 0, h => by cases h
  | i + 1, h => by
    rw [resolveOffsetShift] at h
    split at h
    · cases h
    split_ifs at h
    · exact resolveOffsetShift_spec h
    · obtain ⟨-, -, h⟩ := Option.bind_eq_some_iff.1 h
      obtain ⟨amountOperand, -, h⟩ := Option.bind_eq_some_iff.1 h
      obtain ⟨amount, -, h⟩ := Option.bind_eq_some_iff.1 h
      obtain ⟨-, -, h⟩ := Option.bind_eq_some_iff.1 h
      exact resolveIndexClamp_spec h

/-- What the match gives: an aligned pc, and a number of entries, both `uint32_t`. -/
theorem matchJumpTable_spec {table : JumpTable}
    (h : matchJumpTable program setpcIndex = some table) :
    table.tablePc % 4 = 0 ∧ table.tablePc < 2 ^ 32 ∧ table.entryCount < 2 ^ 32 := by
  unfold matchJumpTable at h
  -- the steps before the table is resolved
  iterate 16 obtain ⟨_, -, h⟩ := Option.bind_eq_some_iff.1 h
  obtain ⟨tablePc, hpc, h⟩ := Option.bind_eq_some_iff.1 h
  obtain ⟨entryCount, hcount, h⟩ := Option.bind_eq_some_iff.1 h
  obtain ⟨_, -, h⟩ := Option.bind_eq_some_iff.1 h
  obtain ⟨-, -, h⟩ := Option.bind_eq_some_iff.1 h
  cases h
  obtain ⟨byteOffsetCode, -, hcount⟩ := Option.bind_eq_some_iff.1 hcount
  exact ⟨(resolvePcRelativeBase_spec hpc).1, (resolvePcRelativeBase_spec hpc).2,
    resolveOffsetShift_spec hcount⟩

/-! ### The words it reads -/

/-- The indices of the code words that the table loop reads from entry `i` on, with `count` entries
left. A high word that is neither 0 nor -1 ends the loop; behind a word that is not in the code
nothing can be said any more. -/
def tableReads (code : List ℕ) (tableWord : ℕ) : ℕ → ℕ → List ℕ
  | 0, _ => []
  | count + 1, i =>
    let low := u32 (tableWord + i * 2)
    let high := u32 (tableWord + i * 2 + 1)
    low :: if low < code.length then
        high :: if code[high]? = some 0 ∨ code[high]? = some uint32Max then
            tableReads code tableWord count (i + 1)
          else []
      else []

/-- The words of the code that `ResolveSetpcJumpTable` reads. -/
def jumpTableReads (program : Program) (setpcIndex : ℕ) : List ℕ :=
  match matchJumpTable program setpcIndex with
  | none => []
  | some table =>
    if table.passes program.code then tableReads program.code table.tableWord table.entryCount 0
    else []

/-- A table that fits the code is read inside of it. -/
theorem tableReads_lt {code : List ℕ} (hsize : code.length ≤ 2 ^ 30 - 1) {tableWord : ℕ} :
    ∀ {count i : ℕ}, tableWord + (i + count) * 2 ≤ code.length →
      ∀ w ∈ tableReads code tableWord count i, w < code.length
  | 0, i, _, w, hw => absurd hw List.not_mem_nil
  | count + 1, i, hfits, w, hw => by
    have hlow : u32 (tableWord + i * 2) = tableWord + i * 2 := Nat.mod_eq_of_lt (by omega)
    have hhigh : u32 (tableWord + i * 2 + 1) = tableWord + i * 2 + 1 := Nat.mod_eq_of_lt (by omega)
    rw [tableReads, hlow, hhigh] at hw
    rcases List.mem_cons.1 hw with rfl | hw
    · omega
    split_ifs at hw
    · rcases List.mem_cons.1 hw with rfl | hw
      · omega
      · exact tableReads_lt hsize (by omega) w hw
    · rcases List.mem_cons.1 hw with rfl | hw
      · omega
      · exact absurd hw List.not_mem_nil
    · exact absurd hw List.not_mem_nil

/-- The entry loop, cut to some of its rounds: it depends on no other words than those it reads. -/
theorem mapM_tableEntry_congr {code code' : List ℕ} (hsize : code.length ≤ 2 ^ 30 - 1)
    {tableWord targetBase : ℕ} : ∀ {count i : ℕ}, tableWord + (i + count) * 2 ≤ code.length →
      (∀ w ∈ tableReads code tableWord count i, code'[w]? = code[w]?) →
      (List.range' i count).mapM (fun i => do
          let low := (code'[tableWord + i * 2]?).getD 0
          let high := (code'[tableWord + i * 2 + 1]?).getD 0
          guard (high == 0 || high == uint32Max)
          return alignDown (u32 (targetBase + low))) =
        (List.range' i count).mapM fun i => (do
          let low := (code[tableWord + i * 2]?).getD 0
          let high := (code[tableWord + i * 2 + 1]?).getD 0
          guard (high == 0 || high == uint32Max)
          return alignDown (u32 (targetBase + low)) : Option ℕ)
  | 0, i, _, _ => rfl
  | count + 1, i, hfits, hagree => by
    have hlow : u32 (tableWord + i * 2) = tableWord + i * 2 := Nat.mod_eq_of_lt (by omega)
    have hhigh : u32 (tableWord + i * 2 + 1) = tableWord + i * 2 + 1 := Nat.mod_eq_of_lt (by omega)
    rw [tableReads, hlow, hhigh, if_pos (by omega : tableWord + i * 2 < code.length)] at hagree
    obtain ⟨hagreeLow, hagree⟩ := List.forall_mem_cons.1 hagree
    obtain ⟨hagreeHigh, hagree⟩ := List.forall_mem_cons.1 hagree
    have hword : code[tableWord + i * 2 + 1]? = some code[tableWord + i * 2 + 1] :=
      List.getElem?_eq_getElem (by omega)
    rw [List.range'_succ, List.mapM_cons, List.mapM_cons, hagreeLow, hagreeHigh, hword,
      Option.getD_some]
    by_cases hgood : code[tableWord + i * 2 + 1] = 0 ∨ code[tableWord + i * 2 + 1] = uint32Max
    · rw [if_pos (by simpa [hword] using hgood)] at hagree
      rw [mapM_tableEntry_congr hsize (by omega) hagree]
    · -- the guard ends both loops
      have hguard : (code[tableWord + i * 2 + 1] == 0 ||
          code[tableWord + i * 2 + 1] == uint32Max) = false := by
        simpa [not_or] using hgood
      dsimp only
      rw [hguard]
      rfl

/-- **What is read.** The target pcs of a table that fits the code depend on the words of
`tableReads` only. -/
theorem readJumpTable_congr {code code' : List ℕ} (hsize : code.length ≤ 2 ^ 30 - 1)
    {tableWord targetBase entryCount : ℕ} (hfits : tableWord + entryCount * 2 ≤ code.length)
    (hagree : ∀ w ∈ tableReads code tableWord entryCount 0, code'[w]? = code[w]?) :
    readJumpTable code' tableWord targetBase entryCount =
      readJumpTable code tableWord targetBase entryCount := by
  unfold readJumpTable
  rw [List.range_eq_range']
  exact mapM_tableEntry_congr hsize (by omega) hagree

/-! ### Staying inside -/

/-- A resolution that stays inside of the shader: all words it reads are in the code, and the end
of a table that passes the bounds test does not wrap. -/
def StaysInside (program : Program) (setpcIndex : ℕ) : Prop :=
  (∀ w ∈ jumpTableReads program setpcIndex, w < program.code.length) ∧
    ∀ table, matchJumpTable program setpcIndex = some table → table.passes program.code = true →
      table.tableWord + 2 * table.entryCount < 2 ^ 32

/-- The end of the table lies above a multiple of 2^32 by no more words than the code has. -/
def JumpTable.EndsPast (table : JumpTable) (code : List ℕ) (multiple : ℕ) : Prop :=
  multiple * 2 ^ 32 ≤ table.tableWord + 2 * table.entryCount ∧
    table.tableWord + 2 * table.entryCount ≤ multiple * 2 ^ 32 + code.length

/-- **When the resolution stays inside**: the end of the table that the instructions before the
`S_SETPC_B64` describe does not lie just above 2^32 or 2^33. -/
theorem stays_inside_iff (hdecoded : program.Decoded) (setpcIndex : ℕ) :
    StaysInside program setpcIndex ↔
      ∀ table, matchJumpTable program setpcIndex = some table →
        ¬ table.EndsPast program.code 1 ∧ ¬ table.EndsPast program.code 2 := by
  have hsize := hdecoded.size
  have hpasses : ∀ table, matchJumpTable program setpcIndex = some table →
      (table.passes program.code = true ↔
        table.tableWord + 2 * table.entryCount ≤ program.code.length ∨
          table.EndsPast program.code 1 ∨ table.EndsPast program.code 2) := fun table htable => by
    obtain ⟨haligned, hpc, hcount⟩ := matchJumpTable_spec htable
    have hword : table.tableWord < 2 ^ 30 := by
      unfold JumpTable.tableWord
      omega
    rw [JumpTable.passes, Bool.and_eq_true, beq_iff_eq, decide_eq_true_eq, and_iff_right haligned]
    unfold JumpTable.EndsPast u32
    omega
  constructor
  · rintro ⟨-, hnowrap⟩ table htable
    constructor <;> intro hends
    · have hlt := hnowrap table htable ((hpasses table htable).2 (.inr (.inl hends)))
      exact absurd hends.1 (by omega)
    · have hlt := hnowrap table htable ((hpasses table htable).2 (.inr (.inr hends)))
      exact absurd hends.1 (by omega)
  · intro hcond
    -- the sum that is compared is the end of the table
    have hfits : ∀ table, matchJumpTable program setpcIndex = some table →
        table.passes program.code = true →
          table.tableWord + 2 * table.entryCount ≤ program.code.length := by
      intro table htable hpass
      obtain ⟨hfirst, hsecond⟩ := hcond table htable
      exact ((hpasses table htable).1 hpass).resolve_right (not_or.2 ⟨hfirst, hsecond⟩)
    refine ⟨fun w hw => ?_, fun table htable hpass => ?_⟩
    · unfold jumpTableReads at hw
      split at hw
      · exact absurd hw List.not_mem_nil
      · rename_i table htable
        split_ifs at hw with hpass
        · have hle := hfits table htable hpass
          exact tableReads_lt hsize (by omega) w hw
        · exact absurd hw List.not_mem_nil
    · have := hfits table htable hpass
      omega

/-- A table behind the last word, with 2^31 entries:

    0: s_min_u32 s2, s2, 0x7fffffff
    8: s_lshl_b32 s2, s2, 3
    12: s_getpc_b64 s[4:5]
    16: s_add_u32 s4, s4, 36
    24: s_load_dwordx2 s[6:7], s[4:5], s2
    32: s_getpc_b64 s[8:9]
    36: s_add_u32 s8, s8, s6
    40: s_addc_u32 s9, s9, s7
    44: s_setpc_b64 s[8:9]
    48: s_endpgm -/
def farTable : Program where
  code := List.replicate 13 0
  instructions :=
    let sgpr (reg : ℕ) : Operand := { kind := .sgpr, reg }
    let literal (value : ℕ) : Operand := { kind := .literalConstant, value, signedVal := value }
    [{ pc := 0, wordCount := 2, opcode := .sMinU32, dst := sgpr 2, src0 := sgpr 2,
        src1 := literal 0x7fffffff },
      { pc := 8, opcode := .sLshlB32, dst := sgpr 2, src0 := sgpr 2,
        src1 := { kind := .integerInlineConstant, value := 3, signedVal := 3 } },
      { pc := 12, opcode := .sGetpcB64, dst := sgpr 4, dataDwords := 2 },
      { pc := 16, wordCount := 2, opcode := .sAddU32, dst := sgpr 4, src0 := sgpr 4,
        src1 := literal 36 },
      { pc := 24, wordCount := 2, opcode := .sLoadDwordx2, dst := sgpr 6, src0 := sgpr 4,
        src1 := sgpr 2, dataDwords := 2 },
      { pc := 32, opcode := .sGetpcB64, dst := sgpr 8, dataDwords := 2 },
      { pc := 36, opcode := .sAddU32, dst := sgpr 8, src0 := sgpr 8, src1 := sgpr 6 },
      { pc := 40, opcode := .sAddcU32, dst := sgpr 9, src0 := sgpr 9, src1 := sgpr 7 },
      { pc := 44, opcode := .sSetpcB64, src0 := sgpr 8 },
      { pc := 48, opcode := .sEndpgm }]

theorem farTable_decoded : farTable.Decoded where
  size := by decide
  start := by decide
  next := by decide
  words := by decide

/-- The table of `farTable` is let through, and its first word is read behind the code. -/
theorem farTable_read_outside : ¬ ∀ (program : Program) (setpcIndex : ℕ), program.Decoded →
    StaysInside program setpcIndex := by
  intro hall
  have hread : 13 ∈ jumpTableReads farTable 8 := by decide +kernel
  exact absurd ((hall farTable 8 farTable_decoded).1 13 hread) (by decide)

/-- The condition at work: the table of `farTable` ends just above 2^32. -/
theorem stays_inside_iff_farTable : ¬ StaysInside farTable 8 := by
  intro hinside
  have htable : ∃ table, matchJumpTable farTable 8 = some table ∧ table.tableWord = 13 ∧
      table.entryCount = 0x80000000 := by
    refine ⟨(matchJumpTable farTable 8).getD ⟨0, 0, 0, 0, 0, 0⟩, ?_, ?_, ?_⟩ <;> decide +kernel
  obtain ⟨table, hmatch, hword, hcount⟩ := htable
  refine ((stays_inside_iff farTable_decoded 8).1 hinside table hmatch).1 ⟨?_, ?_⟩
  · omega
  · have hsize : farTable.code.length = 13 := rfl
    omega

end Prosperismo.Cfg
