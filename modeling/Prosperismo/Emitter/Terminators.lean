import Prosperismo.Emitter.ControlFlow

/-!
# Paths of a lowered program

What a lowered program means, independently of how it is emitted: it starts at
block 0, executes a block, and goes where the block's terminator says, until the
terminator names no block of the program.

What a block does to the registers and to everything else is a relation
`effect`, so a program has as many paths as its blocks have outcomes.
-/

namespace Prosperismo.Emitter

open Prosperismo.Cfg (uint32Max BranchCondition TerminatorKind Terminator)

/-- The contents of the registers. -/
abbrev Registers := Register → ℕ

/-- Some lane of a wave mask is set. A wave of 32 has no high word; with neither
wide mode only the low word is used. -/
def MaskMode.maskNonZero (mode : MaskMode) (regs : Registers) (file : RegisterFile) : Prop :=
  regs ⟨file, 0⟩ ≠ 0 ∨
    ((mode.perInvocationMasks || mode.exactSubgroupOperations) = true ∧ mode.waveSize ≠ 32 ∧
      regs ⟨file, 1⟩ ≠ 0)

instance (mode : MaskMode) (regs : Registers) (file : RegisterFile) :
    Decidable (mode.maskNonZero regs file) :=
  inferInstanceAs (Decidable (_ ∨ _))

/-- Whether a conditional branch is taken. The conditions of conditional branches
are the six on SCC, VCC and EXEC; any other is read as `sccNonZero`. -/
def MaskMode.holds (mode : MaskMode) (regs : Registers) : BranchCondition → Prop
  | .sccZero => regs sccRegister = 0
  | .sccNonZero => regs sccRegister ≠ 0
  | .vccZero => ¬mode.maskNonZero regs .vcc
  | .vccNonZero => mode.maskNonZero regs .vcc
  | .execZero => ¬mode.maskNonZero regs .exec
  | .execNonZero => mode.maskNonZero regs .exec
  | .always | .unknown => regs sccRegister ≠ 0

instance (mode : MaskMode) (regs : Registers) (c : BranchCondition) :
    Decidable (mode.holds regs c) :=
  match c with
  | .sccZero => inferInstanceAs (Decidable (_ = _))
  | .sccNonZero | .always | .unknown => inferInstanceAs (Decidable (_ ≠ _))
  | .vccZero | .execZero => inferInstanceAs (Decidable (¬mode.maskNonZero regs _))
  | .vccNonZero | .execNonZero => inferInstanceAs (Decidable (mode.maskNonZero regs _))

/-- The register an indirect branch reads: the selector of its table, or the low
word of the target pc. -/
def indirectRegister (term : Terminator) : Option Register :=
  if term.indirectSelectorCode ≠ uint32Max then registerForScalarCode term.indirectSelectorCode
  else if term.indirectPcSgpr = uint32Max then none
  else some ⟨.scalar, term.indirectPcSgpr⟩

/-- The table of an indirect branch: register values and the blocks they select. A
selector table whose two columns differ in length has no entries. -/
def indirectTable (term : Terminator) : List (ℕ × ℕ) :=
  if term.indirectSelectorCode ≠ uint32Max then
    if term.indirectSelectorValues.length = term.indirectSelectorTargets.length then
      term.indirectSelectorValues.zip term.indirectSelectorTargets
    else []
  else term.indirectTargetPcs.zip term.indirectTargets

/-- The blocks a terminator can go to. -/
def targets (term : Terminator) : List ℕ :=
  match term.kind with
  | .branch => [term.trueBlock]
  | .conditionalBranch => [term.trueBlock, term.falseBlock]
  | .indirectBranch => (indirectTable term).map Prod.snd
  | _ => []

/-- The target a terminator selects. -/
def selectedTarget (mode : MaskMode) (regs : Registers) (term : Terminator) : Option ℕ :=
  match term.kind with
  | .branch => some term.trueBlock
  | .conditionalBranch =>
    some (if mode.holds regs term.condition then term.trueBlock else term.falseBlock)
  | .indirectBranch => (indirectRegister term).bind fun reg => (indirectTable term).lookup (regs reg)
  | _ => none

/-- A block of the program, or none. -/
def Program.inRange (program : Program) (target : Option ℕ) : Option ℕ :=
  target.filter fun b => decide (b < program.blocks.length)

/-- The block executed after one with terminator `term`. -/
def nextBlock (mode : MaskMode) (program : Program) (regs : Registers) (term : Terminator) :
    Option ℕ :=
  program.inRange (selectedTarget mode regs term)

/-- **The paths of a program.** From block `at_`, or from the end, it executes the
blocks `tr` in order, and has then ended (`fin = true`) or can go on. -/
inductive Path {W : Type} (mode : MaskMode) (program : Program)
    (effect : ℕ → Registers × W → Registers × W → Prop) :
    Option ℕ → Registers × W → List ℕ → Bool → Prop
  | running (at_ s) : Path mode program effect at_ s [] false
  | ended (s) : Path mode program effect none s [] true
  | block {b block s s' tr fin} : program.blocks[b]? = some block → effect b s s' →
      Path mode program effect (nextBlock mode program s'.1 block.terminator) s' tr fin →
      Path mode program effect (some b) s (b :: tr) fin

/-- What the emitters rely on. -/
structure WellFormed (named : List Register) (program : Program) : Prop where
  /-- Block ids equal positions. -/
  ids : ∀ (i : ℕ) (block : Block), program.blocks[i]? = some block → block.id = i
  /-- No id is the id of no block. -/
  small : program.blocks.length ≤ uint32Max
  /-- The successor lists contain the blocks the terminators go to. -/
  successors : ∀ block ∈ program.blocks, ∀ t ∈ targets block.terminator,
    t < program.blocks.length → t ∈ block.successors
  /-- The tables of indirect branches have distinct entries. -/
  tables : ∀ block ∈ program.blocks, block.terminator.kind = .indirectBranch →
    ((indirectTable block.terminator).map Prod.fst).Nodup
  /-- The register of an indirect branch is one the program names. -/
  registers : ∀ block ∈ program.blocks, block.terminator.kind = .indirectBranch →
    ∀ reg, indirectRegister block.terminator = some reg → reg ∈ collectRegisters named

/-- What the structured emitter relies on in addition. -/
structure Structurable (program : Program) : Prop where
  /-- There are no indirect branches. -/
  direct : ∀ block ∈ program.blocks, block.terminator.kind ≠ .indirectBranch
  /-- Both sides of a conditional branch are blocks. -/
  twoSided : ∀ block ∈ program.blocks, block.terminator.kind = .conditionalBranch →
    block.terminator.trueBlock < program.blocks.length ∧
      block.terminator.falseBlock < program.blocks.length

end Prosperismo.Emitter

/-!
# What the emitted terminators do

One lemma for each emitter of a condition, a selection table or a terminator: the
code it emits computes the condition, selects the target of the matching entry, or
leaves the block for the next one. The dispatcher leaves a block by storing the
next block's id (`leaves_dispatcherTerminator`), the structured emitter by jumping
to it (`leaves_terminator`).
-/

namespace Prosperismo.Emitter

open Prosperismo.Cfg (uint32Max BranchCondition TerminatorKind Terminator)
open Prosperismo.Spirv

/-- The registers of a memory. -/
def registersOf (vars : Variable → ℕ) : Registers := fun reg => vars (.register reg)

/-! ### Registers and labels -/

theorem mem_foldl_collect {named registers : List Register} {reg : Register}
    (h : reg ∈ registers) :
    reg ∈ named.foldl
      (fun registers reg => if reg ∈ registers then registers else registers ++ [reg])
      registers := by
  induction named generalizing registers with
  | nil => exact h
  | cons r named ih =>
    refine ih ?_
    dsimp only
    split
    · exact h
    · exact List.mem_append_left _ h

/-- The mask state is always collected. -/
theorem mem_collectRegisters {named : List Register} {reg : Register}
    (h : reg ∈ maskStateRegisters) : reg ∈ collectRegisters named :=
  mem_foldl_collect h

section Computes

variable {state : EmitterState} {n : ℕ} {env : Env} {vars : Variable → ℕ}

/-! ### Conditions -/

theorem computes_load (v : Variable) :
    Computes (L := Label) (B := ℕ) (emitLoad v) n env vars (vars v) :=
  Computes.fresh (i := fun r => .load r v) rfl

theorem computes_nonZero {x : Operand} {w : ℕ} (hx : x.eval env = w) :
    Computes (L := Label) (V := Variable) (B := ℕ) (emitNonZero x) n env vars (word (w ≠ 0)) :=
  Computes.fresh (i := fun r => .iNotEqual r x (.const 0)) (by simp [Inst.step, hx])

theorem computes_or {a b : Operand} {w w' : ℕ} (ha : a.eval env = w) (hb : b.eval env = w') :
    Computes (L := Label) (V := Variable) (B := ℕ) (emitOr a b) n env vars (w ||| w') :=
  Computes.fresh (i := fun r => .bitwiseOr r a b) (by simp [Inst.step, ha, hb])

theorem computes_not {x : Operand} {w : ℕ} (hx : x.eval env = w) :
    Computes (L := Label) (V := Variable) (B := ℕ) (emitNot x) n env vars (word (w = 0)) :=
  Computes.fresh (i := fun r => .logicalNot r x) (by simp [Inst.step, hx])

/-- A collected register is loaded, except the high half of EXEC in a wave of 32. -/
theorem computes_registerLoad {reg : Register} (hreg : reg ∈ state.registers) :
    Computes (emitRegisterLoad state reg) n env vars
      (if isInactiveWave32ExecHigh state reg then 0 else registersOf vars reg) := by
  unfold emitRegisterLoad pointerForRegister
  rw [if_pos hreg]
  split
  · exact Computes.const 0
  · exact computes_load _

/-- Nothing is loaded for the high word of a mask in a wave of 32. -/
theorem computes_waveMaskHighLoad {file : RegisterFile} (hfile : file = .exec ∨ file = .vcc)
    (hreg : ⟨file, 1⟩ ∈ state.registers) :
    Computes (waveMaskHighLoad state file) n env vars
      (if state.waveSize = 32 then 0 else registersOf vars ⟨file, 1⟩) := by
  have hmask : isMaskRegisterFile file = true := by rcases hfile with rfl | rfl <;> rfl
  unfold waveMaskHighLoad
  rw [hmask, Bool.and_true]
  by_cases hw : state.waveSize = 32
  · simp only [hw, beq_self_eq_true, if_true]
    exact Computes.const 0
  · rw [if_neg (by simpa using hw), if_neg hw]
    refine (computes_registerLoad hreg).of_eq (if_neg ?_)
    simp [isInactiveWave32ExecHigh, hw]

theorem or_ne_zero {a b : ℕ} : a ||| b ≠ 0 ↔ a ≠ 0 ∨ b ≠ 0 := by
  rw [ne_eq, Nat.or_eq_zero_iff, not_and_or]

/-- Whether a mask has a lane set, in the state's mask mode. -/
theorem computes_maskActive {file : RegisterFile} (hfile : file = .exec ∨ file = .vcc)
    (hreg : ∀ i < 2, ⟨file, i⟩ ∈ state.registers) :
    Computes (emitMaskSummaryActive state file) n env vars
      (word (state.maskNonZero (registersOf vars) file)) := by
  have hlow : ∀ n env, Computes (emitRegisterLoad state ⟨file, 0⟩) n env vars
      (registersOf vars ⟨file, 0⟩) := fun n env =>
    (computes_registerLoad (hreg 0 (by decide))).of_eq
      (if_neg (by simp [isInactiveWave32ExecHigh]))
  unfold emitMaskSummaryActive
  split
  · next hwide =>
    refine (hlow n env).bind fun low n₁ env₁ _ hlowBelow hlowVal _ => ?_
    refine (computes_waveMaskHighLoad hfile (hreg 1 (by decide))).bind
      fun high n₂ env₂ _ _ hhighVal hagree => ?_
    refine (computes_or ((hagree.eval hlowBelow).trans hlowVal) hhighVal).bind
      fun combined n₃ env₃ _ _ hval _ => ?_
    refine (computes_nonZero hval).of_eq ?_
    unfold word MaskMode.maskNonZero
    refine if_congr ?_ rfl rfl
    rw [or_ne_zero]
    by_cases hw : state.waveSize = 32
    · simp [hw]
    · simp [hw, hwide]
  · next hnarrow =>
    refine (hlow n env).bind fun low n₁ env₁ _ _ hlowVal _ => ?_
    refine (computes_nonZero hlowVal).of_eq ?_
    unfold word MaskMode.maskNonZero
    refine if_congr ?_ rfl rfl
    simp [hnarrow]

theorem computes_maskSummaryZero {file : RegisterFile} (hfile : file = .exec ∨ file = .vcc)
    (hreg : ∀ i < 2, ⟨file, i⟩ ∈ state.registers) (zero : Bool) :
    Computes (emitMaskSummaryZeroBool state file zero) n env vars
      (if zero then word (¬state.maskNonZero (registersOf vars) file)
        else word (state.maskNonZero (registersOf vars) file)) := by
  refine (computes_maskActive hfile hreg).bind fun active n' env' _ hbelow hval _ => ?_
  cases zero with
  | false =>
    rw [if_neg Bool.false_ne_true, if_neg Bool.false_ne_true]
    exact Straight.pure ⟨hbelow, hval, .refl _ _, rfl⟩
  | true =>
    rw [if_pos rfl, if_pos rfl]
    refine (computes_not hval).of_eq ?_
    unfold word
    exact if_congr word_eq_zero rfl rfl

theorem computes_sccBool (hreg : sccRegister ∈ state.registers) (nonZero : Bool) :
    Computes (emitSccBool state nonZero) n env vars
      (if nonZero then word (registersOf vars sccRegister ≠ 0)
        else word (registersOf vars sccRegister = 0)) := by
  refine (computes_registerLoad hreg).bind fun value n' env' _ _ hval _ => ?_
  rw [if_neg (by simp [isInactiveWave32ExecHigh, sccRegister])] at hval
  cases nonZero with
  | false => exact Computes.fresh (i := fun r => .iEqual r value (.const 0)) (by
      simp [Inst.step, hval])
  | true => exact Computes.fresh (i := fun r => .iNotEqual r value (.const 0)) (by
      simp [Inst.step, hval])

/-- **Conditions.** The emitted condition is the condition. -/
theorem computes_branchCondition (hreg : ∀ reg ∈ maskStateRegisters, reg ∈ state.registers)
    (c : BranchCondition) :
    Computes (emitBranchCondition state c) n env vars
      (word (state.holds (registersOf vars) c)) := by
  have hscc : sccRegister ∈ state.registers := hreg _ (by decide)
  have hexec : ∀ i < 2, (⟨.exec, i⟩ : Register) ∈ state.registers := by
    intro i hi
    obtain rfl | rfl : i = 0 ∨ i = 1 := by omega
    all_goals exact hreg _ (by decide)
  have hvcc : ∀ i < 2, (⟨.vcc, i⟩ : Register) ∈ state.registers := by
    intro i hi
    obtain rfl | rfl : i = 0 ∨ i = 1 := by omega
    all_goals exact hreg _ (by decide)
  cases c with
  | sccZero => exact computes_sccBool hscc false
  | sccNonZero => exact computes_sccBool hscc true
  | vccZero => exact computes_maskSummaryZero (.inr rfl) hvcc true
  | vccNonZero => exact computes_maskSummaryZero (.inr rfl) hvcc false
  | execZero => exact computes_maskSummaryZero (.inl rfl) hexec true
  | execNonZero => exact computes_maskSummaryZero (.inl rfl) hexec false
  | always => exact computes_sccBool hscc true
  | unknown => exact computes_sccBool hscc true

/-! ### Tables -/

/-- One round of the selection loop. -/
theorem computes_selectEntry {value selected : Operand} {v acc : ℕ} (hvalue : value.eval env = v)
    (hbelow : selected.Below n) (hsel : selected.eval env = acc) (entry : ℕ × ℕ) :
    Computes (emitSelectEntry state value selected entry) n env vars
      (if v = entry.1 then dispatcherTargetValue state entry.2 else acc) := by
  refine (Computes.fresh (i := fun r => .iEqual r value (.const entry.1))
    (w := word (v = entry.1)) (by simp [Inst.step, hvalue])).bind
    (f := fun matched => do
      let next ← allocateId
      addFunction (.select next matched (.const (dispatcherTargetValue state entry.2)) selected)
      return .id next) ?_
  intro matched n₁ env₁ _ _ hmatched hagree
  refine Computes.fresh (i := fun r => .select r matched
    (.const (dispatcherTargetValue state entry.2)) selected) ?_
  simp [Inst.step, hmatched, (hagree.eval hbelow).trans hsel]

/-- The value the selection loop computes: the last matching entry wins. -/
def lastMatch (v : ℕ) (f : ℕ → ℕ) (table : List (ℕ × ℕ)) (acc : ℕ) : ℕ :=
  table.foldl (fun acc entry => if v = entry.1 then f entry.2 else acc) acc

/-- The selection loop. -/
theorem computes_selectFold {value : Operand} {v : ℕ} (table : List (ℕ × ℕ)) {selected : Operand}
    {acc : ℕ} (hvalue : value.eval env = v) (hvalueBelow : value.Below n)
    (hbelow : selected.Below n) (hsel : selected.eval env = acc) :
    Computes (table.foldlM (emitSelectEntry state value) selected) n env vars
      (lastMatch v (dispatcherTargetValue state) table acc) := by
  induction table generalizing n env selected acc with
  | nil => exact Straight.pure ⟨hbelow, hsel, .refl _ _, rfl⟩
  | cons entry table ih =>
    rw [List.foldlM_cons]
    refine (computes_selectEntry hvalue hbelow hsel entry).bind
      fun next n₁ env₁ hn hnext hval hagree => ?_
    exact ih ((hagree.eval hvalueBelow).trans hvalue) (hvalueBelow.mono hn) hnext hval

/-- With distinct entries the last match is the only one. -/
theorem lastMatch_eq_lookup {v : ℕ} {f : ℕ → ℕ} {table : List (ℕ × ℕ)} {acc : ℕ}
    (h : (table.map Prod.fst).Nodup) :
    lastMatch v f table acc = ((table.lookup v).map f).getD acc := by
  unfold lastMatch
  induction table generalizing acc with
  | nil => rfl
  | cons entry table ih =>
    rw [List.map_cons, List.nodup_cons] at h
    rw [List.foldl_cons, ih h.2]
    obtain ⟨w, t⟩ := entry
    by_cases hv : v = w
    · subst hv
      have hnone : table.lookup v = none := by
        rw [List.lookup_eq_none_iff]
        intro p hp
        simp only [bne_iff_ne, ne_eq]
        exact fun hpv => h.1 (List.mem_map.2 ⟨p, hp, hpv.symm⟩)
      simp [hnone]
    · rw [if_neg hv, List.lookup_cons, beq_eq_false_iff_ne.2 hv]

end Computes

/-! ### Leaving a block -/

section Leaves

variable {state : EmitterState} {program : Program} {term : Terminator}
  {prog : List (Inst Label Variable ℕ)} {n : ℕ} {env : Env} {vars : Variable → ℕ}

/-- The targets of a terminator that are blocks have labels, and no other does. -/
def LabelsTargets (state : EmitterState) (program : Program) (term : Terminator) : Prop :=
  ∀ t ∈ targets term,
    blockLabel state t = if t < program.blocks.length then some (.block t) else none

/-- The id the dispatcher stores for a target. -/
def encode (target : Option ℕ) : ℕ := target.getD uint32Max

theorem Program.inRange_some (program : Program) (t : ℕ) :
    program.inRange (some t) = if t < program.blocks.length then some t else none := by
  unfold Program.inRange
  simp only [Option.filter_some, decide_eq_true_eq]

theorem dispatcherTargetValue_eq (h : LabelsTargets state program term) {t : ℕ}
    (ht : t ∈ targets term) :
    dispatcherTargetValue state t = encode (program.inRange (some t)) := by
  unfold dispatcherTargetValue encode
  rw [h t ht, Program.inRange_some]
  split <;> rfl

variable {after : List (Inst Label Variable ℕ)}

/-- The end of every dispatcher terminator stores the selected id. -/
theorem leaves_dispatcherStore {selected : Operand} {w : ℕ}
    (hafter : findLabel .dispatchAfterSwitch prog = some after) (hw : selected.eval env = w) :
    Leaves prog (emitDispatcherStore selected) n env vars
      fun target vars' => target = after ∧ vars' = Function.update vars .dispatchPc w := by
  refine Leaves.bind (Straight.addFunction (s := (env, Function.update vars .dispatchPc w)) ?_
    (Q := fun _ _ env' vars' => vars' = Function.update vars .dispatchPc w) rfl) ?_
  · simp [Inst.step, hw]
  · rintro _ _ _ _ - rfl
    exact Leaves.branch hafter ⟨rfl, rfl⟩

/-- A computed id is stored. -/
theorem leaves_store_computed {m : Emission Operand} {w : ℕ}
    (hafter : findLabel .dispatchAfterSwitch prog = some after) (h : Computes m n env vars w) :
    Leaves prog (m >>= emitDispatcherStore) n env vars
      fun target vars' => target = after ∧ vars' = Function.update vars .dispatchPc w := by
  refine Leaves.bind h ?_
  rintro x n' env' _ - ⟨-, hx, -, rfl⟩
  exact leaves_dispatcherStore hafter hx

/-- The selection over a table stores the block of the matching entry. -/
theorem leaves_dispatcherSelect {reg : Register} {table : List (ℕ × ℕ)}
    (hafter : findLabel .dispatchAfterSwitch prog = some after)
    (hreg : reg ∈ state.registers) (hnodup : (table.map Prod.fst).Nodup)
    (hvalue : ∀ entry ∈ table, dispatcherTargetValue state entry.2
      = encode (program.inRange (some entry.2))) :
    Leaves prog (emitDispatcherSelect state (pointerForRegister state reg) table) n env vars
      fun target vars' => target = after ∧ vars' = Function.update vars .dispatchPc
        (encode (program.inRange (table.lookup (registersOf vars reg)))) := by
  unfold emitDispatcherSelect pointerForRegister
  rw [if_pos hreg]
  have hselect : Computes (do
      let value ← emitLoad (.register reg)
      emitSelectTable state value table) n env vars
      (encode (program.inRange (table.lookup (registersOf vars reg)))) := by
    refine (computes_load _).bind fun value n' env' _ hbelow hval _ => ?_
    have hbelow' : (Operand.const uint32Max).Below n' := trivial
    have hdefault : (Operand.const uint32Max).eval env' = uint32Max := rfl
    have hval' : value.eval env' = registersOf vars reg := hval
    refine (computes_selectFold table hval' hbelow hbelow' hdefault).of_eq ?_
    rw [lastMatch_eq_lookup hnodup]
    cases hlook : table.lookup (registersOf vars reg) with
    | none => rfl
    | some t =>
      have hmem : (registersOf vars reg, t) ∈ table := by
        obtain ⟨l₁, l₂, rfl, -⟩ := List.lookup_eq_some_iff.1 hlook
        simp
      simp only [Option.map_some, Option.getD_some]
      exact hvalue _ hmem
  simpa only [bind_assoc] using leaves_store_computed hafter hselect

/-- Leaving for good stores the id of no block. -/
theorem leaves_dispatcherExit (hafter : findLabel .dispatchAfterSwitch prog = some after) :
    Leaves prog emitDispatcherExit n env vars
      fun target vars' => target = after ∧
        vars' = Function.update vars .dispatchPc (encode none) :=
  leaves_dispatcherStore hafter rfl

/-- An indirect branch stores the block of the matching table entry. -/
theorem leaves_dispatcherStoreIndirectTarget
    (hafter : findLabel .dispatchAfterSwitch prog = some after)
    (hnodup : ((indirectTable term).map Prod.fst).Nodup)
    (hvalue : ∀ entry ∈ indirectTable term, dispatcherTargetValue state entry.2
      = encode (program.inRange (some entry.2)))
    (hreg : ∀ reg, indirectRegister term = some reg → reg ∈ state.registers) :
    Leaves prog (emitDispatcherStoreIndirectTarget state term) n env vars
      fun target vars' => target = after ∧ vars' = Function.update vars .dispatchPc
        (encode (program.inRange ((indirectRegister term).bind fun reg =>
          (indirectTable term).lookup (registersOf vars reg)))) := by
  unfold emitDispatcherStoreIndirectTarget
  by_cases hcode : term.indirectSelectorCode = uint32Max
  · rw [if_neg (not_not.2 hcode)]
    have htable : indirectTable term = term.indirectTargetPcs.zip term.indirectTargets := by
      simp [indirectTable, hcode]
    by_cases hsgpr : term.indirectPcSgpr = uint32Max
    · have hnone : indirectRegister term = none := by simp [indirectRegister, hcode, hsgpr]
      rw [if_pos hsgpr, hnone]
      exact leaves_dispatcherExit hafter
    · have hsome : indirectRegister term = some ⟨.scalar, term.indirectPcSgpr⟩ := by
        simp [indirectRegister, hcode, hsgpr]
      rw [if_neg hsgpr, hsome, ← htable]
      exact leaves_dispatcherSelect hafter (hreg _ hsome) hnodup hvalue
  · rw [if_pos hcode]
    have hindirect : indirectRegister term = registerForScalarCode term.indirectSelectorCode := by
      simp [indirectRegister, hcode]
    unfold emitDispatcherStoreSelectorTarget
    split
    · next hexit =>
      -- a table that is empty or whose columns differ in length selects nothing
      have hempty : indirectTable term = [] := by
        rcases hexit with h | h | h
        · exact absurd h hcode
        · simp [indirectTable, hcode, h]
        · simp [indirectTable, hcode, h]
      have hnone : ((indirectRegister term).bind fun reg =>
          (indirectTable term).lookup (registersOf vars reg)) = none := by
        rw [hempty]
        cases indirectRegister term <;> rfl
      rw [hnone]
      exact leaves_dispatcherExit hafter
    · next hentries =>
      simp only [not_or, not_not] at hentries
      have htable : indirectTable term
          = term.indirectSelectorValues.zip term.indirectSelectorTargets := by
        simp [indirectTable, hcode, hentries.2.2]
      rw [← htable, ← hindirect]
      cases hr : indirectRegister term with
      | none => exact leaves_dispatcherExit hafter
      | some reg => exact leaves_dispatcherSelect hafter (hreg _ hr) hnodup hvalue

/-- **The dispatcher's terminators.** They store the id of the next block, or the
id of no block. -/
theorem leaves_dispatcherTerminator
    (hafter : findLabel .dispatchAfterSwitch prog = some after)
    (hmask : ∀ reg ∈ maskStateRegisters, reg ∈ state.registers)
    (hlabels : LabelsTargets state program term)
    (hnodup : term.kind = .indirectBranch → ((indirectTable term).map Prod.fst).Nodup)
    (hreg : term.kind = .indirectBranch →
      ∀ reg, indirectRegister term = some reg → reg ∈ state.registers) :
    Leaves prog (emitDispatcherTerminator state term) n env vars
      fun target vars' => target = after ∧ vars' = Function.update vars .dispatchPc
        (encode (nextBlock state.toMaskMode program (registersOf vars) term)) := by
  have hvalue := fun t ht => dispatcherTargetValue_eq hlabels (t := t) ht
  unfold emitDispatcherTerminator nextBlock selectedTarget
  simp only [targets] at hvalue
  cases hkind : term.kind with
  | branch =>
    simp only [hkind, List.mem_singleton, forall_eq] at hvalue
    cases hlabel : blockLabel state term.trueBlock with
    | none =>
      rw [← hvalue]
      simp only [dispatcherTargetValue, hlabel]
      exact leaves_dispatcherExit hafter
    | some label =>
      exact leaves_dispatcherStore hafter hvalue
  | conditionalBranch =>
    simp only [hkind, List.mem_cons, List.not_mem_nil, or_false, forall_eq_or_imp, forall_eq]
      at hvalue
    have hselect : Computes (do
        let condition ← emitBranchCondition state term.condition
        let selected ← allocateId
        addFunction (.select selected condition
          (.const (dispatcherTargetValue state term.trueBlock))
          (.const (dispatcherTargetValue state term.falseBlock)))
        return .id selected) n env vars
        (encode (program.inRange (some (if state.holds (registersOf vars) term.condition
          then term.trueBlock else term.falseBlock)))) := by
      refine (computes_branchCondition hmask term.condition).bind
        fun condition n' env' _ _ hcond _ => ?_
      refine Computes.fresh (i := fun r => .select r condition
        (.const (dispatcherTargetValue state term.trueBlock))
        (.const (dispatcherTargetValue state term.falseBlock))) ?_
      simp only [Inst.step, hcond, word_ne_zero, Operand.eval_const, hvalue.1, hvalue.2]
      split <;> rfl
    simpa only [bind_assoc, pure_bind] using leaves_store_computed hafter hselect
  | indirectBranch =>
    simp only [hkind, List.mem_map, forall_exists_index, and_imp, forall_apply_eq_imp_iff₂]
      at hvalue
    exact leaves_dispatcherStoreIndirectTarget hafter (hnodup hkind) hvalue (hreg hkind)
  | return_ => exact leaves_dispatcherExit hafter
  | unsupported => exact leaves_dispatcherExit hafter

/-! ### Structured terminators -/

/-- The merge declarations do nothing. -/
theorem straight_structuredPrefix :
    Straight (emitStructuredPrefix state term) n env vars
      fun _ n' env' vars' => n' = n ∧ env' = env ∧ vars' = vars := by
  unfold emitStructuredPrefix
  split
  · split
    · exact Straight.addFunction rfl ⟨rfl, rfl, rfl⟩
    · exact Straight.pure ⟨rfl, rfl, rfl⟩
  · split
    · split
      · exact Straight.addFunction rfl ⟨rfl, rfl, rfl⟩
      · exact Straight.pure ⟨rfl, rfl, rfl⟩
    · exact Straight.pure ⟨rfl, rfl, rfl⟩

/-- Where a structured terminator leaves for: the code at the next block's label, or
a return. -/
def GoesTo (prog : List (Inst Label Variable ℕ)) (next : Option ℕ)
    (target : List (Inst Label Variable ℕ)) : Prop :=
  match next with
  | some b => findLabel (.block b) prog = some target
  | none => ∃ rest, target = .ret :: rest

/-- **The structured terminators.** They go to the next block, or return. -/
theorem leaves_terminator
    (hmask : ∀ reg ∈ maskStateRegisters, reg ∈ state.registers)
    (hlabels : LabelsTargets state program term)
    (hdefined : ∀ t ∈ targets term, t < program.blocks.length →
      ∃ target, findLabel (.block t) prog = some target)
    (hdirect : term.kind ≠ .indirectBranch)
    (htwoSided : term.kind = .conditionalBranch →
      term.trueBlock < program.blocks.length ∧ term.falseBlock < program.blocks.length) :
    Leaves prog (emitTerminator state term) n env vars fun target vars' =>
      GoesTo prog (nextBlock state.toMaskMode program (registersOf vars) term) target ∧
        vars' = vars := by
  unfold emitTerminator nextBlock selectedTarget
  unfold LabelsTargets targets at hlabels
  unfold targets at hdefined
  have hreturn : ∀ n env, Leaves prog (do emitStructuredPrefix state term; emitReturn) n env vars
      fun target vars' => GoesTo prog none target ∧ vars' = vars := by
    intro n env
    refine Leaves.bind straight_structuredPrefix ?_
    rintro _ _ _ _ - ⟨rfl, rfl, rfl⟩
    exact Leaves.ret fun rest => ⟨⟨rest, rfl⟩, rfl⟩
  cases hkind : term.kind with
  | branch =>
    simp only [hkind, List.mem_singleton, forall_eq] at hlabels hdefined
    rw [Program.inRange_some]
    simp only [hlabels]
    by_cases hlt : term.trueBlock < program.blocks.length
    · obtain ⟨code, hcode⟩ := hdefined hlt
      rw [if_pos hlt, if_pos hlt]
      refine Leaves.bind straight_structuredPrefix ?_
      rintro _ _ _ _ - ⟨rfl, rfl, rfl⟩
      exact Leaves.branch hcode ⟨hcode, rfl⟩
    · rw [if_neg hlt, if_neg hlt]
      exact hreturn n env
  | conditionalBranch =>
    obtain ⟨htrue, hfalse⟩ := htwoSided hkind
    simp only [hkind, List.mem_cons, List.not_mem_nil, or_false, forall_eq_or_imp, forall_eq]
      at hlabels hdefined
    simp only [hlabels.1, hlabels.2, if_pos htrue, if_pos hfalse, Program.inRange_some]
    refine Leaves.bind (computes_branchCondition hmask term.condition) ?_
    rintro condition n' env' _ - ⟨-, hcond, -, rfl⟩
    refine Leaves.bind straight_structuredPrefix ?_
    rintro _ _ env'' vars'' - ⟨rfl, rfl, rfl⟩
    by_cases hholds : state.holds (registersOf vars'') term.condition
    · obtain ⟨code, hcode⟩ := hdefined.1 htrue
      refine Leaves.branchConditional (?_ : _ = some code) ⟨?_, rfl⟩
      · rwa [if_pos (by rw [hcond]; exact word_ne_zero.2 hholds)]
      · rwa [if_pos hholds, if_pos htrue]
    · obtain ⟨code, hcode⟩ := hdefined.2 hfalse
      refine Leaves.branchConditional (?_ : _ = some code) ⟨?_, rfl⟩
      · rwa [if_neg (by rw [hcond]; exact fun h => hholds (word_ne_zero.1 h))]
      · rwa [if_neg hholds, if_pos hfalse]
  | indirectBranch => exact absurd hkind hdirect
  | return_ => exact hreturn n env
  | unsupported => exact hreturn n env

end Leaves

end Prosperismo.Emitter
