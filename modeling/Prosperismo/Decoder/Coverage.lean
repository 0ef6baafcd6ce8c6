import Mathlib.Data.List.Chain
import Mathlib.Tactic.Ring
import Prosperismo.Decoder.Reads

/-!
# The decoded program and the code that it can reach

`DecodeProgram` decodes one instruction behind the other and ends at the first `s_endpgm` that
no branch up to it jumps right behind (`FirstStop`). What it leaves out is what only a branch
over that `s_endpgm` reaches, so that the decoded program has all of the reachable code exactly
when every branch that can be executed stays on the instructions up to there
(`decodeProgram_covers`).

* `Start` — where the instructions start, one behind the other;
* `Reaches` — the pcs that the program can get to;
* `Decoded` — the invariant of the loop: it has the instructions that start below an index.
-/

namespace Prosperismo.Decoder

variable {code : Code}

/-! ### Where instructions start -/

/-- The words with which the instructions start, one behind the other from the first word on. -/
inductive Start (code : Code) : ℕ → Prop
  | zero : Start code 0
  | next {index : ℕ} {inst : Instruction} (hstart : Start code index)
      (hinst : decodeInstruction code index = .ok inst) : Start code (index + inst.wordCount)

/-- There is an instruction at a pc. -/
def InstructionAt (code : Code) (pc : ℕ) (inst : Instruction) : Prop :=
  pc % 4 = 0 ∧ decodeInstruction code (pc / 4) = .ok inst

/-- The opcodes behind which the next instruction is executed, unless they branch. -/
def fallsThrough (opcode : Opcode) : Bool := opcode ∉ [.sBranch, .sSetpcB64, .sEndpgm]

/-- The pcs that are reached from the first word by fallthrough and by direct branches. -/
inductive Reaches (code : Code) : ℕ → Prop
  | entry : Reaches code 0
  | fall {pc : ℕ} {inst : Instruction} (hpc : Reaches code pc) (hinst : InstructionAt code pc inst)
      (hfall : fallsThrough inst.opcode) : Reaches code (pc + 4 * inst.wordCount)
  | branch {pc : ℕ} {inst : Instruction} (hpc : Reaches code pc)
      (hinst : InstructionAt code pc inst) (hbranch : isControlFlowBranch inst.opcode) :
      Reaches code inst.branchTarget

/-- An `s_endpgm` that is the last instruction of the words, or that none of the branches up to it
jumps right behind. -/
def Stops (code : Code) (index : ℕ) : Prop :=
  Start code index ∧ ∃ inst, decodeInstruction code index = .ok inst ∧ inst.opcode = .sEndpgm ∧
    (code.length ≤ index + inst.wordCount ∨
      ∀ start ≤ index, Start code start → ∀ branch, decodeInstruction code start = .ok branch →
        isControlFlowBranch branch.opcode → branch.branchTarget ≠ (index + inst.wordCount) * 4)

/-- The first of them, with which the decoded program ends. -/
def FirstStop (code : Code) (last : ℕ) : Prop :=
  Stops code last ∧ ∀ index < last, ¬ Stops code index

/-- **No branch leaves the decoded part**: up to the first stop, a branch that can be reached jumps
to an instruction that starts there, unless there is no instruction at its target. -/
def BranchesStay (code : Code) : Prop :=
  ∀ last, FirstStop code last → ∀ index ≤ last, Start code index → Reaches code (index * 4) →
    ∀ branch, decodeInstruction code index = .ok branch → isControlFlowBranch branch.opcode →
      ∀ inst, InstructionAt code branch.branchTarget inst →
        ∃ start ≤ last, Start code start ∧ branch.branchTarget = start * 4

/-- What a decoded program is to be: instructions one behind the other from pc `0` on, inside the
words, and all those that can be reached. -/
structure Covers (code : Code) (instructions : List Instruction) : Prop where
  entry : instructions.head?.map (·.pc) = some 0
  contiguous : instructions.IsChain fun a b => b.pc = a.pc + 4 * a.wordCount
  ascending : instructions.Pairwise fun a b => a.pc < b.pc
  inside : ∀ inst ∈ instructions, inst.pc + 4 * inst.wordCount ≤ 4 * code.length
  reached : ∀ pc inst, Reaches code pc → InstructionAt code pc inst → inst ∈ instructions

/-- An instruction starts inside the words, and fits. -/
theorem decodeInstruction_fits {index : ℕ} {inst : Instruction}
    (h : decodeInstruction code index = .ok inst) : Fits (index * 4) code index inst := by
  by_cases hindex : index < code.length
  · exact (decodeInstruction_within hindex).of_ok h
  · -- there is no word to decode
    have hnone : decodeInstruction code index = .error .outside := by
      unfold decodeInstruction Code.word
      rw [List.getElem?_eq_none (not_lt.1 hindex)]
      rfl
    rw [hnone] at h
    cases h

theorem instructionAt_mul_four {index : ℕ} {inst : Instruction} :
    InstructionAt code (index * 4) inst ↔ decodeInstruction code index = .ok inst := by
  unfold InstructionAt
  rw [Nat.mul_mod_left, Nat.mul_div_cancel _ (by decide : 0 < 4)]
  exact ⟨fun h => h.2, fun h => ⟨rfl, h⟩⟩

/-- **Instructions do not overlap**: of two that start, the first ends before the second starts. -/
theorem Start.next_le {i j : ℕ} (hj : Start code j) (hi : Start code i) (hlt : i < j) :
    ∃ inst, decodeInstruction code i = .ok inst ∧ i + inst.wordCount ≤ j := by
  induction j using Nat.strong_induction_on generalizing i with
  | _ j ih =>
    cases hj with
    | zero => exact absurd hlt (Nat.not_lt_zero _)
    | @next before inst hbefore hinst =>
      have hpos := (decodeInstruction_fits hinst).2.1
      rcases lt_trichotomy i before with h | rfl | h
      · obtain ⟨first, hfirst, hle⟩ := ih before (by omega) hbefore hi h
        exact ⟨first, hfirst, hle.trans (Nat.le_add_right _ _)⟩
      · exact ⟨inst, hinst, le_rfl⟩
      · -- the instruction before `j` would end before the middle of itself
        obtain ⟨first, hfirst, hle⟩ := ih i hlt hi hbefore h
        rw [hinst] at hfirst
        cases hfirst
        exact absurd hlt (not_lt.2 hle)

/-- The instructions that start below the end of an instruction are those up to it. -/
theorem Start.lt_next_iff {index start : ℕ} {inst : Instruction} (hindex : Start code index)
    (hinst : decodeInstruction code index = .ok inst) (hstart : Start code start) :
    start < index + inst.wordCount ↔ start ≤ index := by
  have hpos := (decodeInstruction_fits hinst).2.1
  constructor
  · intro h
    by_contra hlt
    obtain ⟨first, hfirst, hle⟩ := hstart.next_le hindex (not_le.1 hlt)
    rw [hinst] at hfirst
    cases hfirst
    exact absurd h (not_lt.2 hle)
  · exact fun h => by omega

theorem FirstStop.unique {last last' : ℕ} (h : FirstStop code last) (h' : FirstStop code last') :
    last = last' := by
  refine le_antisymm (not_lt.1 fun hlt => ?_) (not_lt.1 fun hlt => ?_)
  · exact h.2 last' hlt h'.1
  · exact h'.2 last hlt h.1

/-! ### The loop -/

/-- The instructions below the index are decoded. -/
structure Decoded (code : Code) (index : ℕ) (instructions : List Instruction) : Prop where
  start : Start code index
  mem : ∀ inst, inst ∈ instructions ↔
    ∃ start < index, Start code start ∧ decodeInstruction code start = .ok inst
  entry : 0 < index → instructions.head?.map (·.pc) = some 0
  last : ∀ inst ∈ instructions.getLast?, inst.pc + 4 * inst.wordCount = index * 4
  contiguous : instructions.IsChain fun a b => b.pc = a.pc + 4 * a.wordCount

theorem Decoded.zero : Decoded code 0 [] where
  start := .zero
  mem _ := ⟨fun h => absurd h List.not_mem_nil, fun ⟨_, h, _⟩ => absurd h (Nat.not_lt_zero _)⟩
  entry h := absurd h (lt_irrefl _)
  last _ h := by cases h
  contiguous := .nil

/-- An iteration decodes one instruction more. -/
theorem Decoded.next {index : ℕ} {instructions : List Instruction} {inst : Instruction}
    (h : Decoded code index instructions) (hinst : decodeInstruction code index = .ok inst) :
    Decoded code (index + inst.wordCount) (instructions ++ [inst]) where
  start := .next h.start hinst
  mem found := by
    rw [List.mem_append, List.mem_singleton, h.mem]
    constructor
    · rintro (⟨start, hlt, hstart, hfound⟩ | rfl)
      · exact ⟨start, hlt.trans_le (Nat.le_add_right _ _), hstart, hfound⟩
      · exact ⟨index, (h.start.lt_next_iff hinst h.start).2 le_rfl, h.start, hinst⟩
    · rintro ⟨start, hlt, hstart, hfound⟩
      rcases ((h.start.lt_next_iff hinst hstart).1 hlt).lt_or_eq with hlt | rfl
      · exact .inl ⟨start, hlt, hstart, hfound⟩
      · exact .inr (Except.ok.inj (hfound.symm.trans hinst))
  entry _ := by
    rcases instructions.eq_nil_or_concat with rfl | ⟨before, last, rfl⟩
    · -- nothing was decoded, so that the instruction is the first one
      have hzero : index = 0 := by
        by_contra hne
        cases h.entry (Nat.pos_of_ne_zero hne)
      subst hzero
      exact congrArg some (decodeInstruction_fits hinst).1
    · have hpos : 0 < index := by
        obtain ⟨start, hlt, -⟩ := (h.mem last).1 (by simp)
        exact Nat.zero_lt_of_lt hlt
      rw [List.head?_append_of_ne_nil _ (by simp)]
      exact h.entry hpos
  last found hfound := by
    rw [List.getLast?_append, List.getLast?_singleton, Option.some_or] at hfound
    cases hfound
    rw [(decodeInstruction_fits hinst).1]
    ring
  contiguous := by
    refine List.isChain_append.2 ⟨h.contiguous, .singleton _, fun last hlast next hnext => ?_⟩
    cases hnext
    rw [(decodeInstruction_fits hinst).1]
    exact (h.last last hlast).symm

/-- Among the decoded instructions the pcs ascend, since every instruction has words. -/
theorem Decoded.ascending {index : ℕ} {instructions : List Instruction}
    (h : Decoded code index instructions) : instructions.Pairwise fun a b => a.pc < b.pc := by
  have hchain : instructions.IsChain fun a b => a.pc < b.pc := by
    refine h.contiguous.imp_of_mem_imp fun a b ha hb hab => ?_
    obtain ⟨start, -, -, ha⟩ := (h.mem a).1 ha
    have hpos := (decodeInstruction_fits ha).2.1
    omega
  have : IsTrans Instruction fun a b => a.pc < b.pc := ⟨fun _ _ _ => lt_trans⟩
  exact hchain.pairwise

/-- The targets of the branches among the decoded instructions. -/
def Targets (instructions : List Instruction) (targets : List ℕ) : Prop :=
  ∀ target, target ∈ targets ↔
    ∃ inst ∈ instructions, isControlFlowBranch inst.opcode ∧ inst.branchTarget = target

theorem Targets.next {instructions : List Instruction} {targets : List ℕ}
    (h : Targets instructions targets) (inst : Instruction) :
    Targets (instructions ++ [inst]) (branchTargets inst targets) := by
  intro target
  unfold branchTargets
  simp only [List.mem_append, List.mem_singleton, or_and_right, exists_or, exists_eq_left]
  split_ifs with hbranch
  · rw [List.mem_cons, h target, or_comm, eq_comm]
    exact or_congr_right ⟨fun h => ⟨hbranch, h⟩, fun h => h.2⟩
  · rw [h target]
    exact ⟨.inl, fun h => h.resolve_right fun h => hbranch h.1⟩

/-- The test of the loop finds the stops. -/
theorem isEnd_iff {index : ℕ} {instructions : List Instruction} {inst : Instruction}
    {targets : List ℕ} (h : Decoded code index instructions)
    (hinst : decodeInstruction code index = .ok inst)
    (htargets : Targets (instructions ++ [inst]) targets) :
    isEnd code targets inst (index + inst.wordCount) ↔ Stops code index := by
  have hnext := h.next hinst
  have hmem : (index + inst.wordCount) * 4 ∉ targets ↔
      ∀ start ≤ index, Start code start → ∀ branch, decodeInstruction code start = .ok branch →
        isControlFlowBranch branch.opcode →
          branch.branchTarget ≠ (index + inst.wordCount) * 4 := by
    rw [htargets]
    push Not
    constructor
    · intro hno start hle hstart branch hbranch
      refine hno branch ((hnext.mem branch).2 ⟨start, ?_, hstart, hbranch⟩)
      exact (h.start.lt_next_iff hinst hstart).2 hle
    · intro hno branch hbranch
      obtain ⟨start, hlt, hstart, hdecode⟩ := (hnext.mem branch).1 hbranch
      exact hno start ((h.start.lt_next_iff hinst hstart).1 hlt) hstart branch hdecode
  simp only [isEnd, Bool.and_eq_true, Bool.or_eq_true, decide_eq_true_eq, hmem]
  constructor
  · rintro ⟨hopcode, hend⟩
    exact ⟨h.start, inst, hinst, hopcode, hend⟩
  · rintro ⟨-, found, hfound, hopcode, hend⟩
    rw [hinst] at hfound
    cases hfound
    exact ⟨hopcode, hend⟩

/-- **The loop of `DecodeProgram`**: with a step for every word it ends, it reads no word behind
the others, and what it returns are the instructions up to the first stop. -/
theorem decodeLoop_spec {fuel index : ℕ} {targets : List ℕ} {instructions : List Instruction}
    (h : Decoded code index instructions) (htargets : Targets instructions targets)
    (hstops : ∀ stop < index, Start code stop → ¬ Stops code stop)
    (hfuel : code.length < fuel + index) :
    ∃ outcome, decodeLoop code fuel targets instructions index = some outcome ∧
      Ensures (· ≠ Failure.outside) (fun result => ∃ last inst, FirstStop code last ∧
        decodeInstruction code last = .ok inst ∧ Decoded code (last + inst.wordCount) result)
        outcome := by
  induction fuel generalizing index targets instructions with
  | zero =>
    -- every instruction fits, and so the words are all there is
    have hle : index ≤ code.length := by
      cases h.start with
      | zero => exact Nat.zero_le _
      | next _ hinst => exact (decodeInstruction_fits hinst).2.2
    omega
  | succ fuel ih =>
    unfold decodeLoop
    split_ifs with hend
    · exact ⟨_, rfl, .error nofun⟩
    · cases hinst : decodeInstruction code index with
      | error failure => exact ⟨_, rfl, (decodeInstruction_within (not_le.1 hend)).of_error hinst⟩
      | ok inst =>
        have hnext := h.next hinst
        have hpos := (decodeInstruction_fits hinst).2.1
        have hbranches := htargets.next inst
        have hiff := isEnd_iff h hinst hbranches
        dsimp only
        split_ifs with hstop
        · have hfirst : FirstStop code index :=
            ⟨hiff.1 hstop, fun stop hlt hstops' => hstops stop hlt hstops'.1 hstops'⟩
          exact ⟨_, rfl, .ok ⟨index, inst, hfirst, hinst, hnext⟩⟩
        · refine ih hnext hbranches (fun stop hlt hstart => ?_) (by omega)
          rcases ((h.start.lt_next_iff hinst hstart).1 hlt).lt_or_eq with hlt | rfl
          · exact hstops stop hlt hstart
          · exact fun hstops' => hstop (hiff.2 hstops')

/-! ### The decoded program -/

/-- `DecodeProgram` ends, and reads no word behind the others. -/
theorem decodeProgram_spec (code : Code) :
    ∃ outcome, decodeProgram code = some outcome ∧
      Ensures (· ≠ Failure.outside) (fun result => ∃ last inst, FirstStop code last ∧
        decodeInstruction code last = .ok inst ∧ Decoded code (last + inst.wordCount) result)
        outcome := by
  unfold decodeProgram
  split_ifs
  · exact ⟨_, rfl, .error nofun⟩
  · refine decodeLoop_spec .zero (fun target => ?_) (fun _ h => absurd h (Nat.not_lt_zero _)) ?_
    · simp
    · omega

/-- Where the branches stay, a pc that is reached and has an instruction is a start up to the first
stop: by induction on how it is reached. -/
theorem Reaches.start_of_branchesStay {last pc : ℕ} (hstay : BranchesStay code)
    (hlast : FirstStop code last) (h : Reaches code pc) :
    ∀ inst, InstructionAt code pc inst → ∃ start ≤ last, Start code start ∧ pc = start * 4 := by
  induction h with
  | entry => exact fun _ _ => ⟨0, Nat.zero_le _, .zero, rfl⟩
  | @fall pc inst _ hinst hfall ih =>
    intro _ _
    obtain ⟨start, hle, hstart, rfl⟩ := ih inst hinst
    have hdecode := instructionAt_mul_four.1 hinst
    refine ⟨start + inst.wordCount, ?_, .next hstart hdecode, by ring⟩
    rcases hle.lt_or_eq with hlt | rfl
    · obtain ⟨found, hfound, hle⟩ := hlast.1.1.next_le hstart hlt
      rw [hdecode] at hfound
      cases hfound
      exact hle
    · -- nothing follows the `s_endpgm` at the stop
      obtain ⟨-, found, hfound, hopcode, -⟩ := hlast.1
      rw [hdecode] at hfound
      cases hfound
      rw [hopcode] at hfall
      cases hfall
  | @branch pc inst hpc hinst hbranch ih =>
    intro target htarget
    obtain ⟨start, hle, hstart, rfl⟩ := ih inst hinst
    exact hstay last hlast start hle hstart hpc inst (instructionAt_mul_four.1 hinst) hbranch target
      htarget

/-- **`DecodeProgram` covers the code exactly when no branch leaves the decoded part.** It ends for
all words and reads none behind them, and a program that it returns has all the code that can be
reached exactly when every branch that can be executed stays on the instructions up to the first
`s_endpgm` that no branch before it jumps right behind. -/
theorem decodeProgram_covers (code : Code) :
    (∃ outcome, decodeProgram code = some outcome ∧ outcome ≠ .error .outside) ∧
      ∀ instructions, decodeProgram code = some (.ok instructions) →
        (Covers code instructions ↔ BranchesStay code) := by
  obtain ⟨outcome, houtcome, hensures⟩ := decodeProgram_spec code
  refine ⟨⟨outcome, houtcome, fun h => hensures.of_error h rfl⟩, fun instructions hok => ?_⟩
  rw [houtcome] at hok
  obtain ⟨last, inst, hlast, hinst, hdecoded⟩ := hensures.of_ok (Option.some.inj hok)
  constructor
  · intro hcovers last' hlast' index hle hstart hreached branch hbranch hopcode target htarget
    obtain rfl := hlast.unique hlast'
    have hmem := hcovers.reached _ target
      (.branch hreached (instructionAt_mul_four.2 hbranch) hopcode) htarget
    obtain ⟨start, hlt, hstart', hdecode⟩ := (hdecoded.mem target).1 hmem
    refine ⟨start, (hlast.1.1.lt_next_iff hinst hstart').1 hlt, hstart', ?_⟩
    -- the decoded instruction is the one at the target
    have hpc := (decodeInstruction_fits hdecode).1
    rw [(decodeInstruction_fits htarget.2).1, Nat.div_mul_cancel (Nat.dvd_of_mod_eq_zero htarget.1)]
      at hpc
    exact hpc
  · intro hstay
    refine ⟨hdecoded.entry ?_, hdecoded.contiguous, hdecoded.ascending, fun found hfound => ?_,
      fun pc found hpc hfound => ?_⟩
    · exact Nat.add_pos_right _ (decodeInstruction_fits hinst).2.1
    · obtain ⟨start, -, -, hdecode⟩ := (hdecoded.mem found).1 hfound
      obtain ⟨hpc, -, hle⟩ := decodeInstruction_fits hdecode
      omega
    · obtain ⟨start, hle, hstart, rfl⟩ := hpc.start_of_branchesStay hstay hlast found hfound
      refine (hdecoded.mem found).2 ⟨start, ?_, hstart, instructionAt_mul_four.1 hfound⟩
      exact (hlast.1.1.lt_next_iff hinst hstart).2 hle

/-- A branch over the second instruction and an `s_endpgm` that another one is behind: both sides
are decoded. -/
theorem decodeProgram_covers_diamond :
    ∃ instructions,
      decodeProgram [0xbf840002, 0xbe800381, 0xbf810000, 0xbe800381, 0xbf810000] =
        some (.ok instructions) ∧
      (Covers [0xbf840002, 0xbe800381, 0xbf810000, 0xbe800381, 0xbf810000] instructions ↔
        BranchesStay [0xbf840002, 0xbe800381, 0xbf810000, 0xbe800381, 0xbf810000]) :=
  ⟨_, rfl, (decodeProgram_covers _).2 _ rfl⟩

/-- The words `s_cbranch_scc0 +2; s_endpgm; s_nop; s_endpgm`: the branch jumps to the second
`s_endpgm`, but decoding ends at the first, since the `s_nop` behind it is no target. -/
theorem decodeProgram_cuts_off :
    ∃ code instructions, decodeProgram code = some (.ok instructions) ∧
      ¬ Covers code instructions := by
  obtain ⟨instructions, hdecode, hbelow⟩ : ∃ instructions,
      decodeProgram [0xbf840002, 0xbf810000, 0xbf800000, 0xbf810000] = some (.ok instructions) ∧
        ∀ inst ∈ instructions, inst.pc ≤ 4 := ⟨_, rfl, by decide⟩
  refine ⟨_, instructions, hdecode, fun hcovers => ?_⟩
  obtain ⟨branch, hbranch, htarget, hopcode⟩ : ∃ branch,
      InstructionAt [0xbf840002, 0xbf810000, 0xbf800000, 0xbf810000] 0 branch ∧
        branch.branchTarget = 12 ∧ isControlFlowBranch branch.opcode := ⟨_, ⟨rfl, rfl⟩, rfl, rfl⟩
  obtain ⟨final, hfinal, hpc⟩ : ∃ final,
      InstructionAt [0xbf840002, 0xbf810000, 0xbf800000, 0xbf810000] 12 final ∧ final.pc = 12 :=
    ⟨_, ⟨rfl, rfl⟩, rfl⟩
  have hreached := Reaches.branch .entry hbranch hopcode
  rw [htarget] at hreached
  have := hbelow final (hcovers.reached 12 final hreached hfinal)
  omega

end Prosperismo.Decoder
