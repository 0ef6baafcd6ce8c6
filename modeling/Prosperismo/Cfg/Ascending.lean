import Prosperismo.Cfg.Build

/-!
# Programs in pc order

A decoded program is a list of instructions that do not overlap (`Program.Ascending`).
A pc is then the pc of at most one index, and `std::lower_bound` over the list answers
which instructions lie before it.
-/

namespace Prosperismo.Cfg

variable {program : Program}

/-- The instructions do not overlap, and lie in the 32-bit space. There may be gaps between
them. -/
structure Program.Ascending (program : Program) : Prop where
  next : program.instructions.IsChain fun a b => a.pc + 4 * a.wordCount ≤ b.pc
  words : ∀ inst ∈ program.instructions,
    1 ≤ inst.wordCount ∧ inst.pc + 4 * inst.wordCount < 2 ^ 32

/-- What `DecodeProgram` returns is in order. -/
theorem Program.Decoded.ascending (h : program.Decoded) : program.Ascending := by
  refine ⟨h.next.imp fun a b hab => hab.ge, fun inst hinst => ?_⟩
  obtain ⟨hone, hle⟩ := h.words inst hinst
  have hsize := h.size
  exact ⟨hone, by omega⟩

theorem lowerBound_le (pc : ℕ) : lowerBound program pc ≤ program.instructions.length :=
  List.findIdx_le_length

namespace Program.Ascending

variable (ha : program.Ascending)
include ha

/-- The end of an instruction does not wrap. -/
theorem instructionEndPc_eq {inst : Instruction} (h : inst ∈ program.instructions) :
    instructionEndPc inst = inst.pc + 4 * inst.wordCount := by
  have hlt := (ha.words inst h).2
  rw [instructionEndPc, u32, Nat.mul_comm inst.wordCount]
  exact Nat.mod_eq_of_lt hlt

/-- Every instruction ends before a later one starts. -/
theorem end_le {i j : ℕ} {a b : Instruction} (hij : i < j)
    (hi : program.instructions[i]? = some a) (hj : program.instructions[j]? = some b) :
    instructionEndPc a ≤ b.pc := by
  let before (a b : Instruction) : Prop := a.pc + 4 * a.wordCount ≤ b.pc
  have htrans : Trans before before before :=
    ⟨fun {a b c} hab hbc => by
      have hab : a.pc + 4 * a.wordCount ≤ b.pc := hab
      exact hab.trans ((Nat.le_add_right _ _).trans hbc)⟩
  obtain ⟨hltI, rfl⟩ := List.getElem?_eq_some_iff.1 hi
  obtain ⟨hltJ, rfl⟩ := List.getElem?_eq_some_iff.1 hj
  rw [ha.instructionEndPc_eq (List.getElem_mem hltI)]
  have hnext : program.instructions.IsChain before := ha.next
  exact List.pairwise_iff_getElem.1 hnext.pairwise i j hltI hltJ hij

theorem pc_lt_end {i : ℕ} {a : Instruction} (hi : program.instructions[i]? = some a) :
    a.pc < instructionEndPc a := by
  have hone := (ha.words a (List.mem_of_getElem? hi)).1
  rw [ha.instructionEndPc_eq (List.mem_of_getElem? hi)]
  omega

/-- The pcs ascend. -/
theorem pc_lt {i j : ℕ} {a b : Instruction} (hij : i < j)
    (hi : program.instructions[i]? = some a) (hj : program.instructions[j]? = some b) :
    a.pc < b.pc :=
  (ha.pc_lt_end hi).trans_le (ha.end_le hij hi hj)

/-- Two instructions at one pc are one. -/
theorem index_unique {i j : ℕ} {a b : Instruction} (hi : program.instructions[i]? = some a)
    (hj : program.instructions[j]? = some b) (heq : a.pc = b.pc) : i = j := by
  rcases Nat.lt_trichotomy i j with hlt | heq' | hgt
  · exact absurd heq (ha.pc_lt hlt hi hj).ne
  · exact heq'
  · exact absurd heq (ha.pc_lt hgt hj hi).ne'

/-- No instruction ends behind the program. -/
theorem end_le_programEndPc {i : ℕ} {a : Instruction} (hi : program.instructions[i]? = some a) :
    instructionEndPc a ≤ programEndPc program := by
  have hlt := (List.getElem?_eq_some_iff.1 hi).1
  have hlast : program.instructions.getLast? =
      program.instructions[program.instructions.length - 1]? :=
    List.getLast?_eq_getElem?
  rw [programEndPc, hlast, List.getElem?_eq_getElem (by omega)]
  dsimp only
  by_cases hi' : i = program.instructions.length - 1
  · subst hi'
    rw [List.getElem?_eq_getElem (by omega)] at hi
    cases hi
    exact le_rfl
  · have hlater := ha.end_le (by omega : i < program.instructions.length - 1) hi
      (List.getElem?_eq_getElem (by omega))
    exact hlater.trans (ha.pc_lt_end (List.getElem?_eq_getElem (by omega))).le

/-- No instruction starts before the first pc. -/
theorem firstPc_le {i : ℕ} {a : Instruction} (hi : program.instructions[i]? = some a) :
    firstPc program ≤ a.pc := by
  have hlt := (List.getElem?_eq_some_iff.1 hi).1
  have hfirst : program.instructions.head? = some program.instructions[0] := by
    rw [List.head?_eq_getElem?, List.getElem?_eq_getElem]
  rw [firstPc, hfirst, Option.map_some, Option.getD_some]
  cases i with
  | zero =>
    rw [List.getElem?_eq_getElem (by omega)] at hi
    cases hi
    exact le_rfl
  | succ i => exact (ha.pc_lt (Nat.succ_pos i) (List.getElem?_eq_getElem (by omega)) hi).le

/-- `std::lower_bound`: the instructions before the result are those before the pc. -/
theorem lt_lowerBound_iff {i pc : ℕ} {a : Instruction} (hi : program.instructions[i]? = some a) :
    i < lowerBound program pc ↔ a.pc < pc := by
  obtain ⟨hlt, rfl⟩ := List.getElem?_eq_some_iff.1 hi
  unfold lowerBound
  constructor
  · intro hbefore
    have := List.not_of_lt_findIdx hbefore
    simpa using this
  · intro hpc
    by_contra hle
    have hfound := not_lt.1 hle
    have hlen := hfound.trans_lt hlt
    have hge := List.findIdx_getElem (w := hlen)
    simp only [decide_eq_true_eq] at hge
    obtain heq | hafter := Nat.eq_or_lt_of_le hfound
    · simp only [heq] at hge
      omega
    · have := ha.pc_lt hafter (List.getElem?_eq_getElem hlen) hi
      omega

theorem lowerBound_pc {i : ℕ} {a : Instruction} (hi : program.instructions[i]? = some a) :
    lowerBound program a.pc = i := by
  apply le_antisymm
  · by_contra hlt
    exact absurd ((ha.lt_lowerBound_iff hi).1 (not_le.1 hlt)) (lt_irrefl _)
  · by_contra hlt
    have hlt := not_le.1 hlt
    have hfound := List.getElem?_eq_getElem
      (hlt.trans (List.getElem?_eq_some_iff.1 hi).1)
    exact absurd ((ha.lt_lowerBound_iff hfound).2 (ha.pc_lt hlt hfound hi)) (lt_irrefl _)

theorem lowerBound_end :
    lowerBound program (programEndPc program) = program.instructions.length := by
  refine le_antisymm (lowerBound_le _) ?_
  by_contra hlt
  have hi := List.getElem?_eq_getElem (not_le.1 hlt)
  have hbefore := (ha.pc_lt_end hi).trans_le (ha.end_le_programEndPc hi)
  exact absurd ((ha.lt_lowerBound_iff hi).2 hbefore) (lt_irrefl _)

end Program.Ascending

end Prosperismo.Cfg
