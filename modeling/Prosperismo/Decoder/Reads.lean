import Prosperismo.Decoder.Program

/-!
# What a decoder reads

Every decoder stays inside the words (`Within`): it fails before it reads behind their end,
and the instruction that it returns has at least one word and fits.
-/

namespace Prosperismo.Decoder

/-- The outcome is no read behind the end of the words, and a result satisfies `P`. -/
abbrev Within {α : Type} (P : α → Prop) (x : Except Failure α) : Prop :=
  Ensures (· ≠ Failure.outside) P x

/-- An instruction at the index has the pc, and it has words, and they are there. -/
def Fits (pc : ℕ) (code : Code) (index : ℕ) (inst : Instruction) : Prop :=
  inst.pc = pc ∧ 0 < inst.wordCount ∧ index + inst.wordCount ≤ code.length

variable {pc : ℕ} {code : Code} {index : ℕ}

/-! ### The helpers -/

theorem word_within (h : index < code.length) : Within (fun _ => True) (code.word index) := by
  unfold Code.word
  rw [List.getElem?_eq_getElem h]
  exact .ok trivial

theorem decodeVectorGpr_within (reg : ℕ) : Within (fun _ => True) (decodeVectorGpr reg) := by
  unfold decodeVectorGpr
  split_ifs
  · exact .error (by simp)
  · exact .ok trivial

theorem decodeScalarSource_within (operand pc : ℕ) :
    Within (fun _ => True) (decodeScalarSource operand pc) := by
  unfold decodeScalarSource
  split_ifs
  · exact .ok trivial
  · exact .ok trivial
  · exact .ok trivial
  · exact .ok trivial
  · generalize operand - 256 = reg
    exact decodeVectorGpr_within reg
  · split
    case h_13 => exact .error nofun
    all_goals exact .ok trivial

theorem decodeScalarDestination_within (operand pc : ℕ) :
    Within (fun _ => True) (decodeScalarDestination operand pc) := by
  unfold decodeScalarDestination
  split_ifs
  · exact .ok trivial
  · split
    case h_7 => exact .error nofun
    all_goals exact .ok trivial

/-- The raw words are words of the instruction. -/
theorem setRawWords_within {wordCount : ℕ} (hcount : 0 < wordCount)
    (h : index + wordCount ≤ code.length) {inst : Instruction} (hpc : inst.pc = pc) :
    Within (Fits pc code index) (setRawWords code index wordCount inst) := by
  unfold setRawWords
  refine (Ensures.mapM (P := fun _ => True) fun i hi => ?_).bind fun raw _ => .ok ⟨hpc, hcount, h⟩
  have hlt : i < wordCount := (List.mem_range.1 hi).trans_le (min_le_left _ _)
  exact word_within (by omega)

/-- A literal is read behind the words that there are so far. -/
theorem readLiteralOperands_within {inst : Instruction} (h : Fits pc code index inst) :
    Within (Fits pc code index) (readLiteralOperands code index inst) := by
  unfold readLiteralOperands
  split_ifs with hliteral hmissing
  · exact .ok h
  · exact .error (by simp)
  · refine (word_within (not_le.1 hmissing)).bind fun literal _ => ?_
    exact setRawWords_within (Nat.succ_pos _) (not_le.1 hmissing) h.1

theorem twoWords_within (encoding : Encoding) :
    Within (fun _ => index + 2 ≤ code.length) (twoWords pc code index encoding) := by
  unfold twoWords
  split_ifs with h
  · exact .error (by simp)
  · have hlt : index + 1 < code.length := not_le.1 h
    refine (word_within (Nat.lt_of_succ_lt hlt)).bind fun word0 _ => ?_
    refine (word_within hlt).bind fun word1 _ => ?_
    exact .ok hlt

/-! ### Scalar instructions -/

section Decode

variable (pc)

theorem decodeBinarySources_within (inst : Instruction) (hinst : Fits pc code index inst)
    (ssrc0 ssrc1 : ℕ) :
    Within (Fits pc code index) (decodeBinarySources pc code index inst ssrc0 ssrc1) := by
  refine (decodeScalarSource_within _ _).bind fun src0 _ => ?_
  exact (decodeScalarSource_within _ _).bind fun src1 _ => readLiteralOperands_within hinst

section OneWord

variable (h : index < code.length)
include h

theorem decodeSop1_within : Within (Fits pc code index) (decodeSop1 pc code index) := by
  refine (word_within h).bind fun word _ => ?_
  refine (setRawWords_within Nat.one_pos h rfl).bind fun inst hinst => ?_
  split_ifs
  · exact .ok hinst
  · exact (decodeScalarDestination_within _ _).bind fun dst _ => .ok hinst
  · exact (decodeScalarSource_within _ _).bind fun src0 _ => readLiteralOperands_within hinst
  · refine (decodeScalarSource_within _ _).bind fun src0 _ => ?_
    exact (decodeScalarDestination_within _ _).bind fun dst _ => readLiteralOperands_within hinst

theorem decodeSop2_within : Within (Fits pc code index) (decodeSop2 pc code index) := by
  refine (word_within h).bind fun word _ => ?_
  refine (setRawWords_within Nat.one_pos h rfl).bind fun inst hinst => ?_
  split_ifs
  · exact .ok hinst
  · refine (decodeScalarDestination_within _ _).bind fun dst _ => ?_
    exact decodeBinarySources_within pc _ (by exact hinst) _ _

theorem decodeSopk_within : Within (Fits pc code index) (decodeSopk pc code index) := by
  refine (word_within h).bind fun word _ => ?_
  refine (setRawWords_within Nat.one_pos h rfl).bind fun inst hinst => ?_
  split_ifs
  · exact .ok hinst
  · exact (decodeScalarDestination_within _ _).bind fun dst _ => .ok hinst
  · exact .ok hinst
  · exact (decodeScalarSource_within _ _).bind fun src0 _ => .ok hinst
  · refine (decodeScalarSource_within _ _).bind fun src0 _ => ?_
    exact (decodeScalarDestination_within _ _).bind fun dst _ => .ok hinst
  · exact (decodeScalarSource_within _ _).bind fun src0 _ => .ok hinst

theorem decodeSopc_within : Within (Fits pc code index) (decodeSopc pc code index) := by
  refine (word_within h).bind fun word _ => ?_
  refine (setRawWords_within Nat.one_pos h rfl).bind fun inst hinst => ?_
  split_ifs
  · exact .ok hinst
  · exact decodeBinarySources_within pc _ (by exact hinst) _ _

theorem decodeSopp_within : Within (Fits pc code index) (decodeSopp pc code index) := by
  refine (word_within h).bind fun word _ => ?_
  refine (setRawWords_within Nat.one_pos h rfl).bind fun inst hinst => ?_
  split_ifs
  · exact .ok hinst
  · exact .ok hinst

end OneWord

/-! ### Memory instructions, images and exports -/

/-- The entry of the table of the memory opcodes does not change the pc. -/
theorem applyMemoryInfo_pc (ops : List MemoryOpcodeInfo) (opcode : ℕ) {inst : Instruction}
    (hpc : inst.pc = pc) : (applyMemoryInfo ops opcode inst).pc = pc := by
  unfold applyMemoryInfo
  split
  · exact hpc
  · exact hpc

theorem decodeSmem_within : Within (Fits pc code index) (decodeSmem pc code index) := by
  refine (twoWords_within _).bind fun words hwords => ?_
  have hpc := applyMemoryInfo_pc pc
  exact (setRawWords_within Nat.two_pos hwords (hpc _ _ rfl)).bind fun inst hinst => .ok hinst

theorem decodeMubuf_within : Within (Fits pc code index) (decodeMubuf pc code index) := by
  refine (twoWords_within _).bind fun words hwords => ?_
  have hpc := applyMemoryInfo_pc pc
  exact (setRawWords_within Nat.two_pos hwords (hpc _ _ rfl)).bind fun inst hinst => .ok hinst

theorem decodeMtbuf_within : Within (Fits pc code index) (decodeMtbuf pc code index) := by
  refine (twoWords_within _).bind fun words hwords => ?_
  have hpc := applyMemoryInfo_pc pc
  exact (setRawWords_within Nat.two_pos hwords (hpc _ _ rfl)).bind fun inst hinst => .ok hinst

theorem decodeFlat_within : Within (Fits pc code index) (decodeFlat pc code index) := by
  refine (twoWords_within _).bind fun words hwords => ?_
  have hpc := applyMemoryInfo_pc pc
  refine (setRawWords_within Nat.two_pos hwords (hpc _ _ rfl)).bind fun inst hinst => ?_
  split_ifs
  all_goals exact .ok hinst

/-- The checks and the offsets of a DS instruction do not change its words. -/
theorem dsOffsets_fits {inst : Instruction} (h : Fits pc code index inst)
    (opcode offset0 offset1 : ℕ) :
    Fits pc code index (dsOffsets inst opcode offset0 offset1) := by
  unfold dsOffsets
  split_ifs
  all_goals exact h

theorem decodeDs_within : Within (Fits pc code index) (decodeDs pc code index) := by
  refine (twoWords_within _).bind fun words hwords => ?_
  have hpc := applyMemoryInfo_pc pc
  refine (setRawWords_within Nat.two_pos hwords (hpc _ _ rfl)).bind fun inst hinst => .ok ?_
  refine dsOffsets_fits pc ?_ _ _ _
  split_ifs
  · exact hinst
  · exact hinst

theorem decodeMimg_within : Within (Fits pc code index) (decodeMimg pc code index) := by
  refine (twoWords_within _).bind fun words hwords => ?_
  dsimp only
  by_cases hshort : code.length < index + (2 + (words.1 >>> 1 &&& 3))
  · rw [if_pos hshort]
    exact .error nofun
  · rw [if_neg hshort]
    have hcount := not_lt.1 hshort
    refine (Ensures.mapM (P := fun _ => True) fun i hi => ?_).bind fun raw _ => ?_
    · -- there are four addresses in a word
      have hi := List.mem_range.1 hi
      exact (word_within (by omega)).bind fun word _ => .ok trivial
    · refine (setRawWords_within (by omega) hcount rfl).bind fun inst hinst => .ok ?_
      split_ifs
      all_goals exact hinst

theorem decodeExp_within : Within (Fits pc code index) (decodeExp pc code index) := by
  refine (twoWords_within _).bind fun words hwords => ?_
  refine (setRawWords_within Nat.two_pos hwords rfl).bind fun inst hinst => ?_
  refine (decodeVectorGpr_within _).bind fun src0 _ => ?_
  refine (decodeVectorGpr_within _).bind fun src1 _ => ?_
  refine (decodeVectorGpr_within _).bind fun src2 _ => ?_
  exact (decodeVectorGpr_within _).bind fun src3 _ => .ok hinst

/-! ### Vector instructions -/

theorem modifierWord_within (encoding : Encoding) :
    Within (fun _ => index + 2 ≤ code.length) (modifierWord pc code index encoding) := by
  unfold modifierWord
  split_ifs with h
  · exact .error nofun
  · exact (word_within (not_le.1 h)).mono fun _ _ => not_le.1 h

theorem decodeVop1Destination_within (opcode : Opcode) (vdst : ℕ) :
    Within (fun _ => True) (decodeVop1Destination pc opcode vdst) := by
  unfold decodeVop1Destination
  split_ifs
  · exact decodeScalarDestination_within _ _
  · exact decodeVectorGpr_within _

theorem decodeVop1Sdwa_within (vdst : ℕ) {inst : Instruction} (hpc : inst.pc = pc) :
    Within (Fits pc code index) (decodeVop1Sdwa pc code index vdst inst) := by
  refine (modifierWord_within pc _).bind fun modifier hwords => ?_
  refine (setRawWords_within Nat.two_pos hwords hpc).bind fun inst hinst => ?_
  split_ifs
  · exact .ok hinst
  · refine (decodeVop1Destination_within pc _ _).bind fun dst _ => ?_
    exact (decodeScalarSource_within _ _).bind fun src0 _ => readLiteralOperands_within hinst

theorem decodeVop1Dpp_within (vdst : ℕ) {inst : Instruction} (hpc : inst.pc = pc) :
    Within (Fits pc code index) (decodeVop1Dpp pc code index vdst inst) := by
  refine (modifierWord_within pc _).bind fun modifier hwords => ?_
  refine (setRawWords_within Nat.two_pos hwords hpc).bind fun inst hinst => ?_
  refine (decodeVop1Destination_within pc _ _).bind fun dst _ => ?_
  refine (decodeScalarSource_within _ _).bind fun src0 _ => ?_
  dsimp only
  split_ifs
  · exact .ok hinst
  · exact readLiteralOperands_within hinst

theorem decodeVopcSdwa_within (vsrc1 : ℕ) {inst : Instruction} (hpc : inst.pc = pc) :
    Within (Fits pc code index) (decodeVopcSdwa pc code index vsrc1 inst) := by
  refine (modifierWord_within pc _).bind fun modifier hwords => ?_
  refine (setRawWords_within Nat.two_pos hwords hpc).bind fun inst hinst => ?_
  split_ifs
  · exact .ok hinst
  · exact .ok hinst
  all_goals
    refine (decodeScalarSource_within _ _).bind fun src0 _ => ?_
    refine (decodeScalarSource_within _ _).bind fun src1 _ => ?_
  · refine (Ensures.ok (P := fun _ => True) trivial).bind fun dst _ => ?_
    exact readLiteralOperands_within hinst
  · refine (Ensures.ok (P := fun _ => True) trivial).bind fun dst _ => ?_
    exact readLiteralOperands_within hinst
  · exact (decodeScalarDestination_within _ _).bind fun dst _ => readLiteralOperands_within hinst

theorem decodeVopcDpp_within (vsrc1 : ℕ) {inst : Instruction} (hpc : inst.pc = pc) :
    Within (Fits pc code index) (decodeVopcDpp pc code index vsrc1 inst) := by
  refine (modifierWord_within pc _).bind fun modifier hwords => ?_
  refine (setRawWords_within Nat.two_pos hwords hpc).bind fun inst hinst => ?_
  split_ifs
  · exact .ok hinst
  all_goals
    refine (decodeScalarSource_within _ _).bind fun src0 _ => ?_
    exact (decodeVectorGpr_within _).bind fun src1 _ => readLiteralOperands_within hinst

theorem finalizeVop2Instruction_within (inst : Instruction) (hinst : Fits pc code index inst) :
    Within (Fits pc code index) (finalizeVop2Instruction code index inst) := by
  refine readLiteralOperands_within ?_
  split_ifs
  all_goals exact hinst

theorem decodeVop2Sdwa_within (vdst vsrc1 : ℕ) {inst : Instruction} (hpc : inst.pc = pc) :
    Within (Fits pc code index) (decodeVop2Sdwa pc code index vdst vsrc1 inst) := by
  refine (modifierWord_within pc _).bind fun modifier hwords => ?_
  refine (setRawWords_within Nat.two_pos hwords hpc).bind fun inst hinst => ?_
  split_ifs
  · exact .ok hinst
  · refine (decodeVectorGpr_within _).bind fun dst _ => ?_
    refine (decodeScalarSource_within _ _).bind fun src0 _ => ?_
    refine (decodeScalarSource_within _ _).bind fun src1 _ => ?_
    exact finalizeVop2Instruction_within pc _ (by exact hinst)

theorem decodeVop2Dpp_within (vdst vsrc1 : ℕ) {inst : Instruction} (hpc : inst.pc = pc) :
    Within (Fits pc code index) (decodeVop2Dpp pc code index vdst vsrc1 inst) := by
  refine (modifierWord_within pc _).bind fun modifier hwords => ?_
  refine (setRawWords_within Nat.two_pos hwords hpc).bind fun inst hinst => ?_
  refine (decodeVectorGpr_within _).bind fun dst _ => ?_
  refine (decodeScalarSource_within _ _).bind fun src0 _ => ?_
  refine (decodeVectorGpr_within _).bind fun src1 _ => ?_
  dsimp only
  split_ifs
  · exact .ok hinst
  · exact finalizeVop2Instruction_within pc _ (by exact hinst)

section OneWord

variable (h : index < code.length)
include h

theorem decodeVop1_within : Within (Fits pc code index) (decodeVop1 pc code index) := by
  refine (word_within h).bind fun word _ => ?_
  refine (setRawWords_within Nat.one_pos h rfl).bind fun inst hinst => ?_
  split_ifs
  · exact .ok hinst
  · exact .ok hinst
  · exact decodeVop1Sdwa_within pc _ hinst.1
  · exact decodeVop1Dpp_within pc _ hinst.1
  · refine (decodeVop1Destination_within pc _ _).bind fun dst _ => ?_
    exact (decodeScalarSource_within _ _).bind fun src0 _ => readLiteralOperands_within hinst

theorem decodeVopc_within : Within (Fits pc code index) (decodeVopc pc code index) := by
  refine (word_within h).bind fun word _ => ?_
  refine (setRawWords_within Nat.one_pos h rfl).bind fun inst hinst => ?_
  split_ifs
  · exact decodeVopcSdwa_within pc _ hinst.1
  · exact decodeVopcDpp_within pc _ hinst.1
  · exact .ok hinst
  · refine (decodeScalarSource_within _ _).bind fun src0 _ => ?_
    exact (decodeVectorGpr_within _).bind fun src1 _ => readLiteralOperands_within hinst

theorem decodeVop2_within : Within (Fits pc code index) (decodeVop2 pc code index) := by
  refine (word_within h).bind fun word _ => ?_
  refine (setRawWords_within Nat.one_pos h rfl).bind fun inst hinst => ?_
  split_ifs
  · exact decodeVopc_within pc h
  · exact decodeVop1_within pc h
  · exact .ok hinst
  · exact decodeVop2Sdwa_within pc _ _ hinst.1
  · exact decodeVop2Dpp_within pc _ _ hinst.1
  · refine (decodeVectorGpr_within _).bind fun dst _ => ?_
    refine (decodeScalarSource_within _ _).bind fun src0 _ => ?_
    refine (decodeVectorGpr_within _).bind fun src1 _ => ?_
    exact finalizeVop2Instruction_within pc _ (by exact hinst)

theorem decodeVintrp_within : Within (Fits pc code index) (decodeVintrp pc code index) := by
  unfold decodeVintrp
  rw [if_neg (not_le.2 h)]
  refine (word_within h).bind fun word _ => ?_
  refine (setRawWords_within Nat.one_pos h rfl).bind fun inst hinst => ?_
  split_ifs
  · exact .ok hinst
  all_goals refine (decodeVectorGpr_within _).bind fun dst _ => ?_
  · exact (Ensures.ok (P := fun _ => True) trivial).bind fun src0 _ => .ok hinst
  · exact (decodeVectorGpr_within _).bind fun src0 _ => .ok hinst

end OneWord

theorem decodeVop3Sources_within (inst : Instruction) (hinst : Fits pc code index inst)
    (opcode sdst src1 src2 : ℕ) :
    Within (Fits pc code index) (decodeVop3Sources pc code index opcode sdst src1 src2 inst) := by
  unfold decodeVop3Sources
  split_ifs
  · -- VOPC
    exact (decodeScalarSource_within _ _).bind fun src1 _ => readLiteralOperands_within hinst
  · -- VOP1
    exact readLiteralOperands_within hinst
  · -- a carry in and out
    refine (decodeScalarDestination_within _ _).bind fun dst2 _ => ?_
    refine (decodeScalarSource_within _ _).bind fun src1 _ => ?_
    exact (decodeScalarSource_within _ _).bind fun src2 _ => readLiteralOperands_within hinst
  · -- a carry out
    refine (decodeScalarDestination_within _ _).bind fun dst2 _ => ?_
    exact (decodeScalarSource_within _ _).bind fun src1 _ => readLiteralOperands_within hinst
  · -- the 64-bit multiplication
    refine (decodeScalarDestination_within _ _).bind fun dst2 _ => ?_
    refine (decodeScalarSource_within _ _).bind fun src1 _ => ?_
    exact (decodeScalarSource_within _ _).bind fun src2 _ => readLiteralOperands_within hinst
  · -- VOP2, with a condition
    refine (decodeScalarSource_within _ _).bind fun src1 _ => ?_
    exact (decodeScalarSource_within _ _).bind fun src2 _ => readLiteralOperands_within hinst
  · -- VOP2
    exact (decodeScalarSource_within _ _).bind fun src1 _ => readLiteralOperands_within hinst
  · -- three sources
    refine (decodeScalarSource_within _ _).bind fun src1 _ => ?_
    exact (decodeScalarSource_within _ _).bind fun src2 _ => readLiteralOperands_within hinst
  · -- two sources
    exact (decodeScalarSource_within _ _).bind fun src1 _ => readLiteralOperands_within hinst

theorem decodeVop3_within : Within (Fits pc code index) (decodeVop3 pc code index) := by
  refine (twoWords_within _).bind fun words hwords => ?_
  refine (setRawWords_within Nat.two_pos hwords rfl).bind fun inst hinst => ?_
  have hrest (dst : Operand) (src0 opcode sdst src1 src2 : ℕ) :
      Within (Fits pc code index) (decodeScalarSource src0 pc >>= fun src0 =>
        decodeVop3Sources pc code index opcode sdst src1 src2 { inst with dst, src0 }) :=
    (decodeScalarSource_within _ _).bind fun src0 _ =>
      decodeVop3Sources_within pc _ (by exact hinst) _ _ _ _
  dsimp only
  split_ifs
  · exact .ok hinst
  · exact .ok hinst
  · exact .ok hinst
  · exact (Ensures.ok (P := fun _ => True) trivial).bind fun dst _ => hrest dst _ _ _ _ _
  · exact (decodeScalarDestination_within _ _).bind fun dst _ => hrest dst _ _ _ _ _
  · exact (decodeVectorGpr_within _).bind fun dst _ => hrest dst _ _ _ _ _

theorem decodeVop3p_within : Within (Fits pc code index) (decodeVop3p pc code index) := by
  refine (twoWords_within _).bind fun words hwords => ?_
  refine (setRawWords_within Nat.two_pos hwords rfl).bind fun inst hinst => ?_
  by_cases hunsupported : inst.opcode = .unsupported
  · rw [if_pos hunsupported]
    exact .ok hinst
  · rw [if_neg hunsupported]
    refine (decodeVectorGpr_within _).bind fun dst _ => ?_
    refine (decodeScalarSource_within _ _).bind fun src0 _ => ?_
    refine (decodeScalarSource_within _ _).bind fun src1 _ => ?_
    dsimp only
    -- the third source, which the packed instructions of two sources leave alone
    by_cases hthird : 2 < vop3pSourceCount inst.opcode
    · rw [if_pos hthird]
      refine (decodeScalarSource_within _ _).bind fun src2 _ => ?_
      split_ifs
      · exact .ok hinst
      · exact readLiteralOperands_within (by exact hinst)
    · rw [if_neg hthird]
      refine (Ensures.ok (P := fun _ => True) trivial).bind fun src2 _ => ?_
      split_ifs
      · exact .ok hinst
      · exact readLiteralOperands_within (by exact hinst)

/-- **Every decoder stays inside the words.** -/
theorem decodeInstruction_within (h : index < code.length) :
    Within (Fits (index * 4) code index) (decodeInstruction code index) := by
  refine (word_within h).bind fun word _ => ?_
  dsimp only
  split_ifs
  · exact decodeVop2_within _ h
  · exact decodeSop1_within _ h
  · exact decodeSopc_within _ h
  · exact decodeSopp_within _ h
  · exact decodeSopk_within _ h
  · exact decodeSop2_within _ h
  · split
    · exact decodeVintrp_within _ h
    · exact decodeVop3p_within _
    · exact decodeVop3_within _
    · exact decodeDs_within _
    · exact decodeFlat_within _
    · exact decodeMubuf_within _
    · exact decodeMtbuf_within _
    · exact decodeMimg_within _
    · exact decodeSmem_within _
    · exact decodeExp_within _
    · exact .error nofun

end Decode

end Prosperismo.Decoder
