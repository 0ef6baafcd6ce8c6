import Prosperismo.Pm4.Handlers

/-!
# How many words a packet takes

The words a handler returns against the extent its packet's header gives. A handler that takes
exactly its packet is `Exact`; so is a register parser that takes exactly the values the header
counts. The exceptions are

* three combined sequences (`Combined`), where a parser recognises the packets that follow and
  takes them along;
* `COND_EXEC`, which skips the words it counts;
* registers that are taken for one value whatever the header counts (`OneValue`).
-/

namespace Prosperismo.Pm4

/-- The predicate bit is not part of the operation code. -/
@[simp] theorem opcode_commandId (header : UInt32) : opcode (commandId header) = opcode header := by
  have hmask : ((0xfffffffe : UInt32) >>> 8) &&& 0xff = 0xff := by decide
  have h : (commandId header >>> 8) &&& (0xff : UInt32) = (header >>> 8) &&& 0xff := by
    rw [commandId, UInt32.shiftRight_and, UInt32.and_assoc, hmask]
  simp only [opcode, h]

/-! ### Register parsers -/

/-- The packet sequences that a register parser takes whole: the depth target with its info,
view, HTILE and size packets; the sixteen sample locations with the centroid priorities; a
colour target with its size packet. `values` are the words after the register offset, of which
the parser takes the given number. -/
inductive Combined (cmdId : UInt32) (cmdOffset : ℕ) (values : ℕ → UInt32) : ℕ → Prop
  | depthTarget (hcmd : cmdId = 0xC0086900) (hregister : cmdOffset = 0x10)
      (hinfo : values 8 = 0xC0016900 ∧ values 9 = 0xF)
      (hview : values 11 = 0xC0016900 ∧ values 12 = 0x2)
      (hhtileBase : values 14 = 0xC0016900 ∧ values 15 = 0x5)
      (hhtileSurface : values 17 = 0xC0016900 ∧ values 18 = 0x2AF)
      (hsize : values 20 = 0xC0001000) : Combined cmdId cmdOffset values 22
  | sampleLocations (hcmd : cmdId = 0xc0106900) (hregister : cmdOffset = 0x2FE)
      (hpriority : values 16 = 0xc0026900 ∧ values 17 = 0x2F5) : Combined cmdId cmdOffset values 20
  | colorTarget (hregister : cmdOffset ∈ List.range' 0x318 8 15)
      (hcount : 11 ≤ countField cmdId ∧ countField cmdId ≤ 14)
      (hsize : values (countField cmdId) = 0xC0001000) :
      Combined cmdId cmdOffset values (countField cmdId + 2)

/-- Only the words that are taken make a combined sequence. -/
theorem Combined.congr {cmdId : UInt32} {cmdOffset n : ℕ} {values values' : ℕ → UInt32}
    (h : Combined cmdId cmdOffset values n) (heq : ∀ k < n, values k = values' k) :
    Combined cmdId cmdOffset values' n := by
  cases h with
  | depthTarget hcmd hregister hinfo hview hhtileBase hhtileSurface hsize =>
    rw [heq 8 (by decide), heq 9 (by decide)] at hinfo
    rw [heq 11 (by decide), heq 12 (by decide)] at hview
    rw [heq 14 (by decide), heq 15 (by decide)] at hhtileBase
    rw [heq 17 (by decide), heq 18 (by decide)] at hhtileSurface
    rw [heq 20 (by decide)] at hsize
    exact .depthTarget hcmd hregister hinfo hview hhtileBase hhtileSurface hsize
  | sampleLocations hcmd hregister hpriority =>
    rw [heq 16 (by decide), heq 17 (by decide)] at hpriority
    exact .sampleLocations hcmd hregister hpriority
  | colorTarget hregister hcount hsize =>
    rw [heq _ (Nat.lt_add_of_pos_right Nat.two_pos)] at hsize
    exact .colorTarget hregister hcount hsize

/-- A parser that takes exactly the values the header counts. -/
def RegisterParser.Exact (p : RegisterParser) : Prop :=
  ∀ ⦃cmdId cmdOffset values dw n⦄, p cmdId cmdOffset values dw = some n → n = countField cmdId

theorem fixedRun_exact {header : UInt32} {register n : ℕ} (h : countField header = n) :
    (fixedRun header register n).Exact := by
  intro cmdId cmdOffset values dw n' hn
  simp only [fixedRun, Option.bind_eq_bind, Option.bind_eq_some_iff, exitIf_eq_some, not_not] at hn
  obtain ⟨-, rfl, -, -, hn⟩ := hn
  cases hn
  exact h.symm

theorem fixedHeader_exact {header : UInt32} {n : ℕ} (h : countField header = n) :
    (fixedHeader header n).Exact := by
  intro cmdId cmdOffset values dw n' hn
  simp only [fixedHeader, Option.bind_eq_bind, Option.bind_eq_some_iff, exitIf_eq_some,
    not_not] at hn
  obtain ⟨-, rfl, hn⟩ := hn
  cases hn
  exact h.symm

theorem wholeRun_exact : wholeRun.Exact := by
  intro cmdId cmdOffset values dw n hn
  cases hn
  rfl

theorem knownRun_exact (known : List ℕ) : (knownRun known).Exact := by
  intro cmdId cmdOffset values dw n hn
  simp only [knownRun, Option.bind_eq_bind, Option.bind_eq_some_iff] at hn
  obtain ⟨-, -, hn⟩ := hn
  cases hn
  rfl

theorem rangeRun_exact (first last : ℕ) : (rangeRun first last).Exact := by
  intro cmdId cmdOffset values dw n hn
  simp only [rangeRun, Option.bind_eq_bind, Option.bind_eq_some_iff] at hn
  obtain ⟨-, -, -, -, -, -, hn⟩ := hn
  cases hn
  rfl

theorem userDataRun_exact (first last : ℕ) : (userDataRun first last).Exact := by
  intro cmdId cmdOffset values dw n hn
  simp only [userDataRun, Option.bind_eq_bind, Option.bind_eq_some_iff] at hn
  obtain ⟨-, -, hn⟩ := hn
  cases hn
  rfl

theorem hwCtxSetDepthHtileSurface_exact : RegisterParser.Exact hwCtxSetDepthHtileSurface := by
  intro cmdId cmdOffset values dw n hn
  simp only [hwCtxSetDepthHtileSurface, Option.bind_eq_bind, Option.bind_eq_some_iff] at hn
  obtain ⟨-, -, -, -, hn⟩ := hn
  cases hn
  rfl

theorem hwCtxSetSpiTmpringSize_exact : RegisterParser.Exact hwCtxSetSpiTmpringSize := by
  intro cmdId cmdOffset values dw n hn
  simp only [hwCtxSetSpiTmpringSize, Option.bind_eq_bind, Option.bind_eq_some_iff, exitIf_eq_some,
    not_not] at hn
  obtain ⟨-, hcount, hn⟩ := hn
  cases hn
  exact hcount.symm

theorem hwCtxSetPsInput_exact : RegisterParser.Exact hwCtxSetPsInput := by
  intro cmdId cmdOffset values dw n hn
  simp only [hwCtxSetPsInput, Option.bind_eq_bind, Option.bind_eq_some_iff] at hn
  obtain ⟨-, -, -, -, -, -, hn⟩ := hn
  cases hn
  rfl

theorem hwShIgnoreRegisters_exact : RegisterParser.Exact hwShIgnoreRegisters := by
  intro cmdId cmdOffset values dw n hn
  cases hn
  rfl

theorem hwShSetCsUserAccumSgpr_exact : RegisterParser.Exact hwShSetCsUserAccumSgpr := by
  intro cmdId cmdOffset values dw n hn
  simp only [hwShSetCsUserAccumSgpr, Option.bind_eq_bind, Option.bind_eq_some_iff] at hn
  obtain ⟨-, -, hn⟩ := hn
  cases hn
  rfl

theorem hwUcSetPrimitiveType_exact : RegisterParser.Exact hwUcSetPrimitiveType := by
  intro cmdId cmdOffset values dw n hn
  simp only [hwUcSetPrimitiveType, Option.bind_eq_bind, Option.bind_eq_some_iff,
    exitIf_eq_some] at hn
  obtain ⟨-, hcmd, -, -, hn⟩ := hn
  cases hn
  rcases not_and_or.1 hcmd with hcmd | hcmd <;> rw [not_not.1 hcmd] <;> rfl

/-- What a parser takes otherwise: words that a packet's header, the register, the words after
it and their number are about. -/
abbrev Exception := (cmdId : UInt32) → (cmdOffset : ℕ) → (values : ℕ → UInt32) → ℕ → Prop

/-- The registers that are taken for one value, whatever the header counts. -/
def OneValue : Exception := fun _ cmdOffset _ n => n = 1 ∧ cmdOffset ∈ [0x243, 0x248, 0x24A]

/-- The parser of a row takes the values the header counts, up to an exception. -/
def RowTakes (P : Exception) (row : List ℕ × RegisterParser) : Prop :=
  ∀ ⦃cmdId cmdOffset values dw n⦄, cmdOffset ∈ row.1 →
    row.2 cmdId cmdOffset values dw = some n →
      n = countField cmdId ∨ P cmdId cmdOffset values n

theorem RegisterParser.Exact.row {p : RegisterParser} (h : p.Exact) (P : Exception)
    (registers : List ℕ) : RowTakes P (registers, p) :=
  fun _ _ _ _ _ _ hn => .inl (h hn)

theorem singleValue_row {register : ℕ} (h : register ∈ [0x243, 0x248, 0x24A])
    (registers : List ℕ) : RowTakes OneValue (registers, singleValue register) := by
  intro cmdId cmdOffset values dw n _ hn
  simp only [singleValue, Option.bind_eq_bind, Option.bind_eq_some_iff, exitIf_eq_some,
    not_not] at hn
  obtain ⟨-, rfl, hn⟩ := hn
  cases hn
  exact .inr ⟨rfl, h⟩

theorem hwCtxSetAaSampleControl_row (registers : List ℕ) :
    RowTakes Combined (registers, hwCtxSetAaSampleControl) := by
  intro cmdId cmdOffset values dw n _ hn
  simp only [hwCtxSetAaSampleControl] at hn
  split at hn
  · rename_i hone
    cases hn
    rw [hone.1]
    exact .inl rfl
  · simp only [Option.bind_eq_bind, Option.bind_eq_some_iff, exitIf_eq_some, not_not] at hn
    obtain ⟨-, hcmd, -, hregister, hn⟩ := hn
    split at hn
    · rename_i hnext
      cases hn
      exact .inr (.sampleLocations hcmd hregister hnext.2)
    · cases hn

theorem hwCtxSetDepthRenderTarget_row (registers : List ℕ) :
    RowTakes Combined (registers, hwCtxSetDepthRenderTarget) := by
  intro cmdId cmdOffset values dw n _ hn
  simp only [hwCtxSetDepthRenderTarget, Option.bind_eq_bind, Option.bind_eq_some_iff,
    exitIf_eq_some, not_not] at hn
  obtain ⟨-, hregister, hn⟩ := hn
  split at hn
  · rename_i hcmd
    cases hn
    rw [hcmd]
    exact .inl rfl
  · split at hn
    · rename_i hcmd
      split at hn
      · rename_i hnext
        obtain ⟨-, h8, h9, h11, h12, h14, h15, h17, h18, h20⟩ := hnext
        cases hn
        exact .inr (.depthTarget hcmd hregister ⟨h8, h9⟩ ⟨h11, h12⟩ ⟨h14, h15⟩ ⟨h17, h18⟩ h20)
      · cases hn
    · cases hn

theorem hwCtxSetRenderTarget_row (cxIndirect : ℕ → Bool) :
    RowTakes Combined (List.range' 0x318 8 15, hwCtxSetRenderTarget cxIndirect) := by
  intro cmdId cmdOffset values dw n hregister hn
  simp only [hwCtxSetRenderTarget] at hn
  split at hn
  · simp only [Option.bind_eq_bind, Option.bind_eq_some_iff] at hn
    obtain ⟨-, -, -, -, hn⟩ := hn
    cases hn
    exact .inl rfl
  · rename_i hcount
    split at hn
    · rename_i hnext
      cases hn
      exact .inr (.colorTarget hregister (by omega) hnext.2)
    · cases hn
      exact .inl rfl

/-- **The context table.** -/
theorem contextTable_takes (cxIndirect : ℕ → Bool) : ∀ row ∈ contextTable cxIndirect,
    RowTakes Combined row := by
  simp only [contextTable, List.forall_mem_cons, List.not_mem_nil, false_implies, implies_true,
    and_true]
  repeat' apply And.intro
  all_goals first
    | exact (fixedRun_exact rfl).row _ _
    | exact (fixedHeader_exact rfl).row _ _
    | exact wholeRun_exact.row _ _
    | exact (rangeRun_exact _ _).row _ _
    | exact (knownRun_exact _).row _ _
    | exact hwCtxSetDepthHtileSurface_exact.row _ _
    | exact hwCtxSetSpiTmpringSize_exact.row _ _
    | exact hwCtxSetPsInput_exact.row _ _
    | exact hwCtxSetAaSampleControl_row _
    | exact hwCtxSetDepthRenderTarget_row _
    | exact hwCtxSetRenderTarget_row _

/-- **The shader table.** -/
theorem shaderTable_takes : ∀ row ∈ shaderTable, RowTakes (fun _ _ _ _ => False) row := by
  simp only [shaderTable, List.forall_mem_cons, List.not_mem_nil, false_implies, implies_true,
    and_true]
  refine ⟨hwShIgnoreRegisters_exact.row _ _, (knownRun_exact _).row _ _,
    hwShSetCsUserAccumSgpr_exact.row _ _, ?_⟩
  repeat' apply And.intro
  all_goals exact (userDataRun_exact _ _).row _ _

/-- **The user-configuration table.** -/
theorem uconfigTable_takes : ∀ row ∈ uconfigTable, RowTakes OneValue row := by
  simp only [uconfigTable, List.forall_mem_cons, List.not_mem_nil, false_implies, implies_true,
    and_true]
  exact ⟨(knownRun_exact _).row _ _, singleValue_row (by simp) _, wholeRun_exact.row _ _,
    wholeRun_exact.row _ _, wholeRun_exact.row _ _, wholeRun_exact.row _ _,
    singleValue_row (by simp) _, singleValue_row (by simp) _, hwUcSetPrimitiveType_exact.row _ _⟩

/-- A parser found in a table is the parser of a row of the register. -/
theorem takes_of_lookup {P : Exception} {table : RegisterTable}
    (htable : ∀ row ∈ table, RowTakes P row) {cmdOffset : ℕ} {p : RegisterParser}
    (h : lookup table cmdOffset = some p) {cmdId : UInt32} {values : ℕ → UInt32} {dw n : ℕ}
    (hn : p cmdId cmdOffset values dw = some n) :
    n = countField cmdId ∨ P cmdId cmdOffset values n := by
  obtain ⟨row, hrow, rfl⟩ := Option.map_eq_some_iff.1 h
  refine htable row (List.mem_of_find?_eq_some hrow) ?_ hn
  simpa using List.find?_some hrow

/-! ### Handlers -/

/-- A handler's result takes exactly the packet of the header `cmdId`. -/
def ExactAt (cmdId : UInt32) (result : Option Reply) : Prop :=
  ∀ ⦃reply⦄, result = some reply → reply.words + 1 = pm4Len cmdId

@[simp] theorem exactAt_none {cmdId : UInt32} : ExactAt cmdId none :=
  fun _ h => nomatch h

@[simp] theorem exactAt_some {cmdId : UInt32} {reply : Reply} :
    ExactAt cmdId (some reply) ↔ reply.words + 1 = pm4Len cmdId :=
  ⟨fun h => h rfl, fun h _ hreply => Option.some.inj hreply ▸ h⟩

@[simp] theorem exactAt_exitIf {cmdId : UInt32} {c : Prop} [Decidable c]
    {k : Unit → Option Reply} :
    ExactAt cmdId ((exitIf c).bind k) ↔ (¬ c → ExactAt cmdId (k ())) := by
  by_cases h : c <;> simp [exitIf, h]

@[simp] theorem exactAt_ite {cmdId : UInt32} {c : Prop} [Decidable c] {a b : Option Reply} :
    ExactAt cmdId (if c then a else b) ↔ (c → ExactAt cmdId a) ∧ (¬ c → ExactAt cmdId b) := by
  by_cases h : c <;> simp [h]

/-- A result that is read off first does not matter. -/
theorem exactAt_bind {α : Type} {cmdId : UInt32} {o : Option α} {k : α → Option Reply}
    (h : ∀ a, o = some a → ExactAt cmdId (k a)) : ExactAt cmdId (o.bind k) := by
  cases o with
  | none => exact exactAt_none
  | some a => exact h a rfl

/-- The extent of a packet, one word being its header. -/
theorem pm4Len_sub_one (cmdId : UInt32) : pm4Len cmdId - 1 + 1 = pm4Len cmdId := rfl

/-- A handler that takes exactly its packet. -/
def Handler.Exact (handler : Handler) : Prop :=
  ∀ m cmdId buffer dw, ExactAt cmdId (handler m cmdId buffer dw)

@[simp] theorem cpOpDispatchReset_exact : Handler.Exact cpOpDispatchReset := by
  intro m cmdId buffer dw
  simp only [cpOpDispatchReset, Option.bind_eq_bind, Option.pure_def, exactAt_exitIf, not_not]
  rintro rfl
  simp [pm4Len, countField]

@[simp] theorem cpOpIndexType_exact : Handler.Exact cpOpIndexType := by
  intro m cmdId buffer dw
  simp only [cpOpIndexType, Option.bind_eq_bind, Option.pure_def, exactAt_exitIf, not_not]
  rintro rfl
  simp [pm4Len, countField]

@[simp] theorem cpOpIndexBufferSize_exact : Handler.Exact cpOpIndexBufferSize := by
  intro m cmdId buffer dw
  simp only [cpOpIndexBufferSize, Option.bind_eq_bind, Option.pure_def, exactAt_exitIf, not_not]
  rintro rfl
  simp [pm4Len, countField]

@[simp] theorem cpOpIndexBase_exact : Handler.Exact cpOpIndexBase := by
  intro m cmdId buffer dw
  simp only [cpOpIndexBase, Option.bind_eq_bind, Option.pure_def, exactAt_exitIf, not_not]
  rintro rfl
  simp [pm4Len, countField]

@[simp] theorem cpOpNumInstances_exact : Handler.Exact cpOpNumInstances := by
  intro m cmdId buffer dw
  simp only [cpOpNumInstances, Option.bind_eq_bind, Option.pure_def, exactAt_exitIf, not_not]
  rintro rfl
  simp [pm4Len, countField]

@[simp] theorem cpOpDrawIndexOffset_exact : Handler.Exact cpOpDrawIndexOffset := by
  intro m cmdId buffer dw
  simp only [cpOpDrawIndexOffset, Option.bind_eq_bind, Option.pure_def, exactAt_exitIf, not_not]
  rintro rfl
  simp [pm4Len, countField]

@[simp] theorem cpOpDrawIndexAuto_exact : Handler.Exact cpOpDrawIndexAuto := by
  intro m cmdId buffer dw
  simp only [cpOpDrawIndexAuto, Option.bind_eq_bind, Option.pure_def, exactAt_exitIf, not_not]
  rintro rfl
  simp [pm4Len, countField]

@[simp] theorem cpOpGetLodStats_exact : Handler.Exact cpOpGetLodStats := by
  intro m cmdId buffer dw
  simp only [cpOpGetLodStats, Option.bind_eq_bind, Option.pure_def, exactAt_exitIf, not_not]
  rintro rfl
  simp [pm4Len, countField]

@[simp] theorem cpOpPfpSyncMe_exact : Handler.Exact cpOpPfpSyncMe := by
  intro m cmdId buffer dw
  simp only [cpOpPfpSyncMe, Option.bind_eq_bind, Option.pure_def, exactAt_exitIf, not_not]
  rintro rfl
  simp [pm4Len, countField]

@[simp] theorem cpOpClearState_exact : Handler.Exact cpOpClearState := by
  intro m cmdId buffer dw
  simp only [cpOpClearState, Option.bind_eq_bind, Option.pure_def, exactAt_exitIf, not_not]
  rintro rfl
  simp [pm4Len, countField]

@[simp] theorem cpOpDmaData_exact : Handler.Exact cpOpDmaData := by
  intro m cmdId buffer dw
  simp only [cpOpDmaData, Option.bind_eq_bind, Option.pure_def, exactAt_exitIf, not_not]
  rintro rfl
  simp [pm4Len, countField, pm4]

@[simp] theorem cpOpDumpConstRam_exact : Handler.Exact cpOpDumpConstRam := by
  intro m cmdId buffer dw
  simp only [cpOpDumpConstRam, Option.bind_eq_bind, Option.pure_def, exactAt_exitIf, not_not]
  rintro rfl
  simp [pm4Len, countField]

@[simp] theorem cpOpEventWriteEop_exact : Handler.Exact cpOpEventWriteEop := by
  intro m cmdId buffer dw
  simp only [cpOpEventWriteEop, Option.bind_eq_bind, Option.pure_def, exactAt_exitIf, not_not]
  rintro rfl
  simp [pm4Len, countField]

@[simp] theorem cpOpEventWriteEos_exact : Handler.Exact cpOpEventWriteEos := by
  intro m cmdId buffer dw
  simp only [cpOpEventWriteEos, Option.bind_eq_bind, Option.pure_def, exactAt_exitIf, not_not]
  rintro rfl
  simp [pm4Len, countField]

@[simp] theorem cpOpFlip_exact : Handler.Exact cpOpFlip := by
  intro m cmdId buffer dw
  simp only [cpOpFlip, Option.bind_eq_bind, Option.pure_def, exactAt_exitIf, not_not]
  rintro rfl
  simp [pm4Len, countField]

@[simp] theorem cpOpWaitFlipDone_exact : Handler.Exact cpOpWaitFlipDone := by
  intro m cmdId buffer dw
  simp only [cpOpWaitFlipDone, Option.bind_eq_bind, Option.pure_def, exactAt_exitIf, not_not]
  rintro rfl
  simp [pm4Len, countField]

@[simp] theorem cpOpIncrementCeCounter_exact : Handler.Exact cpOpIncrementCeCounter := by
  intro m cmdId buffer dw
  simp only [cpOpIncrementCeCounter, Option.bind_eq_bind, Option.pure_def, exactAt_exitIf, not_not]
  rintro rfl
  simp [pm4Len, countField]

@[simp] theorem cpOpIncrementDeCounter_exact : Handler.Exact cpOpIncrementDeCounter := by
  intro m cmdId buffer dw
  simp only [cpOpIncrementDeCounter, Option.bind_eq_bind, Option.pure_def, exactAt_exitIf, not_not]
  rintro rfl
  simp [pm4Len, countField]

@[simp] theorem cpOpWaitOnCeCounter_exact : Handler.Exact cpOpWaitOnCeCounter := by
  intro m cmdId buffer dw
  simp only [cpOpWaitOnCeCounter, Option.bind_eq_bind, Option.pure_def, exactAt_exitIf, not_not]
  rintro rfl
  simp [pm4Len, countField]

@[simp] theorem cpOpWaitOnDeCounterDiff_exact : Handler.Exact cpOpWaitOnDeCounterDiff := by
  intro m cmdId buffer dw
  simp only [cpOpWaitOnDeCounterDiff, Option.bind_eq_bind, Option.pure_def, exactAt_exitIf, not_not]
  rintro rfl
  simp [pm4Len, countField]

@[simp] theorem cpOpDispatchIndirect_exact : Handler.Exact cpOpDispatchIndirect := by
  intro m cmdId buffer dw
  simp only [cpOpDispatchIndirect, Option.bind_eq_bind, Option.pure_def, exactAt_exitIf, not_and_or, not_not]
  rintro (rfl | rfl) <;> simp [pm4Len, countField]

@[simp] theorem cpOpDrawIndex_exact : Handler.Exact cpOpDrawIndex := by
  intro m cmdId buffer dw
  simp only [cpOpDrawIndex, Option.bind_eq_bind, Option.pure_def, exactAt_exitIf, not_and_or, not_not]
  rintro (rfl | rfl) <;> simp [pm4Len, countField]

@[simp] theorem cpOpDrawIndirect_exact : Handler.Exact cpOpDrawIndirect := by
  intro m cmdId buffer dw
  simp only [cpOpDrawIndirect, Option.bind_eq_bind, Option.pure_def, exactAt_exitIf, not_and_or, not_not]
  rintro (rfl | rfl) <;> simp [pm4Len, countField]

@[simp] theorem cpOpDrawIndirectMulti_exact : Handler.Exact cpOpDrawIndirectMulti := by
  intro m cmdId buffer dw
  simp only [cpOpDrawIndirectMulti, Option.bind_eq_bind, Option.pure_def, exactAt_exitIf, not_and_or, not_not]
  rintro (rfl | rfl) <;> simp [pm4Len, countField]

@[simp] theorem cpOpAcquireMem_exact : Handler.Exact cpOpAcquireMem := by
  intro m cmdId buffer dw
  simp only [cpOpAcquireMem, Option.bind_eq_bind, Option.pure_def, exactAt_exitIf, not_and_or, not_not]
  rintro (rfl | rfl) <;> simp [pm4Len, countField]

@[simp] theorem cpOpCopyData_exact : Handler.Exact cpOpCopyData := by
  intro m cmdId buffer dw
  simp only [cpOpCopyData, Option.bind_eq_bind, Option.pure_def, exactAt_exitIf, not_not]
  rintro rfl
  have hlen : pm4Len (pm4 6 0x40 0) = 6 := by decide
  simp only [exactAt_ite, exactAt_exitIf, exactAt_some, Reply.acts_words, hlen]
  refine ⟨fun _ _ => trivial, fun _ => ?_⟩
  refine exactAt_bind fun dmaSrc _ => exactAt_exitIf.2 fun _ => ?_
  exact exactAt_bind fun dmaDst _ => exactAt_some.2 hlen.symm

@[simp] theorem cpOpReleaseMem_exact : Handler.Exact cpOpReleaseMem := by
  intro m cmdId buffer dw
  simp only [cpOpReleaseMem, Option.bind_eq_bind, Option.pure_def, exactAt_exitIf, not_not]
  rintro rfl - -
  have hlen : pm4Len 0xc0061060 = 8 := by decide
  simp only [exactAt_ite, exactAt_some, Reply.acts_words, hlen, implies_true, and_true]
  exact fun _ => exactAt_bind fun interrupt _ => exactAt_some.2 hlen.symm

@[simp] theorem cpOpDispatchDirect_exact : Handler.Exact cpOpDispatchDirect := by
  intro m cmdId buffer dw
  simp [cpOpDispatchDirect, pm4Len]

@[simp] theorem cpOpEventWrite_exact : Handler.Exact cpOpEventWrite := by
  intro m cmdId buffer dw
  simp [cpOpEventWrite, pm4Len]

@[simp] theorem cpOpPopMarker_exact : Handler.Exact cpOpPopMarker := by
  intro m cmdId buffer dw
  simp [cpOpPopMarker, pm4Len]

@[simp] theorem cpOpPushMarker_exact : Handler.Exact cpOpPushMarker := by
  intro m cmdId buffer dw
  simp [cpOpPushMarker, pm4Len]

@[simp] theorem cpOpWriteConstRam_exact : Handler.Exact cpOpWriteConstRam := by
  intro m cmdId buffer dw
  simp only [cpOpWriteConstRam, Option.bind_eq_bind, Option.pure_def, exactAt_exitIf, exactAt_some,
    Reply.acts_words]
  exact fun _ _ _ => congrArg Nat.succ (Nat.add_comm 1 (countField cmdId))

@[simp] theorem cpOpWriteData_exact : Handler.Exact cpOpWriteData := by
  intro m cmdId buffer dw
  simp only [cpOpWriteData, Option.bind_eq_bind, Option.pure_def, exactAt_exitIf, exactAt_some,
    Reply.acts_words]
  exact fun _ => congrArg Nat.succ (Nat.add_comm 1 (countField cmdId))

@[simp] theorem cpOpSetBase_exact : Handler.Exact cpOpSetBase := by
  intro m cmdId buffer dw
  simp only [cpOpSetBase, Option.bind_eq_bind, Option.pure_def, exactAt_exitIf, exactAt_ite,
    exactAt_some, Reply.acts_words, not_not]
  intro _ hlen _ _
  exact ⟨fun _ => hlen.symm, fun _ => hlen.symm⟩

@[simp] theorem cpOpSetPredication_exact : Handler.Exact cpOpSetPredication := by
  intro m cmdId buffer dw
  simp only [cpOpSetPredication, Option.bind_eq_bind, Option.pure_def, exactAt_exitIf,
    exactAt_some, Reply.acts_words, pm4Len_sub_one, implies_true]

@[simp] theorem cpOpWaitRegMem32_exact : Handler.Exact cpOpWaitRegMem32 := by
  intro m cmdId buffer dw
  simp only [cpOpWaitRegMem32, Option.bind_eq_bind, Option.pure_def, exactAt_exitIf, exactAt_some,
    not_not]
  exact fun _ hlen _ => hlen.symm

@[simp] theorem cpOpWaitRegMem64_exact : Handler.Exact cpOpWaitRegMem64 := by
  intro m cmdId buffer dw
  simp only [cpOpWaitRegMem64, Option.bind_eq_bind, Option.pure_def, exactAt_exitIf, exactAt_some,
    not_not]
  exact fun _ hlen _ => hlen.symm

@[simp] theorem cpOpBranch_exact : Handler.Exact cpOpBranch := by
  intro m cmdId buffer dw
  simp only [cpOpBranch, Option.bind_eq_bind, Option.pure_def, exactAt_exitIf]
  intro _ _ _ _ _ _
  refine exactAt_bind fun takeThen _ => ?_
  simp only [exactAt_ite, exactAt_exitIf, exactAt_some, Reply.acts_words, pm4Len_sub_one,
    implies_true, and_self]

@[simp] theorem cpOpIndirectBuffer_exact : Handler.Exact cpOpIndirectBuffer := by
  intro m cmdId buffer dw
  simp only [cpOpIndirectBuffer, Option.bind_eq_bind, Option.pure_def, exactAt_exitIf,
    exactAt_ite, exactAt_some, Reply.acts_words, not_not]
  exact fun _ => ⟨fun _ => cpOpBranch_exact m cmdId buffer dw,
    fun _ hlen => ⟨fun _ => hlen.symm, fun _ _ => hlen.symm⟩⟩

theorem indirectRegs_exact (op : ℕ)
    (pair : UInt32 → UInt32 → Option (List (Bank × ℕ × UInt32))) :
    Handler.Exact (indirectRegs op pair) := by
  intro m cmdId buffer dw
  simp only [indirectRegs, Option.bind_eq_bind, Option.pure_def, exactAt_exitIf, exactAt_ite,
    exactAt_some, Reply.acts_words, pm4Len_sub_one, implies_true, true_and]
  exact fun _ _ _ _ => exactAt_bind fun writes _ => exactAt_some.2 (pm4Len_sub_one cmdId)

@[simp] theorem cpOpIndirectCxRegs_exact (tables : IndirectTables) :
    Handler.Exact (cpOpIndirectCxRegs tables) :=
  indirectRegs_exact _ _

@[simp] theorem cpOpIndirectShRegs_exact (tables : IndirectTables) :
    Handler.Exact (cpOpIndirectShRegs tables) :=
  indirectRegs_exact _ _

@[simp] theorem cpOpIndirectUcRegs_exact (tables : IndirectTables) :
    Handler.Exact (cpOpIndirectUcRegs tables) :=
  indirectRegs_exact _ _

@[simp] theorem cpOpMarker_exact : Handler.Exact cpOpMarker := by
  intro m cmdId buffer dw
  exact exactAt_bind fun actions _ => exactAt_some.2 rfl

theorem customFunc_exact {r : ℕ} {handler : Handler} (h : customFunc r = some handler) :
    handler.Exact := by
  unfold customFunc at h
  split at h <;> cases h <;> simp

@[simp] theorem cpOpNop_exact : Handler.Exact cpOpNop := by
  intro m cmdId buffer dw
  simp only [cpOpNop, Option.bind_eq_bind, exactAt_ite, exactAt_some, Reply.acts_words,
    pm4Len_sub_one, implies_true, and_true]
  refine ⟨fun _ _ => cpOpMarker_exact m cmdId buffer dw, fun _ => ?_⟩
  exact exactAt_bind fun cpOp hcpOp => customFunc_exact hcpOp m cmdId buffer dw

/-! ### The extent of a packet -/

/-- The words a packet takes, its header included: its own extent; with `COND_EXEC`, the words
it counts besides; with a register parser that takes a combined sequence, that sequence. -/
inductive Extent (header : UInt32) (payload : ℕ → UInt32) : ℕ → Prop
  | own : Extent header payload (pm4Len header)
  | condExec (hop : opcode header = 0x22) (hlen : 4 < pm4Len header) :
      Extent header payload (pm4Len header + (payload 3 &&& 0x3fff).toNat)
  | combined {n : ℕ} (hop : opcode header = 0x69)
      (hcombined : Combined (commandId header) (normalizeRegisterOffset (payload 0))
        (fun i => payload (i + 1)) n) :
      Extent header payload (n + 2)

/-- The packets that are taken for one value: of the placeholders of the context and shader
banks, and of three user-configuration registers. -/
def TakenForOne (header : UInt32) (payload : ℕ → UInt32) : Prop :=
  opcode header = 0x69 ∧ hwCtxIsFakeRegister (normalizeRegisterOffset (payload 0)) = true ∨
  opcode header = 0x76 ∧ (payload 0).toNat = shNop ∨
  opcode header = 0x79 ∧ normalizeRegisterOffset (payload 0) ∈ [0x243, 0x248, 0x24A] ∨
  opcode header = 0x7A ∧ (payload 0 &&& 0x0fffffff).toNat ∈ [0x243, 0x248, 0x24A]

/-- Only the words a packet takes decide its extent. -/
theorem Extent.congr {header : UInt32} {payload payload' : ℕ → UInt32} {n : ℕ}
    (h : Extent header payload n) (heq : ∀ k, k + 1 < n → payload k = payload' k) :
    Extent header payload' n := by
  cases h with
  | own => exact .own
  | condExec hop hlen =>
    rw [heq 3 (Nat.lt_of_lt_of_le hlen (Nat.le_add_right _ _))]
    exact .condExec hop hlen
  | combined hop hcombined =>
    refine .combined hop ?_
    rw [← heq 0 (Nat.le_add_left _ _)]
    exact hcombined.congr fun k hk => heq (k + 1) (Nat.add_lt_add_right hk 2)

/-- Where the header counts the one value, the packet takes its own extent. -/
theorem Extent.of_one {header : UInt32} {payload : ℕ → UInt32} (h : countField header = 1) :
    Extent header payload 3 := by
  have hlen : 3 = pm4Len header := by rw [pm4Len, h]
  exact hlen ▸ .own

/-- The words of a parser, with the register offset and the header. -/
theorem Extent.of_count {header : UInt32} {payload : ℕ → UInt32} {n : ℕ}
    (h : n = countField (commandId header)) : Extent header payload (n + 2) := by
  have hlen : n + 2 = pm4Len header := by rw [h, countField_commandId, pm4Len]
  exact hlen ▸ .own

theorem cpOpCondExec_extent {m : Memory} {header : UInt32} {payload : ℕ → UInt32} {dw : ℕ}
    {reply : Reply} (hop : opcode header = 0x22)
    (h : cpOpCondExec m (commandId header) payload dw = some reply) :
    Extent header payload (reply.words + 1) := by
  simp only [cpOpCondExec, Option.bind_eq_bind, Option.bind_eq_some_iff, exitIf_eq_some] at h
  obtain ⟨-, -, -, hlen, -, -, -, -, -, -, -, -, h⟩ := h
  rw [pm4Len_commandId] at hlen
  split at h <;> cases h
  · have hlen : pm4Len (commandId header) - 1 + (payload 3 &&& 0x3fff).toNat + 1 =
        pm4Len header + (payload 3 &&& 0x3fff).toNat := by
      rw [Nat.add_right_comm, pm4Len_sub_one, pm4Len_commandId]
    simp only [Reply.acts_words, hlen]
    exact .condExec hop (by omega)
  · simp only [Reply.acts_words, pm4Len_sub_one, pm4Len_commandId]
    exact .own

theorem cpOpSetContextReg_extent {tables : IndirectTables} {m : Memory} {header : UInt32}
    {payload : ℕ → UInt32} {dw : ℕ} {reply : Reply} (hop : opcode header = 0x69)
    (hone : TakenForOne header payload → countField header = 1)
    (h : cpOpSetContextReg tables m (commandId header) payload dw = some reply) :
    Extent header payload (reply.words + 1) := by
  simp only [cpOpSetContextReg] at h
  split at h
  · rename_i hfake
    cases h
    exact .of_one (hone (.inl ⟨hop, hfake⟩))
  · simp only [Option.bind_eq_bind, Option.bind_eq_some_iff] at h
    obtain ⟨-, -, h⟩ := h
    split at h
    · obtain ⟨-, -, h⟩ := Option.bind_eq_some_iff.1 h
      cases h
      exact .of_count rfl
    · rename_i parser hparser
      obtain ⟨n, hn, h⟩ := Option.bind_eq_some_iff.1 h
      obtain ⟨-, -, h⟩ := Option.bind_eq_some_iff.1 h
      cases h
      rcases takes_of_lookup (contextTable_takes tables.cx) hparser hn with hcount | hcombined
      · exact .of_count hcount
      · exact .combined hop hcombined

theorem cpOpSetShaderReg_extent {m : Memory} {header : UInt32} {payload : ℕ → UInt32} {dw : ℕ}
    {reply : Reply} (hop : opcode header = 0x76)
    (hone : TakenForOne header payload → countField header = 1)
    (h : cpOpSetShaderReg m (commandId header) payload dw = some reply) :
    Extent header payload (reply.words + 1) := by
  simp only [cpOpSetShaderReg] at h
  split at h
  · rename_i hnop
    cases h
    exact .of_one (hone (.inr (.inl ⟨hop, hnop⟩)))
  · simp only [Option.bind_eq_bind, Option.bind_eq_some_iff] at h
    obtain ⟨-, -, parser, hparser, n, hn, -, -, h⟩ := h
    cases h
    rcases takes_of_lookup shaderTable_takes hparser hn with hcount | hfalse
    · exact .of_count hcount
    · exact hfalse.elim

theorem cpOpSetUconfigReg_extent {tables : IndirectTables} {m : Memory} {header : UInt32}
    {payload : ℕ → UInt32} {dw : ℕ} {reply : Reply}
    (hop : opcode header = 0x79 ∨ opcode header = 0x7A)
    (hone : TakenForOne header payload → countField header = 1)
    (h : cpOpSetUconfigReg tables m (commandId header) payload dw = some reply) :
    Extent header payload (reply.words + 1) := by
  simp only [cpOpSetUconfigReg, opcode_commandId, Option.bind_eq_bind,
    Option.bind_eq_some_iff] at h
  obtain ⟨isFake, -, h⟩ := h
  split at h
  · cases h
    exact .of_count rfl
  · obtain ⟨-, -, h⟩ := Option.bind_eq_some_iff.1 h
    split at h
    · obtain ⟨-, -, h⟩ := Option.bind_eq_some_iff.1 h
      cases h
      exact .of_count rfl
    · rename_i parser hparser
      obtain ⟨n, hn, h⟩ := Option.bind_eq_some_iff.1 h
      obtain ⟨-, -, h⟩ := Option.bind_eq_some_iff.1 h
      cases h
      rcases takes_of_lookup uconfigTable_takes hparser hn with hcount | ⟨rfl, hregister⟩
      · exact .of_count hcount
      · refine .of_one (hone (.inr (.inr ?_)))
        rcases hop with hop | hop
        · rw [if_neg (by rw [hop]; decide)] at hregister
          exact .inl ⟨hop, hregister⟩
        · rw [if_pos hop] at hregister
          exact .inr ⟨hop, hregister⟩

/-- The handlers that do not take exactly their packet. -/
theorem opFunc_exact {tables : IndirectTables} {op : ℕ} {handler : Handler}
    (h : opFunc tables op = some handler) :
    handler.Exact ∨ op = 0x22 ∧ handler = cpOpCondExec ∨
      op = 0x69 ∧ handler = cpOpSetContextReg tables ∨ op = 0x76 ∧ handler = cpOpSetShaderReg ∨
      (op = 0x79 ∨ op = 0x7A) ∧ handler = cpOpSetUconfigReg tables := by
  unfold opFunc at h
  split at h <;> cases h <;> simp

/-- **Every accepted packet takes its extent**, packets that are taken for one value having
one. -/
theorem opFunc_extent {tables : IndirectTables} {handler : Handler} {m : Memory}
    {header : UInt32} {payload : ℕ → UInt32} {dw : ℕ} {reply : Reply}
    (hhandler : opFunc tables (opcode header) = some handler)
    (hone : TakenForOne header payload → countField header = 1)
    (h : handler m (commandId header) payload dw = some reply) :
    Extent header payload (reply.words + 1) := by
  rcases opFunc_exact hhandler with hexact | ⟨hop, rfl⟩ | ⟨hop, rfl⟩ | ⟨hop, rfl⟩ | ⟨hop, rfl⟩
  · rw [hexact m _ payload dw h, pm4Len_commandId]
    exact .own
  · exact cpOpCondExec_extent hop h
  · exact cpOpSetContextReg_extent hop hone h
  · exact cpOpSetShaderReg_extent hop hone h
  · exact cpOpSetUconfigReg_extent hop hone h

end Prosperismo.Pm4
