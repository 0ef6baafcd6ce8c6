import Prosperismo.Emitter.Terminators

/-!
# The emitted function runs the program

The emitted function is a prefix, the blocks, and (for the dispatcher) a tail.
`Layout` is what both emissions have in common: the code of every emitted block
is found at its label, and takes an execution from the end of the block's body to
the next body or to a return (`Arrives`). From that alone an execution is a path
and a path is an execution (`exec_iff_path`).
-/

namespace Prosperismo.Emitter

open Prosperismo.Cfg (uint32Max BranchCondition TerminatorKind Terminator)
open Prosperismo.Spirv

variable {mode : MaskMode} {named : List Register} {program : Program} {W : Type}

/-! ### Reachable blocks -/

theorem zero_mem_reachable (h : 0 < program.blocks.length) :
    0 ∈ computeReachableBlocks program := by
  unfold computeReachableBlocks
  rw [if_neg (by rw [List.isEmpty_iff]; exact List.ne_nil_of_length_pos h)]
  exact search_mem_stack List.mem_cons_self h

/-- In-range successors of reachable blocks are reachable. -/
theorem reachable_closed {b t : ℕ} {block : Block} (hb : b ∈ computeReachableBlocks program)
    (hblock : program.blocks[b]? = some block) (ht : t ∈ block.successors)
    (hlt : t < program.blocks.length) : t ∈ computeReachableBlocks program := by
  unfold computeReachableBlocks at hb ⊢
  split at hb
  · simp at hb
  · next hne =>
    rw [if_neg hne]
    refine search_closed (by simp) b hb t ?_ hlt
    rw [hblock]
    exact ht

/-- The emitted blocks are the reachable ones. -/
theorem mem_emittedBlocks {state : EmitterState} {block : Block} :
    block ∈ emittedBlocks state program ↔
      block ∈ program.blocks ∧ block.id ∈ state.reachableBlocks := by
  simp [emittedBlocks]

/-- A block has a label when it is reachable. -/
theorem blockLabel_eq (h : WellFormed named program) {b : ℕ} :
    blockLabel (.ofProgram mode named program) b =
      if b < program.blocks.length ∧ b ∈ computeReachableBlocks program then some (.block b)
      else none := by
  unfold blockLabel
  refine if_congr ?_ rfl rfl
  simp only [EmitterState.ofProgram, allocateBlockLabels, List.mem_map, List.mem_filter,
    decide_eq_true_eq]
  constructor
  · rintro ⟨block, ⟨hmem, hreach⟩, rfl⟩
    obtain ⟨i, hi, hblock⟩ := List.getElem_of_mem hmem
    have hid := h.ids i block (by rw [List.getElem?_eq_getElem hi, hblock])
    exact ⟨hid ▸ hi, hreach⟩
  · rintro ⟨hlt, hreach⟩
    have hblock := List.getElem?_eq_getElem hlt
    have hid := h.ids b _ hblock
    exact ⟨_, ⟨List.getElem_mem hlt, by rw [hid]; exact hreach⟩, hid⟩

/-- The targets of a reachable block's terminator that are blocks have labels. -/
theorem labelsTargets (h : WellFormed named program) {block : Block}
    (hblock : block ∈ emittedBlocks (.ofProgram mode named program) program) :
    LabelsTargets (.ofProgram mode named program) program block.terminator := by
  obtain ⟨hmem, hreach⟩ := mem_emittedBlocks.1 hblock
  obtain ⟨i, hi, rfl⟩ := List.getElem_of_mem hmem
  have hi' := List.getElem?_eq_getElem hi
  intro t ht
  rw [blockLabel_eq h]
  refine if_congr ⟨And.left, fun hlt => ⟨hlt, ?_⟩⟩ rfl rfl
  rw [h.ids i _ hi'] at hreach
  exact reachable_closed hreach hi' (h.successors _ hmem t ht hlt) hlt

/-- The dispatcher's variable is no register. -/
theorem registersOf_update (vars : Variable → ℕ) (stored : ℕ) :
    registersOf (Function.update vars .dispatchPc stored) = registersOf vars := by
  funext reg
  exact Function.update_of_ne (by simp) _ _

/-! ### The code of the blocks -/

/-- The code of one block. -/
def IsBlockCode (R : Terminator → List (Inst Label Variable ℕ) → Prop) (block : Block)
    (piece : List (Inst Label Variable ℕ)) : Prop :=
  ∃ code, piece = .label (.block block.id) :: .body block.id :: code ∧ labels code = [] ∧
    R block.terminator code

theorem emits_block {terminator : Terminator → Emission Unit} {block : Block} {n : ℕ}
    {R : Terminator → List (Inst Label Variable ℕ) → Prop}
    (h : ∀ n, Emits (terminator block.terminator) n fun _ is _ =>
      labels is = [] ∧ R block.terminator is) :
    Emits (emitBlock terminator block) n fun _ is _ => IsBlockCode R block is := by
  refine Emits.bind (P := fun _ is _ => is = [.label (.block block.id)])
    (Emits.addFunction rfl) ?_
  rintro - _ n₁ - rfl
  refine Emits.bind (P := fun _ is _ => is = [.body block.id]) (Emits.addFunction rfl) ?_
  rintro - _ n₂ - rfl
  exact (h n₂).mono fun _ is _ _ ⟨hlab, hR⟩ => ⟨is, rfl, hlab, hR⟩

section Pieces

variable {R : Terminator → List (Inst Label Variable ℕ) → Prop} {blocks : List Block}
  {pieces : List (List (Inst Label Variable ℕ))}

theorem labels_eq_nil_append {l : Label} {is js : List (Inst Label Variable ℕ)}
    (h : labels is = []) : findLabel l (is ++ js) = findLabel l js := by
  induction is with
  | nil => rfl
  | cons i is ih =>
    cases i with
    | label l' => simp [labels] at h
    | _ => exact ih h

/-- The blocks define block labels only. -/
theorem findLabel_pieces_other (h : List.Forall₂ (IsBlockCode R) blocks pieces) {l : Label}
    (hl : ∀ b, l ≠ .block b) (tail : List (Inst Label Variable ℕ)) :
    findLabel l (pieces.flatten ++ tail) = findLabel l tail := by
  induction h with
  | nil => rfl
  | cons hpiece _ ih =>
    obtain ⟨code, rfl, hcode, -⟩ := hpiece
    simp only [List.flatten_cons, List.cons_append, List.append_assoc, findLabel,
      if_neg (hl _).symm, labels_eq_nil_append hcode]
    exact ih

/-- The code of a block is found at its label. -/
theorem findLabel_pieces (h : List.Forall₂ (IsBlockCode R) blocks pieces)
    (hnodup : (blocks.map Block.id).Nodup) {block : Block} (hblock : block ∈ blocks)
    (tail : List (Inst Label Variable ℕ)) :
    ∃ code post, findLabel (.block block.id) (pieces.flatten ++ tail)
        = some (.body block.id :: (code ++ post)) ∧ R block.terminator code := by
  induction h with
  | nil => cases hblock
  | cons hpiece _ ih =>
    obtain ⟨code, rfl, hcode, hR⟩ := hpiece
    rw [List.map_cons, List.nodup_cons] at hnodup
    simp only [List.flatten_cons, List.cons_append, List.append_assoc]
    rcases List.mem_cons.1 hblock with rfl | hblock
    · exact ⟨code, _, by rw [findLabel, if_pos rfl], hR⟩
    · obtain ⟨code', post', hfind, hR'⟩ := ih hnodup.2 hblock
      refine ⟨code', post', ?_, hR'⟩
      have hne : Label.block _ ≠ Label.block block.id := fun heq =>
        hnodup.1 (List.mem_map.2 ⟨block, hblock, (Label.block.inj heq).symm⟩)
      simp only [findLabel, if_neg hne, labels_eq_nil_append hcode]
      exact hfind

end Pieces

/-! ### Executions are paths -/

/-- A relation between register contents, as a relation between memories: bodies do
not touch the dispatcher's variable. -/
def onVariables (effect : ℕ → Registers × W → Registers × W → Prop) (b : ℕ)
    (m m' : (Variable → ℕ) × W) : Prop :=
  effect b (registersOf m.1, m.2) (registersOf m'.1, m'.2) ∧
    m'.1 .dispatchPc = m.1 .dispatchPc

/-- A configuration gets to the body of the next block, or to a return. -/
def Arrives (prog : List (Inst Label Variable ℕ)) (program : Program)
    (c : Config Label Variable ℕ W) (next : Option ℕ) (regs : Registers) (w : W) : Prop :=
  match next with
  | some b => b ∈ computeReachableBlocks program ∧ b < program.blocks.length ∧
      ∃ rest env vars, findLabel (.block b) prog = some (.body b :: rest) ∧
        Silent prog c ⟨.body b :: rest, env, vars, w⟩ ∧ registersOf vars = regs
  | none => ∃ rest env vars, Silent prog c ⟨.ret :: rest, env, vars, w⟩

/-- The code after every reachable block's body arrives at the next block. -/
def Layout (prog : List (Inst Label Variable ℕ)) (mode : MaskMode) (program : Program) : Prop :=
  ∀ b block rest, program.blocks[b]? = some block → b ∈ computeReachableBlocks program →
    findLabel (.block b) prog = some (.body b :: rest) →
    ∀ (W : Type) (env : Env) (vars : Variable → ℕ) (w : W),
      Arrives prog program ⟨rest, env, vars, w⟩
        (nextBlock mode program (registersOf vars) block.terminator) (registersOf vars) w

/-- **Executions are paths.** An execution that arrives at a block executes exactly
the blocks a path from there does. -/
theorem exec_iff_path {prog : List (Inst Label Variable ℕ)} (hlayout : Layout prog mode program)
    {effect : ℕ → Registers × W → Registers × W → Prop} {c : Config Label Variable ℕ W}
    {next : Option ℕ} {regs : Registers} {w : W} {tr : List ℕ} {fin : Bool}
    (h : Arrives prog program c next regs w) :
    Exec prog (onVariables effect) c tr fin ↔
      Path mode program effect next (regs, w) tr fin := by
  induction tr generalizing c next regs w with
  | nil =>
    cases next with
    | none =>
      obtain ⟨rest, env, vars, hret⟩ := h
      rw [exec_ret_iff hret]
      refine ⟨fun _ => ?_, fun _ => rfl⟩
      cases fin with
      | false => exact .running _ _
      | true => exact .ended _
    | some b =>
      obtain ⟨-, -, rest, env, vars, -, hbody, -⟩ := h
      rw [exec_body_iff hbody]
      constructor
      · rintro (⟨-, rfl⟩ | ⟨_, _, -, htr, -⟩)
        · exact .running _ _
        · cases htr
      · rintro ⟨⟩
        exact .inl ⟨rfl, rfl⟩
  | cons b' tr ih =>
    cases next with
    | none =>
      obtain ⟨rest, env, vars, hret⟩ := h
      rw [exec_ret_iff hret]
      constructor
      · intro htr; cases htr
      · intro hpath; cases hpath
    | some b =>
      obtain ⟨hreach, hlt, rest, env, vars, hfind, hbody, rfl⟩ := h
      have hblock := List.getElem?_eq_getElem hlt
      have harrives := fun vars' (w' : W) =>
        hlayout b _ rest hblock hreach hfind W env vars' w'
      rw [exec_body_iff hbody]
      constructor
      · rintro (⟨htr, -⟩ | ⟨m, tr', heff, htr, hexec⟩)
        · cases htr
        · cases htr
          exact .block hblock heff.1 ((ih (harrives m.1 m.2)).1 hexec)
      · intro hpath
        cases hpath with
        | block hblock' heff hrest =>
          rw [hblock, Option.some.injEq] at hblock'
          subst hblock'
          rename_i s'
          -- the memory the body leaves, with the dispatcher's variable as it was
          let vars' : Variable → ℕ := fun v => v.casesOn s'.1 (vars .dispatchPc)
          exact .inr ⟨(vars', s'.2), tr, ⟨heff, rfl⟩, rfl, (ih (harrives vars' s'.2)).2 hrest⟩

/-! ### The dispatcher -/

section Dispatcher

variable (state : EmitterState) (program : Program)

/-- The code from the dispatcher's header to the first block. -/
def dispatcherHeader : List (Inst Label Variable ℕ) :=
  [.load 1 .dispatchPc, .iEqual 2 (.id 1) (.const uint32Max),
    .loopMerge .dispatchMerge .dispatchContinue,
    .branchConditional (.id 2) .dispatchMerge .dispatchSelect,
    .label .dispatchSelect, .selectionMerge .dispatchAfterSwitch,
    .switch (.id 1) .dispatchDefault (switchCases state program),
    .label .dispatchDefault, .store .dispatchPc (.const uint32Max),
    .branch .dispatchAfterSwitch]

/-- The code after the last block. -/
def dispatcherTail : List (Inst Label Variable ℕ) :=
  [.label .dispatchAfterSwitch, .branch .dispatchContinue, .label .dispatchContinue,
    .branch .dispatchHeader, .label .dispatchMerge, .ret]

/-- The code before the dispatcher's header. -/
def dispatcherStart : List (Inst Label Variable ℕ) :=
  [.label .entry, .store .dispatchPc (.const 0), .branch .dispatchHeader,
    .label .dispatchHeader]

/-- The dispatcher function around the code of its blocks. -/
def dispatcherCode (blocks : List (Inst Label Variable ℕ)) : List (Inst Label Variable ℕ) :=
  dispatcherStart ++ (dispatcherHeader state program ++ (blocks ++ dispatcherTail))

theorem emitDispatcherLoopTail_code (n : ℕ) (code : List (Inst Label Variable ℕ)) :
    emitDispatcherLoopTail ⟨n, code⟩ = ((), ⟨n, code ++ dispatcherTail⟩) := by
  change ((), (⟨n, code ++ [.label .dispatchAfterSwitch] ++ [.branch .dispatchContinue]
    ++ [.label .dispatchContinue] ++ [.branch .dispatchHeader] ++ [.label .dispatchMerge]
    ++ [.ret]⟩ : Builder Label Variable ℕ)) = _
  simp only [List.append_assoc, dispatcherTail, List.cons_append, List.nil_append]

variable {state program} {R : Terminator → List (Inst Label Variable ℕ) → Prop}

theorem functionCode_dispatcher (hfallback : program.dispatcherFallback = true)
    (h : ∀ block ∈ emittedBlocks state program, ∀ n,
      Emits (emitDispatcherTerminator state block.terminator) n fun _ is _ =>
        labels is = [] ∧ R block.terminator is) :
    ∃ pieces, List.Forall₂ (IsBlockCode R) (emittedBlocks state program) pieces ∧
      functionCode state program = dispatcherCode state program pieces.flatten := by
  obtain ⟨⟨⟩, is, n', hblocks, -, pieces, rfl, hpieces⟩ :=
    Emits.forM (g := emitBlock (emitDispatcherTerminator state))
      (fun block hblock n => emits_block (h block hblock)) 3
      (dispatcherStart ++ dispatcherHeader state program)
  refine ⟨pieces, hpieces, ?_⟩
  unfold functionCode emitFunction
  rw [hfallback]
  change (emitDispatcherLoopTail
    (((emittedBlocks state program).forM (emitBlock (emitDispatcherTerminator state)))
      ⟨3, dispatcherStart ++ dispatcherHeader state program⟩).2).2.code = _
  rw [hblocks, emitDispatcherLoopTail_code]
  simp only [dispatcherCode, List.append_assoc]

/-- Where the dispatcher's labels are. -/
theorem findLabel_dispatcherCode {pieces : List (List (Inst Label Variable ℕ))}
    {blocks : List Block} (h : List.Forall₂ (IsBlockCode R) blocks pieces)
    {prog : List (Inst Label Variable ℕ)}
    (hprog : prog = dispatcherCode state program pieces.flatten) :
    findLabel .entry prog = some ([.store .dispatchPc (.const 0), .branch .dispatchHeader,
        .label .dispatchHeader] ++ (dispatcherHeader state program
          ++ (pieces.flatten ++ dispatcherTail))) ∧
    findLabel .dispatchHeader prog = some (dispatcherHeader state program
      ++ (pieces.flatten ++ dispatcherTail)) ∧
    findLabel .dispatchSelect prog = some ([.selectionMerge .dispatchAfterSwitch,
      .switch (.id 1) .dispatchDefault (switchCases state program),
      .label .dispatchDefault, .store .dispatchPc (.const uint32Max),
      .branch .dispatchAfterSwitch] ++ (pieces.flatten ++ dispatcherTail)) ∧
    findLabel .dispatchDefault prog = some ([.store .dispatchPc (.const uint32Max),
      .branch .dispatchAfterSwitch] ++ (pieces.flatten ++ dispatcherTail)) ∧
    findLabel .dispatchAfterSwitch prog = some [.branch .dispatchContinue,
      .label .dispatchContinue, .branch .dispatchHeader, .label .dispatchMerge, .ret] ∧
    findLabel .dispatchContinue prog = some [.branch .dispatchHeader, .label .dispatchMerge,
      .ret] ∧
    findLabel .dispatchMerge prog = some [.ret] := by
  have hother := fun {l : Label} (hl : ∀ b, l ≠ .block b) =>
    findLabel_pieces_other h hl dispatcherTail
  subst hprog
  refine ⟨by simp [dispatcherCode, dispatcherStart, findLabel],
    by simp [dispatcherCode, dispatcherStart, findLabel],
    by simp [dispatcherCode, dispatcherStart, dispatcherHeader, findLabel],
    by simp [dispatcherCode, dispatcherStart, dispatcherHeader, findLabel], ?_, ?_, ?_⟩ <;>
  · simp only [dispatcherCode, dispatcherStart, dispatcherHeader, findLabel, List.cons_append,
      List.nil_append, reduceCtorEq, if_false]
    rw [hother (by simp)]
    simp [dispatcherTail, findLabel]

/-- Where the blocks of the dispatcher function are. -/
theorem findLabel_dispatcherCode_block {b : ℕ} {blocks : List (Inst Label Variable ℕ)} :
    findLabel (.block b) (dispatcherCode state program blocks)
      = findLabel (.block b) (blocks ++ dispatcherTail) := by
  simp [dispatcherCode, dispatcherStart, dispatcherHeader, findLabel]

end Dispatcher

/-- A switch over ids goes to the block of its selector. -/
theorem lookup_block {cases : List (ℕ × Label)} {b : ℕ} (h : ∀ e ∈ cases, e.2 = .block e.1)
    (hb : ∃ e ∈ cases, e.1 = b) : cases.lookup b = some (.block b) := by
  induction cases with
  | nil => obtain ⟨e, he, -⟩ := hb; cases he
  | cons e cases ih =>
    by_cases heb : e.1 = b
    · have hlabel := h e List.mem_cons_self
      obtain ⟨k, l⟩ := e
      simp only at heb hlabel
      rw [heb] at hlabel
      rw [heb, hlabel, List.lookup_cons_self]
    · rw [List.lookup_cons, beq_eq_false_iff_ne.2 (Ne.symm heb)]
      refine ih (fun e he => h e (List.mem_cons_of_mem _ he)) ?_
      obtain ⟨e', he', rfl⟩ := hb
      rcases List.mem_cons.1 he' with rfl | he'
      · exact absurd rfl heb
      · exact ⟨e', he', rfl⟩

theorem mem_emittedBlocks_of_reachable (h : WellFormed named program) {b : ℕ}
    (hlt : b < program.blocks.length) (hreach : b ∈ computeReachableBlocks program) :
    program.blocks[b] ∈ emittedBlocks (.ofProgram mode named program) program :=
  mem_emittedBlocks.2 ⟨List.getElem_mem hlt,
    (h.ids b _ (List.getElem?_eq_getElem hlt)).symm ▸ hreach⟩

theorem lookup_switchCases (h : WellFormed named program) {b : ℕ}
    (hlt : b < program.blocks.length) (hreach : b ∈ computeReachableBlocks program) :
    (switchCases (.ofProgram mode named program) program).lookup b = some (.block b) := by
  refine lookup_block ?_ ?_
  · intro e he
    simp only [switchCases, List.mem_filterMap, Option.map_eq_some_iff] at he
    obtain ⟨block, -, label, hlabel, rfl⟩ := he
    rw [blockLabel_eq h] at hlabel
    split at hlabel
    · exact (Option.some.inj hlabel).symm
    · cases hlabel
  · have hid := h.ids b _ (List.getElem?_eq_getElem hlt)
    refine ⟨(b, .block b), List.mem_filterMap.2 ⟨program.blocks[b],
      mem_emittedBlocks_of_reachable h hlt hreach, ?_⟩, rfl⟩
    rw [hid, blockLabel_eq h, if_pos ⟨hlt, hreach⟩]
    rfl

/-- The ids of the emitted blocks are distinct. -/
theorem nodup_emittedBlocks (h : WellFormed named program) :
    ((emittedBlocks (.ofProgram mode named program) program).map Block.id).Nodup := by
  have hids : program.blocks.map Block.id = List.range program.blocks.length := by
    refine List.ext_getElem (by simp) fun i hi _ => ?_
    rw [List.getElem_map, List.getElem_range]
    exact h.ids i _ (List.getElem?_eq_getElem (by simpa using hi))
  exact (hids ▸ List.nodup_range).sublist (List.filter_sublist.map _)

/-- What the emitters rely on, at one emitted block. -/
theorem mask_mem_registers {reg : Register} (hreg : reg ∈ maskStateRegisters) :
    reg ∈ (EmitterState.ofProgram mode named program).registers :=
  mem_collectRegisters hreg

/-- The next block of a reachable one is reachable. -/
theorem nextBlock_reachable (h : WellFormed named program) {b b' : ℕ} {block : Block}
    {regs : Registers} (hblock : program.blocks[b]? = some block)
    (hreach : b ∈ computeReachableBlocks program)
    (hnext : nextBlock mode program regs block.terminator = some b') :
    b' < program.blocks.length ∧ b' ∈ computeReachableBlocks program := by
  unfold nextBlock Program.inRange at hnext
  rw [Option.filter_eq_some_iff, decide_eq_true_eq] at hnext
  obtain ⟨hselected, hlt⟩ := hnext
  have htarget : b' ∈ targets block.terminator := by
    unfold selectedTarget at hselected
    unfold targets
    cases hkind : block.terminator.kind with
    | branch => simp_all
    | conditionalBranch =>
      simp only [hkind, Option.some.injEq] at hselected ⊢
      rw [← hselected]
      by_cases hholds : mode.holds regs block.terminator.condition <;> simp [hholds]
    | indirectBranch =>
      simp only [hkind, Option.bind_eq_some_iff] at hselected
      obtain ⟨reg, -, hlookup⟩ := hselected
      obtain ⟨l₁, l₂, heq, -⟩ := List.lookup_eq_some_iff.1 hlookup
      simp [heq]
    | return_ => simp [hkind] at hselected
    | unsupported => simp [hkind] at hselected
  exact ⟨hlt, reachable_closed hreach hblock
    (h.successors _ (List.mem_of_getElem? hblock) b' htarget hlt) hlt⟩

/-- Where an execution of the function starts. -/
def start (prog : List (Inst Label Variable ℕ)) (env : Env) (vars : Variable → ℕ) (w : W) :
    Config Label Variable ℕ W :=
  ⟨(findLabel .entry prog).getD [], env, vars, w⟩

/-- What the executions of a dispatcher function read of its code. -/
structure IsDispatcher (mode : MaskMode) (named : List Register) (program : Program)
    (prog : List (Inst Label Variable ℕ)) : Prop where
  entry : ∃ rest, findLabel .entry prog
    = some ([.store .dispatchPc (.const 0)] ++ .branch .dispatchHeader :: rest)
  header : ∃ rest, findLabel .dispatchHeader prog
    = some (dispatcherHeader (.ofProgram mode named program) program ++ rest)
  select : ∃ rest, findLabel .dispatchSelect prog = some
    (.selectionMerge .dispatchAfterSwitch :: .switch (.id 1) .dispatchDefault
      (switchCases (.ofProgram mode named program) program) :: rest)
  default_ : ∃ rest, findLabel .dispatchDefault prog = some
    ([.store .dispatchPc (.const uint32Max)] ++ .branch .dispatchAfterSwitch :: rest)
  afterSwitch : ∃ rest, findLabel .dispatchAfterSwitch prog
    = some (.branch .dispatchContinue :: rest)
  continue_ : ∃ rest, findLabel .dispatchContinue prog = some (.branch .dispatchHeader :: rest)
  merge : findLabel .dispatchMerge prog = some [.ret]
  blocks : ∀ b < program.blocks.length, b ∈ computeReachableBlocks program →
    ∃ rest, findLabel (.block b) prog = some (.body b :: rest)

theorem IsDispatcher.ofPieces {R : Terminator → List (Inst Label Variable ℕ) → Prop}
    {pieces : List (List (Inst Label Variable ℕ))} {prog : List (Inst Label Variable ℕ)}
    (h : WellFormed named program)
    (hpieces : List.Forall₂ (IsBlockCode R)
      (emittedBlocks (.ofProgram mode named program) program) pieces)
    (hprog : prog = dispatcherCode (.ofProgram mode named program) program pieces.flatten) :
    IsDispatcher mode named program prog := by
  obtain ⟨hentry, hheader, hselect, hdefault, hafter, hcontinue, hmerge⟩ :=
    findLabel_dispatcherCode hpieces hprog
  refine ⟨⟨_, hentry⟩, ⟨_, hheader⟩, ⟨_, hselect⟩, ⟨_, hdefault⟩, ⟨_, hafter⟩, ⟨_, hcontinue⟩,
    hmerge, ?_⟩
  intro b hlt hreach
  obtain ⟨code, post, hfind, -⟩ := findLabel_pieces hpieces (nodup_emittedBlocks h)
    (mem_emittedBlocks_of_reachable h hlt hreach) dispatcherTail
  rw [h.ids b _ (List.getElem?_eq_getElem hlt)] at hfind
  exact ⟨_, by rw [hprog, findLabel_dispatcherCode_block]; exact hfind⟩

/-- The result ids of the header: the stored id, and whether it is the id of no
block. -/
def headerEnv (env : Env) (stored : ℕ) : Env :=
  Function.update (Function.update env 1 stored) 2 (word (stored = uint32Max))

namespace IsDispatcher

variable {prog : List (Inst Label Variable ℕ)} (hprog : IsDispatcher mode named program prog)
  {rest : List (Inst Label Variable ℕ)} {env : Env} {vars : Variable → ℕ} {w : W}

include hprog

/-- With the id of no block stored, the loop ends. -/
theorem exit (hstored : vars .dispatchPc = uint32Max) :
    Silent prog ⟨.branch .dispatchHeader :: rest, env, vars, w⟩
      ⟨[.ret], headerEnv env uint32Max, vars, w⟩ := by
  obtain ⟨restHeader, hheader⟩ := hprog.header
  let after := (dispatcherHeader (.ofProgram mode named program) program).drop 3 ++ restHeader
  have hload : Silent prog
      ⟨[.load 1 .dispatchPc, .iEqual 2 (.id 1) (.const uint32Max),
        .loopMerge .dispatchMerge .dispatchContinue] ++ after, env, vars, w⟩
      ⟨after, headerEnv env uint32Max, vars, w⟩ :=
    .ops (by simp [headerEnv, Inst.step, hstored])
  refine (Silent.branch hheader).trans (hload.trans (Silent.branchConditional ?_))
  simpa [headerEnv] using hprog.merge

/-- With another id stored, the loop goes to the switch and to what it selects. -/
theorem dispatch {stored : ℕ} {target : List (Inst Label Variable ℕ)}
    (hstored : vars .dispatchPc = stored) (hne : stored ≠ uint32Max)
    (htarget : findLabel (((switchCases (.ofProgram mode named program) program).lookup
      stored).getD .dispatchDefault) prog = some target) :
    Silent prog ⟨.branch .dispatchHeader :: rest, env, vars, w⟩
      ⟨target, headerEnv env stored, vars, w⟩ := by
  obtain ⟨restHeader, hheader⟩ := hprog.header
  obtain ⟨restSelect, hselect⟩ := hprog.select
  let after := (dispatcherHeader (.ofProgram mode named program) program).drop 3 ++ restHeader
  have hload : Silent prog
      ⟨[.load 1 .dispatchPc, .iEqual 2 (.id 1) (.const uint32Max),
        .loopMerge .dispatchMerge .dispatchContinue] ++ after, env, vars, w⟩
      ⟨after, headerEnv env stored, vars, w⟩ :=
    .ops (by simp [headerEnv, Inst.step, hstored])
  have hjump : Silent prog
      ⟨.branchConditional (.id 2) .dispatchMerge .dispatchSelect :: after.tail,
        headerEnv env stored, vars, w⟩
      ⟨_, headerEnv env stored, vars, w⟩ :=
    .branchConditional (by simpa [headerEnv, hne] using hselect)
  let switch : Inst Label Variable ℕ :=
    .switch (.id 1) .dispatchDefault (switchCases (.ofProgram mode named program) program)
  have hmerge : Silent prog
      ⟨[.selectionMerge .dispatchAfterSwitch] ++ switch :: restSelect, headerEnv env stored, vars, w⟩
      ⟨switch :: restSelect, headerEnv env stored, vars, w⟩ := .ops rfl
  have hswitch : Silent prog ⟨switch :: restSelect, headerEnv env stored, vars, w⟩
      ⟨target, headerEnv env stored, vars, w⟩ :=
    .switch (by simpa [headerEnv] using htarget)
  exact (Silent.branch hheader).trans (hload.trans (hjump.trans (hmerge.trans hswitch)))

/-- **The dispatcher's loop.** It goes from its header to the stored block, or ends
when none is stored. -/
theorem arrives (h : WellFormed named program) {c : Config Label Variable ℕ W} {next : Option ℕ}
    (hc : Silent prog c ⟨.branch .dispatchHeader :: rest, env, vars, w⟩)
    (hstored : vars .dispatchPc = encode next)
    (hnext : ∀ b, next = some b →
      b < program.blocks.length ∧ b ∈ computeReachableBlocks program) :
    Arrives prog program c next (registersOf vars) w := by
  cases next with
  | none => exact ⟨[], headerEnv env uint32Max, vars, hc.trans (hprog.exit hstored)⟩
  | some b =>
    obtain ⟨hlt, hreach⟩ := hnext b rfl
    obtain ⟨restBlock, hblock⟩ := hprog.blocks b hlt hreach
    have hne : b ≠ uint32Max := Nat.ne_of_lt (Nat.lt_of_lt_of_le hlt h.small)
    refine ⟨hreach, hlt, restBlock, headerEnv env b, vars, hblock,
      hc.trans (hprog.dispatch hstored hne ?_), rfl⟩
    rw [lookup_switchCases h hlt hreach]
    exact hblock

/-- The loop starts at block 0; without blocks the switch takes its default, which
stores the id of no block. -/
theorem arrives_start (h : WellFormed named program) :
    Arrives prog program (start prog env vars w) (program.inRange (some 0)) (registersOf vars)
      w := by
  obtain ⟨restEntry, hentry⟩ := hprog.entry
  have hstart : Silent prog (start prog env vars w)
      ⟨.branch .dispatchHeader :: restEntry, env, Function.update vars .dispatchPc 0, w⟩ := by
    unfold start
    rw [hentry]
    exact Silent.ops rfl
  rw [Program.inRange_some]
  split
  · next hlt =>
    rw [← registersOf_update vars 0]
    refine hprog.arrives h hstart (Function.update_self _ _ _) ?_
    rintro b ⟨⟩
    exact ⟨hlt, zero_mem_reachable hlt⟩
  · next hempty =>
    obtain ⟨restDefault, hdefault⟩ := hprog.default_
    obtain ⟨restAfter, hafter⟩ := hprog.afterSwitch
    obtain ⟨restContinue, hcontinue⟩ := hprog.continue_
    have hnil : program.blocks = [] := List.eq_nil_of_length_eq_zero (by omega)
    let default : List (Inst Label Variable ℕ) := .branch .dispatchAfterSwitch :: restDefault
    have hdispatch : Silent prog
        ⟨.branch .dispatchHeader :: restEntry, env, Function.update vars .dispatchPc 0, w⟩
        ⟨[.store .dispatchPc (.const uint32Max)] ++ default, headerEnv env 0,
          Function.update vars .dispatchPc 0, w⟩ :=
      hprog.dispatch (Function.update_self _ _ _) (by decide)
        (by simpa [switchCases, emittedBlocks, hnil] using hdefault)
    have hstore : Silent prog
        ⟨[.store .dispatchPc (.const uint32Max)] ++ default, headerEnv env 0,
          Function.update vars .dispatchPc 0, w⟩
        ⟨default, headerEnv env 0,
          Function.update (Function.update vars .dispatchPc 0) .dispatchPc uint32Max, w⟩ :=
      .ops rfl
    have hloop := ((hstart.trans hdispatch).trans hstore).trans
      ((Silent.branch hafter).trans (Silent.branch hcontinue))
    exact ⟨[], _, _, hloop.trans (hprog.exit (Function.update_self _ _ _))⟩

end IsDispatcher

/-- **The dispatcher function.** Its blocks arrive where the program goes, and it
starts where the program starts. -/
theorem dispatcher_layout (h : WellFormed named program)
    (hfallback : program.dispatcherFallback = true) :
    Layout (functionCode (.ofProgram mode named program) program) mode program ∧
      ∀ env vars (w : W), Arrives (functionCode (.ofProgram mode named program) program) program
        (start (functionCode (.ofProgram mode named program) program) env vars w)
        (program.inRange (some 0)) (registersOf vars) w := by
  have hleaves := fun (prog after : List (Inst Label Variable ℕ))
      (hafter : findLabel .dispatchAfterSwitch prog = some after)
      (block : Block) (hblock : block ∈ emittedBlocks (.ofProgram mode named program) program)
      (n : ℕ) => Leaves.emits (n := n) fun env vars =>
    leaves_dispatcherTerminator hafter
      (fun _ => mask_mem_registers) (labelsTargets h hblock)
      (h.tables block (mem_emittedBlocks.1 hblock).1)
      (h.registers block (mem_emittedBlocks.1 hblock).1)
  -- where the labels are, from any emission of the blocks
  have hprog : IsDispatcher mode named program
      (functionCode (.ofProgram mode named program) program) := by
    obtain ⟨pieces, hpieces, hcode⟩ := functionCode_dispatcher (R := fun _ _ => True) hfallback
      fun block hblock n => (hleaves [.label .dispatchAfterSwitch] [] rfl block hblock n).mono
        fun _ _ _ _ hcode => ⟨hcode.1, trivial⟩
    exact .ofPieces h hpieces hcode
  refine ⟨?_, fun env vars w => ?_⟩
  · -- what the blocks do, now that it is known where they go
    obtain ⟨restAfter, hafter⟩ := hprog.afterSwitch
    obtain ⟨restContinue, hcontinue⟩ := hprog.continue_
    obtain ⟨pieces, hpieces, hcode⟩ := functionCode_dispatcher hfallback
      (R := fun term => Leaves.Code (functionCode (.ofProgram mode named program) program)
        fun vars target vars' => target = .branch .dispatchContinue :: restAfter ∧
          vars' = Function.update vars .dispatchPc
            (encode (nextBlock mode program (registersOf vars) term)))
      fun block hblock n => hleaves _ _ hafter block hblock n
    intro b block rest hblock hreach hfind W env vars w
    obtain ⟨hlt, hget⟩ := List.getElem?_eq_some_iff.1 hblock
    obtain ⟨code, post, hfind', hleave⟩ := findLabel_pieces hpieces (nodup_emittedBlocks h)
      (mem_emittedBlocks_of_reachable h hlt hreach) dispatcherTail
    rw [h.ids b _ (List.getElem?_eq_getElem hlt), ← findLabel_dispatcherCode_block, ← hcode,
      hfind] at hfind'
    obtain rfl : rest = code ++ post := by simpa using hfind'
    rw [hget] at hleave
    obtain ⟨target, env', vars', ⟨rfl, rfl⟩, hrun⟩ := hleave env vars post
    have harrives := hprog.arrives h ((hrun W w).trans (Silent.branch hcontinue))
      (Function.update_self _ _ _) fun b' hb' => nextBlock_reachable h hblock hreach hb'
    rwa [registersOf_update] at harrives
  · exact hprog.arrives_start h

/-! ### The structured function -/

/-- The code before the first block. -/
def structuredStart (state : EmitterState) : List (Inst Label Variable ℕ) :=
  [.label .entry, match blockLabel state 0 with
    | some label => .branch label
    | none => .ret]

theorem functionCode_structured {state : EmitterState}
    {R : Terminator → List (Inst Label Variable ℕ) → Prop}
    (hfallback : program.dispatcherFallback = false)
    (h : ∀ block ∈ emittedBlocks state program, ∀ n,
      Emits (emitTerminator state block.terminator) n fun _ is _ =>
        labels is = [] ∧ R block.terminator is) :
    ∃ pieces, List.Forall₂ (IsBlockCode R) (emittedBlocks state program) pieces ∧
      functionCode state program = structuredStart state ++ pieces.flatten := by
  obtain ⟨⟨⟩, is, n', hblocks, -, pieces, rfl, hpieces⟩ :=
    Emits.forM (g := emitBlock (emitTerminator state))
      (fun block hblock n => emits_block (h block hblock)) 1 (structuredStart state)
  refine ⟨pieces, hpieces, ?_⟩
  unfold functionCode emitFunction emitStructuredFunction
  rw [hfallback]
  unfold structuredStart at hblocks ⊢
  cases hlabel : blockLabel state 0 with
  | some label =>
    rw [hlabel] at hblocks
    change (((emittedBlocks state program).forM (emitBlock (emitTerminator state)))
      ⟨1, [.label .entry, .branch label]⟩).2.code = _
    rw [hblocks]
  | none =>
    rw [hlabel] at hblocks
    change (((emittedBlocks state program).forM (emitBlock (emitTerminator state)))
      ⟨1, [.label .entry, .ret]⟩).2.code = _
    rw [hblocks]

/-- Where the blocks of the structured function are. -/
theorem findLabel_structured_block {state : EmitterState} {b : ℕ}
    {blocks : List (Inst Label Variable ℕ)} :
    findLabel (.block b) (structuredStart state ++ blocks) = findLabel (.block b) blocks := by
  unfold structuredStart
  split <;> simp [findLabel]

/-- **The structured function.** Its blocks arrive where the program goes, and it
starts where the program starts. -/
theorem structured_layout (h : WellFormed named program) (hs : Structurable program)
    (hfallback : program.dispatcherFallback = false) :
    Layout (functionCode (.ofProgram mode named program) program) mode program ∧
      ∀ env vars (w : W), Arrives (functionCode (.ofProgram mode named program) program) program
        (start (functionCode (.ofProgram mode named program) program) env vars w)
        (program.inRange (some 0)) (registersOf vars) w := by
  have hleaves := fun (prog : List (Inst Label Variable ℕ))
      (hblocks : ∀ b < program.blocks.length, b ∈ computeReachableBlocks program →
        ∃ target, findLabel (.block b) prog = some target)
      (block : Block) (hblock : block ∈ emittedBlocks (.ofProgram mode named program) program)
      (n : ℕ) => Leaves.emits (n := n) fun env vars =>
    leaves_terminator (fun _ => mask_mem_registers) (labelsTargets h hblock)
      (fun t ht hlt => hblocks t hlt (by
        have := labelsTargets h hblock t ht
        rw [blockLabel_eq h, if_pos hlt] at this
        by_contra hreach
        rw [if_neg (fun hc => hreach hc.2)] at this
        cases this))
      (hs.direct block (mem_emittedBlocks.1 hblock).1)
      (hs.twoSided block (mem_emittedBlocks.1 hblock).1)
  -- where the blocks are, from any emission of them
  have hblocks : ∀ b < program.blocks.length, b ∈ computeReachableBlocks program →
      ∃ rest, findLabel (.block b) (functionCode (.ofProgram mode named program) program)
        = some (.body b :: rest) := by
    -- any code that defines the labels will do to see that the terminators emit none
    let someCode : List (Inst Label Variable ℕ) :=
      (List.range program.blocks.length).map fun b => .label (.block b)
    have hsome : ∀ b < program.blocks.length, b ∈ computeReachableBlocks program →
        ∃ target, findLabel (.block b) someCode = some target := fun b hlt _ =>
      findLabel_of_mem (List.mem_map.2 ⟨b, List.mem_range.2 hlt, rfl⟩)
    obtain ⟨pieces, hpieces, hcode⟩ := functionCode_structured (R := fun _ _ => True) hfallback
      fun block hblock n => (hleaves someCode hsome block hblock n).mono
        fun _ _ _ _ hcode => ⟨hcode.1, trivial⟩
    intro b hlt hreach
    obtain ⟨code, post, hfind, -⟩ := findLabel_pieces hpieces (nodup_emittedBlocks h)
      (mem_emittedBlocks_of_reachable h hlt hreach) []
    rw [h.ids b _ (List.getElem?_eq_getElem hlt), List.append_nil] at hfind
    exact ⟨_, by rw [hcode, findLabel_structured_block]; exact hfind⟩
  have harrives : ∀ (W : Type) {c : Config Label Variable ℕ W} {next : Option ℕ}
      {target : List (Inst Label Variable ℕ)} {env : Env} {vars : Variable → ℕ} {w : W},
      Silent (functionCode (.ofProgram mode named program) program) c ⟨target, env, vars, w⟩ →
      GoesTo (functionCode (.ofProgram mode named program) program) next target →
      (∀ b, next = some b → b < program.blocks.length ∧ b ∈ computeReachableBlocks program) →
      Arrives (functionCode (.ofProgram mode named program) program) program c next
        (registersOf vars) w := by
    intro W c next target env vars w hc hgoes hnext
    cases next with
    | none =>
      obtain ⟨rest, rfl⟩ := hgoes
      exact ⟨rest, env, vars, hc⟩
    | some b =>
      obtain ⟨hlt, hreach⟩ := hnext b rfl
      obtain ⟨rest, hfind⟩ := hblocks b hlt hreach
      obtain rfl : target = .body b :: rest := by
        have := hgoes.symm.trans hfind
        simpa using this
      exact ⟨hreach, hlt, rest, env, vars, hfind, hc, rfl⟩
  obtain ⟨pieces, hpieces, hcode⟩ := functionCode_structured hfallback
    (R := fun term => Leaves.Code (functionCode (.ofProgram mode named program) program)
      fun vars target vars' => GoesTo (functionCode (.ofProgram mode named program) program)
        (nextBlock mode program (registersOf vars) term) target ∧ vars' = vars)
    fun block hblock n => hleaves _
      (fun b hlt hreach => (hblocks b hlt hreach).elim fun rest hrest => ⟨_, hrest⟩)
      block hblock n
  refine ⟨?_, fun env vars w => ?_⟩
  · intro b block rest hblock hreach hfind W env vars w
    obtain ⟨hlt, hget⟩ := List.getElem?_eq_some_iff.1 hblock
    obtain ⟨code, post, hfind', hleave⟩ := findLabel_pieces hpieces (nodup_emittedBlocks h)
      (mem_emittedBlocks_of_reachable h hlt hreach) []
    rw [h.ids b _ (List.getElem?_eq_getElem hlt), List.append_nil,
      ← findLabel_structured_block, ← hcode, hfind] at hfind'
    obtain rfl : rest = code ++ post := by simpa using hfind'
    rw [hget] at hleave
    obtain ⟨target, env', vars', ⟨hgoes, rfl⟩, hrun⟩ := hleave env vars post
    exact harrives W (hrun W w) hgoes fun b' hb' => nextBlock_reachable h hblock hreach hb'
  · have hentry : findLabel .entry (functionCode (.ofProgram mode named program) program)
        = some ((structuredStart (.ofProgram mode named program)).tail ++ pieces.flatten) := by
      rw [hcode]
      simp [structuredStart, findLabel]
    unfold start
    rw [hentry]
    unfold structuredStart
    rw [blockLabel_eq h, Program.inRange_some]
    by_cases hlt : 0 < program.blocks.length
    · have hreach := zero_mem_reachable hlt
      obtain ⟨rest, hfind⟩ := hblocks 0 hlt hreach
      rw [if_pos ⟨hlt, hreach⟩, if_pos hlt]
      refine harrives W (Silent.branch hfind) hfind ?_
      rintro b ⟨⟩
      exact ⟨hlt, hreach⟩
    · rw [if_neg (fun hc => hlt hc.1), if_neg hlt]
      exact ⟨pieces.flatten, env, vars, .refl _⟩

/-! ### The result -/

/-- **Both emissions run the program.** Emitted through the dispatcher, or with
structured terminators when every branch is direct and two-sided, the function
executes the blocks of the program's paths, and ends when they end. -/
theorem emitted_function_runs_program (mode : MaskMode) {named : List Register}
    {program : Program} (h : WellFormed named program)
    (hmode : program.dispatcherFallback = true ∨ Structurable program) {W : Type}
    (effect : ℕ → Registers × W → Registers × W → Prop) (env : Env) (vars : Variable → ℕ)
    (w : W) (tr : List ℕ) (fin : Bool) :
    Exec (functionCode (.ofProgram mode named program) program) (onVariables effect)
        (start (functionCode (.ofProgram mode named program) program) env vars w) tr fin ↔
      Path mode program effect (program.inRange (some 0)) (registersOf vars, w) tr fin := by
  cases hfallback : program.dispatcherFallback with
  | true =>
    obtain ⟨hlayout, hstart⟩ := dispatcher_layout h hfallback
    exact exec_iff_path hlayout (hstart env vars w)
  | false =>
    have hs := hmode.resolve_left (by simp [hfallback])
    obtain ⟨hlayout, hstart⟩ := structured_layout h hs hfallback
    exact exec_iff_path hlayout (hstart env vars w)

/-! ### Programs the emissions do not run -/

/-- Bodies that change nothing. -/
def idle (_ : ℕ) (s s' : Registers × Unit) : Prop := s' = s

theorem onVariables_idle (b : ℕ) (m m' : (Variable → ℕ) × Unit) :
    onVariables idle b m m' ↔ m' = m := by
  constructor
  · rintro ⟨hregs, hpc⟩
    refine Prod.ext (funext fun v => ?_) rfl
    cases v with
    | register reg => exact congrFun (congrArg Prod.fst hregs) reg
    | dispatchPc => exact hpc
  · rintro rfl
    exact ⟨rfl, rfl⟩

/-- A wave of 64 with exact subgroup operations. -/
def wave64 : MaskMode := ⟨64, false, true⟩

/-- A branch to block 1, which the successor list leaves out. -/
def unlistedTarget : Program where
  dispatcherFallback := true
  blocks := [
    { id := 0, successors := [], terminator := { kind := .branch, trueBlock := 1 } },
    { id := 1, successors := [], terminator := {} }]

/-- A jump through `s8`, which no instruction names. -/
def unnamedRegister : Program where
  dispatcherFallback := true
  blocks := [
    { id := 0
      successors := [1]
      terminator := { kind := .indirectBranch, indirectPcSgpr := 8, indirectTargetPcs := [0],
                      indirectTargets := [1] } },
    { id := 1, successors := [], terminator := {} }]

/-- A conditional branch with one target. -/
def oneSided : Program where
  dispatcherFallback := false
  blocks := [
    { id := 0
      successors := [1]
      terminator := { kind := .conditionalBranch, condition := .sccZero, trueBlock := 1 } },
    { id := 1, successors := [], terminator := {} }]

/-- The state a program is emitted in, given its reachable blocks. -/
theorem ofProgram_eq {mode : MaskMode} {program : Program} {reachable : Finset ℕ}
    (h : computeReachableBlocks program = reachable) :
    EmitterState.ofProgram mode [] program = ⟨mode, maskStateRegisters, reachable,
      allocateBlockLabels reachable program⟩ := by
  unfold EmitterState.ofProgram
  rw [h]
  rfl

theorem reachable_unlistedTarget : computeReachableBlocks unlistedTarget = {0} := by
  simp [computeReachableBlocks, unlistedTarget, search]

theorem reachable_unnamedRegister : computeReachableBlocks unnamedRegister = {1, 0} := by
  simp [computeReachableBlocks, unnamedRegister, search]

theorem reachable_oneSided : computeReachableBlocks oneSided = {1, 0} := by
  simp [computeReachableBlocks, oneSided, search]

/-- The three programs go from block 0 to block 1, but their emissions return after
block 0: a block that the successor lists do not reach has no label, a register that
no instruction names has no variable, and a structured conditional branch with one
target returns. -/
theorem emission_stops_early :
    (∀ program ∈ [unlistedTarget, unnamedRegister, oneSided],
      Path wave64 program idle (program.inRange (some 0)) (fun _ => 0, ()) [0, 1] true) ∧
    ∀ program ∈ [unlistedTarget, unnamedRegister, oneSided],
      ¬Exec (functionCode (.ofProgram wave64 [] program) program) (onVariables idle)
        (start (functionCode (.ofProgram wave64 [] program) program) (fun _ => 0) (fun _ => 0) ())
        [0, 1] true := by
  have hpath : ∀ program : Program, ∀ block₀ block₁,
      program.blocks = [block₀, block₁] →
      nextBlock wave64 program (fun _ => 0) block₀.terminator = some 1 →
      nextBlock wave64 program (fun _ => 0) block₁.terminator = none →
      Path wave64 program idle (program.inRange (some 0)) (fun _ => 0, ()) [0, 1] true := by
    intro program block₀ block₁ hblocks h₀ h₁
    rw [Program.inRange_some, if_pos (by rw [hblocks]; exact Nat.succ_pos 1)]
    refine .block (by rw [hblocks]; rfl) (rfl : idle _ _ (fun _ => 0, ())) ?_
    rw [h₀]
    refine .block (by rw [hblocks]; rfl) (rfl : idle _ _ (fun _ => 0, ())) ?_
    rw [h₁]
    exact .ended _
  have hexec : ∀ program : Program,
      idleTrace (functionCode (.ofProgram wave64 [] program) program) 20 3
        (start (functionCode (.ofProgram wave64 [] program) program) (fun _ => 0) (fun _ => 0) ())
        = some [0] →
      ¬Exec (functionCode (.ofProgram wave64 [] program) program) (onVariables idle)
        (start (functionCode (.ofProgram wave64 [] program) program) (fun _ => 0) (fun _ => 0) ())
        [0, 1] true := by
    intro program htrace h
    rw [exec_idle_iff onVariables_idle htrace] at h
    cases h
  simp only [List.forall_mem_cons, List.not_mem_nil, false_imp_iff, implies_true, and_true]
  refine ⟨⟨?_, ?_, ?_⟩, hexec _ ?_, hexec _ ?_, hexec _ ?_⟩
  · exact hpath _ _ _ rfl (by decide) (by decide)
  · exact hpath _ _ _ rfl (by decide) (by decide)
  · exact hpath _ _ _ rfl (by decide) (by decide)
  · rw [ofProgram_eq reachable_unlistedTarget]
    decide +kernel
  · rw [ofProgram_eq reachable_unnamedRegister]
    decide +kernel
  · rw [ofProgram_eq reachable_oneSided]
    decide +kernel

/-- A loop that leaves for a table jump. -/
def tableJump : Program where
  dispatcherFallback := true
  blocks := [
    { id := 0
      successors := [0, 1]
      terminator := { kind := .conditionalBranch, condition := .execNonZero, trueBlock := 0,
                      falseBlock := 1 } },
    { id := 1
      successors := [0, 2]
      terminator := { kind := .indirectBranch, indirectPcSgpr := 8, indirectTargetPcs := [4, 0],
                      indirectTargets := [0, 2] } },
    { id := 2, successors := [], terminator := {} }]

theorem wellFormed_tableJump : WellFormed [⟨.scalar, 8⟩] tableJump where
  ids := by
    intro i block h
    rcases i with _ | _ | _ | i <;> simp [tableJump] at h <;> rw [← h]
  small := by decide
  successors := by decide
  tables := by decide
  registers := by
    intro block hblock hkind reg hreg
    have hreg' : reg = ⟨.scalar, 8⟩ := by
      simp only [tableJump, List.mem_cons, List.not_mem_nil, or_false] at hblock
      rcases hblock with rfl | rfl | rfl <;> simp_all [indirectRegister, uint32Max]
    rw [hreg']
    decide

/-- The theorem at the table jump: with EXEC zero and `s8` zero the function executes
blocks 0, 1 and 2 and returns. -/
theorem emitted_tableJump_runs :
    Exec (functionCode (.ofProgram wave64 [⟨.scalar, 8⟩] tableJump) tableJump) (onVariables idle)
      (start (functionCode (.ofProgram wave64 [⟨.scalar, 8⟩] tableJump) tableJump) (fun _ => 0)
        (fun _ => 0) ()) [0, 1, 2] true := by
  rw [emitted_function_runs_program wave64 wellFormed_tableJump (.inl rfl)]
  have hidle : ∀ b, idle b (fun _ => 0, ()) (fun _ => 0, ()) := fun _ => rfl
  exact .block rfl (hidle _) (.block rfl (hidle _) (.block rfl (hidle _) (.ended _)))

end Prosperismo.Emitter
