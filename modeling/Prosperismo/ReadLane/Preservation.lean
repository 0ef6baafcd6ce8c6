import Prosperismo.ReadLane.Analysis

/-!
# `EliminateReadLane` preserves the runs

A wave has vector registers with a value for each lane, and scalar registers. The instructions that
the pass writes and replaces have the meaning that the emitter gives them (`exec`); the others are a
parameter (`Semantics`), of which the pass relies on the registers that they name (`Lawful`).

The two programs are run side by side. Their waves differ in the temporaries alone (`Wave.Same`),
and a temporary holds the lane that it stands for wherever the sweeps say that the lane is valid
(`Linked`). `eliminateReadLane_preserves` is the result.
-/

namespace Prosperismo.ReadLane

/-! ### Execution -/

/-- What a wave holds; `rest` is its memory. -/
structure Wave (ρ : Type) where
  vector : ℕ → ℕ → BitVec 32
  scalar : ℕ → BitVec 32
  special : RegisterFile → ℕ → BitVec 32
  rest : ρ

variable {ρ : Type}

/-- `EmitValueLoad`: the value of an operand, lane by lane. -/
def Operand.value (wave : Wave ρ) : Operand → ℕ → BitVec 32
  | .immediateU32 imm, _ => imm
  | .pcRelativeU32 imm, _ => imm
  | .register .vector index, lane => wave.vector index lane
  | .register .scalar index, _ => wave.scalar index
  | .register file index, _ => wave.special file index
  | .null, _ => 0

/-- What the rest of the emitter does: `EmitStoreU32`, the other instructions, and the ends of the
blocks. -/
structure Semantics (ρ : Type) where
  store : Operand → (ℕ → BitVec 32) → Wave ρ → Wave ρ
  other : Instruction → Wave ρ → Wave ρ
  branch : ℕ → Wave ρ → ℕ → Prop

variable (sem : Semantics ρ)

/-- An instruction: `EmitMoveU32`, `EmitReadLaneU32`, `EmitWriteLaneU32`, or another one. A write of
a lane does not look at the active lanes. -/
def exec (waveSize : ℕ) (inst : Instruction) (wave : Wave ρ) : Wave ρ :=
  let src i := (inst.src.getD i .null).value wave
  match inst.op, inst.dst with
  | .moveU32, dst => sem.store dst (src 0) wave
  | .readLaneU32, dst => sem.store dst (fun lane => src 0 ((src 1 lane).toNat % waveSize)) wave
  | .writeLaneU32, .register .vector reg =>
    { wave with vector := Function.update wave.vector reg fun lane =>
        if lane = (src 1 lane).toNat % waveSize then src 0 lane else wave.vector reg lane }
  | _, _ => sem.other inst wave

/-- Instructions, one after the other. -/
def execAll (waveSize : ℕ) (instructions : List Instruction) (wave : Wave ρ) : Wave ρ :=
  instructions.foldl (fun wave inst => exec sem waveSize inst wave) wave

/-- The runs of a program: the waves with which they enter blocks. -/
inductive Run (program : Program) (start : Wave ρ) : ℕ → Wave ρ → Prop
  | start : Run program start 0 start
  | step {block next : ℕ} {basicBlock : BasicBlock} {wave : Wave ρ} :
      Run program start block wave → program.blocks[block]? = some basicBlock →
      sem.branch block (execAll sem program.waveSize basicBlock.instructions wave) next →
      Run program start next (execAll sem program.waveSize basicBlock.instructions wave)

/-! ### What the pass relies on -/

/-- A scalar register that the pass may use. -/
def IsTemporary (program : Program) (index : ℕ) : Prop :=
  nextTemporaryScalarRegister program ≤ index ∧ index < uint32Max

/-- Two waves differ in temporaries alone. -/
structure Wave.Same (program : Program) (wave wave' : Wave ρ) : Prop where
  vector : wave.vector = wave'.vector
  scalar : ∀ index, ¬ IsTemporary program index → wave.scalar index = wave'.scalar index
  special : wave.special = wave'.special
  rest : wave.rest = wave'.rest

/-- The instructions change the registers that they name, and neither they nor the ends of the
blocks look at scalar registers that the program does not name. -/
structure Lawful (program : Program) : Prop where
  /-- A store to a scalar register. -/
  store_scalar : ∀ index value wave, sem.store (.register .scalar index) (fun _ => value) wave =
    { wave with scalar := Function.update wave.scalar index value }
  /-- A store changes no vector register but its destination. -/
  store_vector : ∀ dst values wave reg, dst ≠ .register .vector reg →
    (sem.store dst values wave).vector reg = wave.vector reg
  /-- A store to another place has nothing to do with the temporaries. -/
  store_same : ∀ dst values wave wave', (∀ index, IsTemporary program index →
    dst ≠ .register .scalar index) → wave.Same program wave' →
    (sem.store dst values wave).Same program (sem.store dst values wave') ∧
      ∀ index, IsTemporary program index →
        (sem.store dst values wave').scalar index = wave'.scalar index
  /-- The other instructions change no vector register but those that they name. -/
  other_vector : ∀ inst ∈ program.instructions, ∀ wave reg, ¬ Clobbers inst reg →
    (sem.other inst wave).vector reg = wave.vector reg
  /-- The other instructions have nothing to do with the temporaries. -/
  other_same : ∀ inst ∈ program.instructions, ∀ wave wave', wave.Same program wave' →
    (sem.other inst wave).Same program (sem.other inst wave') ∧
      ∀ index, IsTemporary program index →
        (sem.other inst wave').scalar index = wave'.scalar index
  /-- The ends of the blocks do not look at the temporaries. -/
  branch_same : ∀ block next wave wave', wave.Same program wave' →
    (sem.branch block wave next ↔ sem.branch block wave' next)
  /-- A block knows its predecessors. -/
  branch_predecessors : ∀ block next wave, sem.branch block wave next →
    ∃ basicBlock, program.blocks[next]? = some basicBlock ∧ block ∈ basicBlock.predecessors

/-- The provenance is right about lanes: a selector that it folds has that value. -/
def ProvenanceHolds (program : Program) (start : Wave ρ) : Prop :=
  ∀ block wave, Run sem program start block wave → ∀ basicBlock before inst after selector folded,
    program.blocks[block]? = some basicBlock → basicBlock.instructions = before ++ inst :: after →
    inst.src[1]? = some selector →
    foldScalarConstant program.values (inst.scalarSources.getD 1 0) = some folded →
    ∀ lane, selector.value (execAll sem program.waveSize before wave) lane = folded

variable {sem} {program : Program}

/-! ### Temporaries -/

theorem le_consider (next : ℕ) (operand : Operand) : next ≤ consider next operand := by
  unfold consider
  split
  · split_ifs with h
    · exact Nat.le_succ_of_le h.1
    · exact le_rfl
  · exact le_rfl

theorem lt_consider {next index : ℕ} (hindex : index ≠ uint32Max) :
    index < consider next (.register .scalar index) := by
  unfold consider
  dsimp only
  split_ifs with h
  · exact Nat.lt_succ_self index
  · exact Nat.lt_of_not_le fun hle => h ⟨hle, hindex⟩

theorem le_foldl_consider (operands : List Operand) (next : ℕ) :
    next ≤ operands.foldl consider next := by
  induction operands generalizing next with
  | nil => exact le_rfl
  | cons operand operands ih => exact (le_consider next operand).trans (ih _)

theorem lt_foldl_consider {operands : List Operand} {next index : ℕ} (hindex : index ≠ uint32Max)
    (hmem : .register .scalar index ∈ operands) : index < operands.foldl consider next := by
  induction operands generalizing next with
  | nil => exact absurd hmem List.not_mem_nil
  | cons operand operands ih =>
    rcases List.mem_cons.1 hmem with rfl | hmem
    · exact (lt_consider hindex).trans_le (le_foldl_consider operands _)
    · exact ih hmem

/-- **The temporaries are new**: no instruction names one. -/
theorem not_isTemporary {inst : Instruction} (hinst : inst ∈ program.instructions) {index : ℕ}
    (hmem : .register .scalar index ∈ inst.dst :: inst.dst2 :: inst.src) :
    ¬ IsTemporary program index := by
  rintro ⟨hle, hlt⟩
  have hmore : ∀ (instructions : List Instruction) (next : ℕ),
      next ≤ instructions.foldl (fun next inst =>
        (inst.dst :: inst.dst2 :: inst.src).foldl consider next) next := by
    intro instructions
    induction instructions with
    | nil => exact fun _ => le_rfl
    | cons first instructions ih => exact fun next => (le_foldl_consider _ next).trans (ih _)
  have hbelow : ∀ (instructions : List Instruction) (next : ℕ), inst ∈ instructions →
      index < instructions.foldl (fun next inst =>
        (inst.dst :: inst.dst2 :: inst.src).foldl consider next) next := by
    intro instructions
    induction instructions with
    | nil => exact fun _ h => absurd h List.not_mem_nil
    | cons first instructions ih =>
      intro next h
      rw [List.foldl_cons]
      rcases List.mem_cons.1 h with rfl | h
      · have hfirst : index < (inst.dst :: inst.dst2 :: inst.src).foldl consider next :=
          lt_foldl_consider hlt.ne hmem
        exact hfirst.trans_le (hmore instructions _)
      · exact ih _ h
  exact absurd (hbelow program.instructions firstTemporaryScalarRegister hinst) (Nat.not_lt.2 hle)

/-- A lane comes before another one, or after it. -/
theorem LaneKey.before_or (key key' : LaneKey) :
    key.before key' ∨ key = key' ∨ key'.before key := by
  rcases key with ⟨reg, lane⟩
  rcases key' with ⟨reg', lane'⟩
  unfold LaneKey.before
  rw [LaneKey.mk.injEq]
  dsimp only
  omega

theorem LaneKey.before_trans {key key' key'' : LaneKey} (h : key.before key')
    (h' : key'.before key'') : key.before key'' := by
  unfold LaneKey.before at h h' ⊢
  omega

theorem LaneKey.not_before_self (key : LaneKey) : ¬ key.before key := by
  unfold LaneKey.before
  omega

/-- The numbers of lanes follow their order. -/
theorem card_before_lt {lanes : LaneSet} {key key' : LaneKey} (hkey : key ∈ lanes)
    (h : key.before key') :
    (lanes.filter (·.before key)).card < (lanes.filter (·.before key')).card := by
  refine Finset.card_lt_card (Finset.ssubset_iff_of_subset ?_ |>.2 ⟨key, ?_, ?_⟩)
  · intro other hother
    obtain ⟨hmem, hbefore⟩ := Finset.mem_filter.1 hother
    exact Finset.mem_filter.2 ⟨hmem, LaneKey.before_trans hbefore h⟩
  · exact Finset.mem_filter.2 ⟨hkey, h⟩
  · exact fun hmem => key.not_before_self (Finset.mem_filter.1 hmem).2

/-- Different lanes have different temporaries, all of them new. -/
structure Temporaries (program : Program) (temporaries : LaneKey → Option ℕ) : Prop where
  inj : ∀ {key key' t}, temporaries key = some t → temporaries key' = some t → key = key'
  isTemporary : ∀ {key t}, temporaries key = some t → IsTemporary program t

theorem temporaryOf_temporaries {lanes : LaneSet}
    (h : ¬ uint32Max < nextTemporaryScalarRegister program + lanes.card) :
    Temporaries program (temporaryOf lanes (nextTemporaryScalarRegister program)) where
  inj := by
    intro key key' t ht ht'
    unfold temporaryOf at ht ht'
    split_ifs at ht with hkey
    split_ifs at ht' with hkey'
    have hcard : (lanes.filter (·.before key)).card = (lanes.filter (·.before key')).card :=
      Nat.add_left_cancel ((Option.some.inj ht).trans (Option.some.inj ht').symm)
    rcases key.before_or key' with hbefore | heq | hbefore
    · exact absurd hcard (card_before_lt hkey hbefore).ne
    · exact heq
    · exact absurd hcard.symm (card_before_lt hkey' hbefore).ne
  isTemporary := by
    intro key t ht
    unfold temporaryOf at ht
    split_ifs at ht with hkey
    obtain rfl := Option.some.inj ht
    refine ⟨Nat.le_add_right _ _, ?_⟩
    have hlt : (lanes.filter (·.before key)).card < lanes.card :=
      Finset.card_lt_card (Finset.filter_ssubset.2 ⟨key, hkey, key.not_before_self⟩)
    omega

/-! ### One instruction -/

/-- A temporary holds the lane that it stands for, where the lane is valid. -/
def Linked (temporaries : LaneKey → Option ℕ) (valid : LaneSet) (wave : Wave ρ) : Prop :=
  ∀ key ∈ valid, ∀ t, temporaries key = some t → wave.scalar t = wave.vector key.reg key.lane

/-- A lane that the pass resolves is the one that the instruction works on. -/
def Resolves (program : Program) (inst : Instruction) (wave : Wave ρ) : Prop :=
  ∀ lane, resolveLane program inst 1 = some lane → ∀ l,
    ((inst.src.getD 1 .null).value wave l).toNat % program.waveSize = lane

/-- Operands that the program names have the same values in the two waves. -/
theorem Wave.Same.value {wave wave' : Wave ρ} (h : wave.Same program wave') {operand : Operand}
    (hnamed : ∀ index, operand = .register .scalar index → ¬ IsTemporary program index) :
    operand.value wave = operand.value wave' := by
  funext lane
  cases operand with
  | register file index =>
    cases file with
    | vector => exact congrFun (congrFun h.vector index) lane
    | scalar => exact h.scalar index (hnamed index rfl)
    | vcc => exact congrFun (congrFun h.special .vcc) index
    | exec => exact congrFun (congrFun h.special .exec) index
    | scc => exact congrFun (congrFun h.special .scc) index
    | m0 => exact congrFun (congrFun h.special .m0) index
  | immediateU32 imm => rfl
  | pcRelativeU32 imm => rfl
  | null => rfl

/-- The sources of an instruction are named, and those that it has not are null. -/
theorem source_named {inst : Instruction} (hinst : inst ∈ program.instructions) (i : ℕ) (index : ℕ)
    (heq : inst.src.getD i .null = .register .scalar index) : ¬ IsTemporary program index := by
  refine not_isTemporary hinst (List.mem_cons_of_mem _ (List.mem_cons_of_mem _ ?_))
  rw [List.getD_eq_getElem?_getD] at heq
  rcases hsrc : inst.src[i]? with _ | operand
  · rw [hsrc] at heq
    cases heq
  · rw [hsrc] at heq
    obtain rfl : operand = .register .scalar index := heq
    exact List.mem_of_getElem? hsrc

/-- The destination of an instruction is named. -/
theorem dst_named {inst : Instruction} (hinst : inst ∈ program.instructions) (index : ℕ)
    (htemporary : IsTemporary program index) : inst.dst ≠ .register .scalar index :=
  fun heq => not_isTemporary hinst (heq ▸ List.mem_cons_self) htemporary

/-- The meanings of an instruction, by what it does. -/
theorem exec_cases (sem : Semantics ρ) (waveSize : ℕ) (inst : Instruction) :
    (∃ reg, WritesLane inst reg ∧ ∀ wave : Wave ρ, exec sem waveSize inst wave =
      { wave with vector := Function.update wave.vector reg fun lane =>
          if lane = ((inst.src.getD 1 .null).value wave lane).toNat % waveSize then
            (inst.src.getD 0 .null).value wave lane
          else wave.vector reg lane }) ∨
    (∀ reg, ¬ WritesLane inst reg) ∧
      ((∃ values : Wave ρ → ℕ → BitVec 32, (∀ wave wave',
          (∀ i, (inst.src.getD i .null).value wave = (inst.src.getD i .null).value wave') →
          values wave = values wave') ∧
        ∀ wave, exec sem waveSize inst wave = sem.store inst.dst (values wave) wave) ∨
      ∀ wave, exec sem waveSize inst wave = sem.other inst wave) := by
  by_cases hwrites : ∃ reg, WritesLane inst reg
  · obtain ⟨reg, hop, hdst⟩ := hwrites
    refine .inl ⟨reg, ⟨hop, hdst⟩, fun wave => ?_⟩
    unfold exec
    rw [hop, hdst]
  · refine .inr ⟨not_exists.1 hwrites, ?_⟩
    by_cases hmove : inst.op = .moveU32
    · refine .inl ⟨fun wave => (inst.src.getD 0 .null).value wave, fun _ _ h => h 0, fun wave => ?_⟩
      unfold exec
      rw [hmove]
    · by_cases hread : inst.op = .readLaneU32
      · refine .inl ⟨fun wave lane => (inst.src.getD 0 .null).value wave
          (((inst.src.getD 1 .null).value wave lane).toNat % waveSize), fun wave wave' h => ?_,
          fun wave => ?_⟩
        · dsimp only
          rw [h 0, h 1]
        · unfold exec
          rw [hread]
      · refine .inr fun wave => ?_
        unfold exec
        split
        · next hop => exact absurd hop hmove
        · next hop => exact absurd hop hread
        · next reg hop hdst => exact absurd ⟨reg, hop, hdst⟩ hwrites
        · rfl

/-- A write of a lane changes the lane that it resolves to, and no other one. -/
theorem exec_lane {inst : Instruction} {reg reg' lane : ℕ} (hwrites : WritesLane inst reg)
    (wave : Wave ρ) (hother : reg' ≠ reg ∨ ∃ own, resolveLane program inst 1 = some own ∧
      lane ≠ own) (hresolves : Resolves program inst wave) :
    (exec sem program.waveSize inst wave).vector reg' lane = wave.vector reg' lane := by
  rcases exec_cases sem program.waveSize inst with ⟨first, hfirst, hexec⟩ | ⟨hno, -⟩
  · obtain rfl : first = reg := by
      have heq := hfirst.2.symm.trans hwrites.2
      cases heq
      rfl
    rw [hexec]
    dsimp only
    rcases hother with hne | ⟨own, hown, hne⟩
    · rw [Function.update_of_ne hne]
    · by_cases heq : reg' = first
      · subst heq
        rw [Function.update_self, if_neg]
        rw [hresolves own hown lane]
        exact hne
      · rw [Function.update_of_ne heq]
  · exact absurd hwrites (hno reg)

/-- A read that is rewritten has its lane in the temporary. -/
theorem readTemporary_spec {temporaries : LaneKey → Option ℕ} {inst : Instruction}
    {valid : LaneSet} {t : ℕ} (h : readTemporary program temporaries inst valid = some t) :
    inst.op = .readLaneU32 ∧ ∃ reg lane, inst.src.getD 0 .null = .register .vector reg ∧
      resolveLane program inst 1 = some lane ∧ ⟨reg, lane⟩ ∈ valid ∧
      temporaries ⟨reg, lane⟩ = some t := by
  obtain ⟨key, hkey, ht⟩ := Option.bind_eq_some_iff.1 h
  split_ifs at ht with hvalid
  unfold readLaneKey at hkey
  split at hkey
  · next reg _ _ hop hsrc =>
    obtain ⟨lane, hlane, rfl⟩ := Option.map_eq_some_iff.1 hkey
    refine ⟨hop, reg, lane, ?_, hlane, hvalid, ht⟩
    rw [hsrc]
    rfl
  · cases hkey

/-- A write that is shadowed has one value for all lanes, which does not come from a vector
register. -/
theorem writeLaneKey_spec {inst : Instruction} {key : LaneKey}
    (h : writeLaneKey program inst = some key) :
    WritesLane inst key.reg ∧ resolveLane program inst 1 = some key.lane ∧
      ∀ wave : Wave ρ, ∃ value, ∀ vector,
        (inst.src.headD .null).value { wave with vector := vector } = fun _ => value := by
  unfold writeLaneKey at h
  split at h
  · next reg hop hdst =>
    split_ifs at h with huniform
    obtain ⟨lane, hlane, rfl⟩ := Option.map_eq_some_iff.1 h
    refine ⟨⟨hop, hdst⟩, hlane, fun wave => ?_⟩
    unfold uniformWriteSource at huniform
    split at huniform
    · next imm hhead =>
      rw [List.headD_eq_head?_getD, hhead]
      exact ⟨imm, fun _ => rfl⟩
    · next imm hhead =>
      rw [List.headD_eq_head?_getD, hhead]
      exact ⟨imm, fun _ => rfl⟩
    · next index hhead =>
      rw [List.headD_eq_head?_getD, hhead]
      exact ⟨wave.scalar index, fun _ => rfl⟩
    · next index hhead =>
      rw [List.headD_eq_head?_getD, hhead]
      exact ⟨wave.special .scc index, fun _ => rfl⟩
    · next index hhead =>
      rw [List.headD_eq_head?_getD, hhead]
      exact ⟨wave.special .m0 index, fun _ => rfl⟩
    · exact absurd huniform Bool.false_ne_true
  · cases h

theorem execAll_append (sem : Semantics ρ) (waveSize : ℕ) (first second : List Instruction)
    (wave : Wave ρ) : execAll sem waveSize (first ++ second) wave =
      execAll sem waveSize second (execAll sem waveSize first wave) := List.foldl_append

section Step

variable (hlaws : Lawful sem program)

include hlaws

/-- **An instruction does the same to both waves**, and leaves the temporaries alone. -/
theorem exec_same {inst : Instruction} (hinst : inst ∈ program.instructions) {wave wave' : Wave ρ}
    (h : wave.Same program wave') :
    (exec sem program.waveSize inst wave).Same program (exec sem program.waveSize inst wave') ∧
      ∀ index, IsTemporary program index →
        (exec sem program.waveSize inst wave').scalar index = wave'.scalar index := by
  have hvalue : ∀ i, (inst.src.getD i .null).value wave = (inst.src.getD i .null).value wave' :=
    fun i => h.value (source_named hinst i)
  rcases exec_cases sem program.waveSize inst with
    ⟨reg, -, hexec⟩ | ⟨-, ⟨values, hvalues, hexec⟩ | hexec⟩
  · rw [hexec, hexec, hvalue 0, hvalue 1, h.vector]
    exact ⟨⟨rfl, h.scalar, h.special, h.rest⟩, fun _ _ => rfl⟩
  · rw [hexec, hexec, hvalues wave wave' hvalue]
    exact hlaws.store_same _ _ _ _ (dst_named hinst) h
  · rw [hexec, hexec]
    exact hlaws.other_same inst hinst _ _ h

/-- **The frame**: an instruction that is no write of a lane changes no other vector registers. -/
theorem exec_vector {inst : Instruction} (hinst : inst ∈ program.instructions) {reg : ℕ}
    (hno : ∀ reg, ¬ WritesLane inst reg) (hclobbers : ¬ Clobbers inst reg) (wave : Wave ρ) :
    (exec sem program.waveSize inst wave).vector reg = wave.vector reg := by
  rcases exec_cases sem program.waveSize inst with
    ⟨reg', hwrites, -⟩ | ⟨-, ⟨values, -, hexec⟩ | hexec⟩
  · exact absurd hwrites (hno reg')
  · rw [hexec]
    refine hlaws.store_vector _ _ _ _ fun hdst => hclobbers (.inl ⟨reg, hdst, .inr ⟨0, ?_, rfl⟩⟩)
    unfold dwords
    split_ifs
    · exact lt_max_of_lt_right Nat.zero_lt_two
    · exact lt_max_of_lt_right Nat.zero_lt_one
  · rw [hexec]
    exact hlaws.other_vector inst hinst _ _ hclobbers

/-- What stays valid behind an instruction stays linked. -/
theorem Linked.exec {temporaries : LaneKey → Option ℕ} {valid : LaneSet} {inst : Instruction}
    (htemporaries : Temporaries program temporaries) (hinst : inst ∈ program.instructions)
    {wave : Wave ρ} (hresolves : Resolves program inst wave) (h : Linked temporaries valid wave)
    {key : LaneKey} (hkey : key ∈ applyInstruction program inst valid)
    (hown : writeLaneKey program inst ≠ some key) {t : ℕ} (ht : temporaries key = some t) :
    (ReadLane.exec sem program.waveSize inst wave).scalar t =
      (ReadLane.exec sem program.waveSize inst wave).vector key.reg key.lane := by
  have hscalar := (exec_same hlaws hinst (⟨rfl, fun _ _ => rfl, rfl, rfl⟩ :
    wave.Same program wave)).2 t (htemporaries.isTemporary ht)
  rw [hscalar]
  by_cases hwrites : ∃ reg, WritesLane inst reg
  · obtain ⟨reg, hwrites⟩ := hwrites
    obtain ⟨hvalid, hother⟩ := (applyInstruction_write hwrites hkey).resolve_left hown
    rw [exec_lane hwrites wave hother hresolves]
    exact h key hvalid t ht
  · obtain ⟨hvalid, hclobbers⟩ := applyInstruction_other (not_exists.1 hwrites) hkey
    rw [exec_vector hlaws hinst (not_exists.1 hwrites) hclobbers]
    exact h key hvalid t ht

/-- **One instruction and what stands in its place** keep the waves the same and the valid lanes
linked. -/
theorem rewriteInstruction_step {temporaries : LaneKey → Option ℕ} {valid : LaneSet}
    {inst : Instruction} (htemporaries : Temporaries program temporaries)
    (hinst : inst ∈ program.instructions) {wave wave' : Wave ρ} (hsame : wave.Same program wave')
    (hresolves : Resolves program inst wave) (hlinked : Linked temporaries valid wave') :
    (exec sem program.waveSize inst wave).Same program
        (execAll sem program.waveSize (rewriteInstruction program temporaries inst valid) wave') ∧
      Linked temporaries (applyInstruction program inst valid)
        (execAll sem program.waveSize (rewriteInstruction program temporaries inst valid)
          wave') := by
  have hresolves' : Resolves program inst wave' := by
    intro lane hlane l
    rw [← hsame.value (source_named hinst 1)]
    exact hresolves lane hlane l
  obtain ⟨hexec, -⟩ := exec_same hlaws hinst hsame
  unfold rewriteInstruction
  rcases hread : readTemporary program temporaries inst valid with _ | t
  · dsimp only
    rcases hwrite : (writeLaneKey program inst).bind temporaries with _ | t
    · -- the instruction stays
      refine ⟨hexec, fun key hkey t ht => ?_⟩
      refine hlinked.exec hlaws htemporaries hinst hresolves' hkey (fun hown => ?_) ht
      rw [hown, Option.bind_some, ht] at hwrite
      cases hwrite
    · -- the value of the write goes to the temporary as well
      obtain ⟨own, hown, hownt⟩ := Option.bind_eq_some_iff.1 hwrite
      obtain ⟨hwrites, hlane, huniform⟩ := writeLaneKey_spec (ρ := ρ) hown
      obtain ⟨value, hvalue⟩ := huniform wave'
      obtain ⟨vector, hvector, hat⟩ : ∃ vector,
          exec sem program.waveSize inst wave' = { wave' with vector := vector } ∧
            vector own.reg own.lane = value := by
        rcases exec_cases sem program.waveSize inst with ⟨reg, hreg, hexecWrite⟩ | ⟨hno, -⟩
        · obtain rfl : reg = own.reg := by
            have heq := hreg.2.symm.trans hwrites.2
            cases heq
            rfl
          refine ⟨_, hexecWrite wave', ?_⟩
          have hhead : inst.src.getD 0 .null = inst.src.headD .null := by cases inst.src <;> rfl
          rw [Function.update_self, if_pos (hresolves' own.lane hlane own.lane).symm, hhead]
          exact congrFun (hvalue wave'.vector) own.lane
        · exact absurd hwrites (hno own.reg)
      have hshadow : execAll sem program.waveSize [inst, shadowWrite inst t] wave' =
          { exec sem program.waveSize inst wave' with
            scalar := Function.update (exec sem program.waveSize inst wave').scalar t value } := by
        show sem.store (.register .scalar t) ((inst.src.headD .null).value
          (exec sem program.waveSize inst wave')) (exec sem program.waveSize inst wave') = _
        rw [hvector, hvalue, hlaws.store_scalar]
      dsimp only
      rw [hshadow]
      refine ⟨⟨hexec.vector, fun index hindex => ?_, hexec.special, hexec.rest⟩,
        fun key hkey t' ht' => ?_⟩
      · dsimp only
        have hne : index ≠ t := by
          rintro rfl
          exact hindex (htemporaries.isTemporary hownt)
        rw [Function.update_of_ne hne]
        exact hexec.scalar index hindex
      · dsimp only
        by_cases hkeyOwn : key = own
        · subst hkeyOwn
          obtain rfl : t = t' := Option.some.inj (hownt.symm.trans ht')
          rw [Function.update_self, hvector]
          exact hat.symm
        · have hne : t' ≠ t := fun heq => hkeyOwn (htemporaries.inj ht' (heq ▸ hownt))
          rw [Function.update_of_ne hne]
          refine hlinked.exec hlaws htemporaries hinst hresolves' hkey (fun hown' => ?_) ht'
          exact hkeyOwn (Option.some.inj (hown'.symm.trans hown))
  · -- the temporary has what the read finds in the lane
    obtain ⟨hop, reg, lane, hsrc, hlane, hvalid, ht⟩ := readTemporary_spec hread
    have hshadow : execAll sem program.waveSize [shadowRead inst t] wave' =
        exec sem program.waveSize inst wave' := by
      show sem.store inst.dst (fun _ => wave'.scalar t) wave' = _
      unfold exec
      rw [hop]
      dsimp only
      refine congrArg (fun values => sem.store inst.dst values wave') (funext fun l => ?_)
      rw [hresolves' lane hlane l, hsrc]
      exact hlinked ⟨reg, lane⟩ hvalid t ht
    dsimp only
    rw [hshadow]
    refine ⟨hexec, fun key hkey t ht => ?_⟩
    refine hlinked.exec hlaws htemporaries hinst hresolves' hkey (fun hown => ?_) ht
    have hwrite := (writeLaneKey_spec (ρ := ρ) hown).1.1
    rw [hop] at hwrite
    cases hwrite

/-! ### Blocks and runs -/

/-- **A block and what stands in its place.** -/
theorem rewriteBlock_step {temporaries : LaneKey → Option ℕ} {valid : LaneSet}
    (htemporaries : Temporaries program temporaries) {before rest : List Instruction}
    (hrest : ∀ inst ∈ rest, inst ∈ program.instructions) {start wave' : Wave ρ}
    (hsame : (execAll sem program.waveSize before start).Same program wave')
    (hresolves : ∀ middle inst after, rest = middle ++ inst :: after →
      Resolves program inst (execAll sem program.waveSize (before ++ middle) start))
    (hlinked : Linked temporaries valid wave') :
    (execAll sem program.waveSize (before ++ rest) start).Same program
        (execAll sem program.waveSize (rewriteBlock program temporaries rest valid) wave') ∧
      Linked temporaries
        (rest.foldl (fun state inst => applyInstruction program inst state) valid)
        (execAll sem program.waveSize (rewriteBlock program temporaries rest valid) wave') := by
  induction rest generalizing before valid wave' with
  | nil =>
    rw [List.append_nil]
    exact ⟨hsame, hlinked⟩
  | cons inst rest ih =>
    obtain ⟨hinst, hrest⟩ := List.forall_mem_cons.1 hrest
    have hfirst : Resolves program inst (execAll sem program.waveSize before start) := by
      have h := hresolves [] inst rest rfl
      rwa [List.append_nil] at h
    obtain ⟨hsame', hlinked'⟩ :=
      rewriteInstruction_step hlaws htemporaries hinst hsame hfirst hlinked
    have hstep : exec sem program.waveSize inst (execAll sem program.waveSize before start) =
        execAll sem program.waveSize (before ++ [inst]) start := by
      rw [execAll_append]
      rfl
    rw [hstep] at hsame'
    have hmore := ih hrest hsame' (fun middle inst' after heq => by
      rw [List.append_assoc]
      exact hresolves (inst :: middle) inst' after (congrArg (List.cons inst) heq)) hlinked'
    rw [List.append_assoc] at hmore
    unfold rewriteBlock
    rw [execAll_append _ _ (rewriteInstruction program temporaries inst valid)]
    exact hmore

end Step

/-- A selector with a known lane resolves to it. -/
theorem resolves_of_provenance {inst : Instruction} {wave : Wave ρ}
    (h : ∀ selector folded, inst.src[1]? = some selector →
      foldScalarConstant program.values (inst.scalarSources.getD 1 0) = some folded →
      ∀ lane, selector.value wave lane = folded) : Resolves program inst wave := by
  intro lane hlane l
  unfold resolveLane at hlane
  rw [List.getD_eq_getElem?_getD]
  split at hlane
  · cases hlane
  · next selector hselector =>
    rw [hselector]
    split_ifs at hlane
    split at hlane
    · exact Option.some.inj hlane
    · obtain ⟨folded, hfolded, rfl⟩ := Option.map_eq_some_iff.1 hlane
      rw [Option.getD_some, h selector folded hselector hfolded l]

/-- The rewritten program has the blocks of the old one, with other instructions. -/
theorem rewrite_block {temporaries : LaneKey → Option ℕ} {entry : ℕ → LaneSet} {block : ℕ} :
    (rewrite program temporaries entry).1.blocks[block]? =
      (program.blocks[block]?).map (rewriteBasicBlock program temporaries entry block) := by
  unfold rewrite
  rw [List.getElem?_mapIdx]

section Runs

variable {start : Wave ρ} {temporaries : LaneKey → Option ℕ} {facts : Dataflow.Facts LaneSet}
  (hlaws : Lawful sem program) (hprovenance : ProvenanceHolds sem program start)
  (htemporaries : Temporaries program temporaries)
  (hfacts : ∀ block < program.blocks.length, facts.entry block =
    nextEntry program block facts.exit ∧ facts.exit block =
      nextExit program block (facts.entry block))

include hlaws hprovenance htemporaries hfacts

/-- **A block of a run**, with the branch at its end. -/
theorem run_block {block next : ℕ} {basicBlock : BasicBlock} {wave wave' : Wave ρ}
    (hrun : Run sem program start block wave) (hblock : program.blocks[block]? = some basicBlock)
    (hsame : wave.Same program wave') (hlinked : Linked temporaries (facts.entry block) wave') :
    (execAll sem program.waveSize basicBlock.instructions wave).Same program
        (execAll sem program.waveSize (rewriteBlock program temporaries basicBlock.instructions
          (facts.entry block)) wave') ∧
      (sem.branch block (execAll sem program.waveSize basicBlock.instructions wave) next →
        Linked temporaries (facts.entry next)
          (execAll sem program.waveSize (rewriteBlock program temporaries basicBlock.instructions
            (facts.entry block)) wave')) := by
  have hmem : ∀ inst ∈ basicBlock.instructions, inst ∈ program.instructions := fun inst hinst =>
    List.mem_flatMap.2 ⟨basicBlock, List.mem_of_getElem? hblock, hinst⟩
  have hstart : (execAll sem program.waveSize [] wave).Same program wave' := hsame
  obtain ⟨hsame', hlinked'⟩ := rewriteBlock_step hlaws htemporaries hmem hstart
    (fun middle inst after heq => resolves_of_provenance fun selector folded hselector hfolded =>
      hprovenance block wave hrun basicBlock middle inst after selector folded hblock heq hselector
        hfolded) hlinked
  refine ⟨hsame', fun hbranch => ?_⟩
  obtain ⟨nextBlock, hnext, hpredecessor⟩ := hlaws.branch_predecessors block next _ hbranch
  have hexit : facts.exit block = transferBlock program basicBlock (facts.entry block) := by
    rw [(hfacts block (List.getElem?_eq_some_iff.1 hblock).1).2]
    unfold nextExit
    rw [hblock]
  intro key hkey
  refine hlinked' key ?_
  rw [(hfacts next (List.getElem?_eq_some_iff.1 hnext).1).1] at hkey
  have hvalid := nextEntry_le hnext hpredecessor hkey
  rwa [hexit] at hvalid

/-- Every run of the program is one of the rewritten program. -/
theorem run_rewrite {block : ℕ} {wave : Wave ρ} (hrun : Run sem program start block wave)
    (hzero : facts.entry 0 = ∅) : ∃ wave',
      Run sem (rewrite program temporaries facts.entry).1 start block wave' ∧
        wave.Same program wave' ∧ Linked temporaries (facts.entry block) wave' := by
  induction hrun with
  | start =>
    refine ⟨start, .start, ⟨rfl, fun _ _ => rfl, rfl, rfl⟩, ?_⟩
    rw [hzero]
    exact fun key hkey => absurd hkey (Finset.notMem_empty key)
  | @step block next basicBlock wave hrun hblock hbranch ih =>
    obtain ⟨wave', hrun', hsame, hlinked⟩ := ih
    obtain ⟨hsame', hlinked'⟩ :=
      run_block hlaws hprovenance htemporaries hfacts hrun hblock hsame hlinked
    have hblock' : (rewrite program temporaries facts.entry).1.blocks[block]? =
        some (rewriteBasicBlock program temporaries facts.entry block basicBlock) := by
      rw [rewrite_block, hblock]
      rfl
    have hbranch' := (hlaws.branch_same _ next _ _ hsame').1 hbranch
    exact ⟨_, .step hrun' hblock' hbranch', hsame', hlinked' hbranch⟩

/-- Every run of the rewritten program is one of the program. -/
theorem run_of_rewrite {block : ℕ} {wave' : Wave ρ}
    (hrun : Run sem (rewrite program temporaries facts.entry).1 start block wave')
    (hzero : facts.entry 0 = ∅) : ∃ wave, Run sem program start block wave ∧
        wave.Same program wave' ∧ Linked temporaries (facts.entry block) wave' := by
  induction hrun with
  | start =>
    refine ⟨start, .start, ⟨rfl, fun _ _ => rfl, rfl, rfl⟩, ?_⟩
    rw [hzero]
    exact fun key hkey => absurd hkey (Finset.notMem_empty key)
  | @step block next newBlock wave' _ hblock' hbranch ih =>
    obtain ⟨wave, hrun, hsame, hlinked⟩ := ih
    rw [rewrite_block] at hblock'
    obtain ⟨basicBlock, hblock, rfl⟩ := Option.map_eq_some_iff.1 hblock'
    obtain ⟨hsame', hlinked'⟩ :=
      run_block hlaws hprovenance htemporaries hfacts hrun hblock hsame hlinked
    have hbranch' := (hlaws.branch_same _ _ _ _ hsame').2 hbranch
    exact ⟨_, .step hrun hblock hbranch', hsame', hlinked' hbranch'⟩

end Runs

/-- **`EliminateReadLane` preserves the runs.** It returns, and the programs before and after it
enter the same blocks with waves that differ in new scalar registers alone. -/
theorem eliminateReadLane_preserves (sem : Semantics ρ) (program : Program) (start : Wave ρ)
    (hlaws : Lawful sem program) (hprovenance : ProvenanceHolds sem program start) :
    ∃ program' stats, eliminateReadLane program = some (program', stats) ∧ ∀ block,
      (∀ wave, Run sem program start block wave →
        ∃ wave', Run sem program' start block wave' ∧ wave.Same program wave') ∧
      (∀ wave', Run sem program' start block wave' →
        ∃ wave, Run sem program start block wave ∧ wave.Same program wave') := by
  have hunchanged : ∀ block,
      (∀ wave, Run sem program start block wave →
        ∃ wave', Run sem program start block wave' ∧ wave.Same program wave') ∧
      (∀ wave', Run sem program start block wave' →
        ∃ wave, Run sem program start block wave ∧ wave.Same program wave') := fun block =>
    ⟨fun wave h => ⟨wave, h, ⟨rfl, fun _ _ => rfl, rfl, rfl⟩⟩,
      fun wave h => ⟨wave, h, ⟨rfl, fun _ _ => rfl, rfl, rfl⟩⟩⟩
  obtain ⟨facts, hvalid⟩ := Option.isSome_iff_exists.1 (@validLanes_isSome program)
  have hfacts : ∀ block < program.blocks.length, facts.entry block =
      nextEntry program block facts.exit ∧ facts.exit block =
        nextExit program block (facts.entry block) := fun block => validLanes_solved hvalid
  unfold eliminateReadLane
  by_cases hshape : program.blocks = [] ∨ program.waveSize ≠ 32 ∧ program.waveSize ≠ 64
  · exact ⟨program, {}, if_pos hshape, hunchanged⟩
  rw [if_neg hshape]
  by_cases hlanes : laneUniverse program = ∅
  · exact ⟨program, {}, if_pos hlanes, hunchanged⟩
  rw [if_neg hlanes, hvalid]
  dsimp only [Option.bind_eq_bind, Option.bind_some]
  by_cases hforwarded : forwarded program facts.entry = ∅
  · exact ⟨program, {}, if_pos hforwarded, hunchanged⟩
  rw [if_neg hforwarded]
  by_cases hroom : uint32Max < nextTemporaryScalarRegister program +
      (forwarded program facts.entry).card
  · exact ⟨program, {}, if_pos hroom, hunchanged⟩
  rw [if_neg hroom]
  have htemporaries := temporaryOf_temporaries hroom
  have hzero : facts.entry 0 = ∅ := by
    rw [(hfacts 0 (List.length_pos_iff.2 fun h => hshape (.inl h))).1, nextEntry_zero]
  refine ⟨_, _, rfl, fun block => ⟨fun wave hrun => ?_, fun wave' hrun => ?_⟩⟩
  · obtain ⟨wave', hrun', hsame, -⟩ :=
      run_rewrite hlaws hprovenance htemporaries hfacts hrun hzero
    exact ⟨wave', hrun', hsame⟩
  · obtain ⟨wave, hrun', hsame, -⟩ :=
      run_of_rewrite hlaws hprovenance htemporaries hfacts hrun hzero
    exact ⟨wave, hrun', hsame⟩

/-! ### An example -/

/-- A wave whose stores go to all lanes, with the branches of a list. -/
def plainSemantics (branches : List (ℕ × ℕ)) : Semantics Unit where
  store
    | .register .vector index, values, wave =>
      { wave with vector := Function.update wave.vector index values }
    | .register .scalar index, values, wave =>
      { wave with scalar := Function.update wave.scalar index (values 0) }
    | _, _, wave => wave
  other _ wave := wave
  branch block _ next := (block, next) ∈ branches

theorem plainSemantics_lawful {branches : List (ℕ × ℕ)} {program : Program}
    (h : ∀ branch ∈ branches, ∃ basicBlock, program.blocks[branch.2]? = some basicBlock ∧
      branch.1 ∈ basicBlock.predecessors) : Lawful (plainSemantics branches) program where
  store_scalar _ _ _ := rfl
  store_vector dst values wave reg hne := by
    unfold plainSemantics
    dsimp only
    split
    · next index => exact Function.update_of_ne (fun heq => hne (by rw [heq])) _ _
    · rfl
    · rfl
  store_same dst values wave wave' hnamed hsame := by
    unfold plainSemantics
    dsimp only
    split
    · exact ⟨⟨by rw [hsame.vector], hsame.scalar, hsame.special, hsame.rest⟩, fun _ _ => rfl⟩
    · next index =>
      refine ⟨⟨hsame.vector, fun other hother => ?_, hsame.special, hsame.rest⟩,
        fun other hother => ?_⟩
      · dsimp only
        by_cases heq : other = index
        · subst heq
          rw [Function.update_self, Function.update_self]
        · rw [Function.update_of_ne heq, Function.update_of_ne heq]
          exact hsame.scalar other hother
      · exact Function.update_of_ne (fun heq => hnamed other hother (by rw [heq])) _ _
    · exact ⟨hsame, fun _ _ => rfl⟩
  other_vector _ _ _ _ _ := rfl
  other_same _ _ _ _ hsame := ⟨hsame, fun _ _ => rfl⟩
  branch_same _ _ _ _ _ := Iff.rfl
  branch_predecessors block next _ hbranch := h (block, next) hbranch

/-- A lane is written in both branches and read behind them. -/
def merging : Program where
  waveSize := 64
  values := []
  blocks := [
    ⟨[], []⟩,
    ⟨[{ pc := 0, op := .writeLaneU32, dst := .register .vector 11,
        src := [.register .scalar 4, .immediateU32 4] }], [0]⟩,
    ⟨[{ pc := 4, op := .writeLaneU32, dst := .register .vector 11,
        src := [.register .scalar 5, .immediateU32 4] }], [0]⟩,
    ⟨[{ pc := 8, op := .readLaneU32, dst := .register .scalar 0,
        src := [.register .vector 11, .immediateU32 4] }], [1, 2]⟩]

/-- The branches of that program. -/
def mergingBranches : List (ℕ × ℕ) := [(0, 1), (0, 2), (1, 3), (2, 3)]

/-- A wave of zeros. -/
def blankWave : Wave Unit := ⟨fun _ _ => 0, fun _ => 0, fun _ _ => 0, ()⟩

/-- Its read is rewritten, and both writes are shadowed. -/
theorem eliminateReadLane_preserves_merging :
    (eliminateReadLane merging).map (·.2) = some ⟨1, 2⟩ ∧
      ∃ program' stats, eliminateReadLane merging = some (program', stats) ∧ ∀ block,
      (∀ wave, Run (plainSemantics mergingBranches) merging blankWave block wave →
        ∃ wave', Run (plainSemantics mergingBranches) program' blankWave block wave' ∧
          wave.Same merging wave') ∧
      (∀ wave', Run (plainSemantics mergingBranches) program' blankWave block wave' →
        ∃ wave, Run (plainSemantics mergingBranches) merging blankWave block wave ∧
          wave.Same merging wave') :=
  ⟨by decide +kernel, eliminateReadLane_preserves _ merging blankWave
    (plainSemantics_lawful (by decide)) fun _ _ _ _ _ _ _ _ _ _ _ _ hfolded => by cases hfolded⟩

end Prosperismo.ReadLane
