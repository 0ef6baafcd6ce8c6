import Prosperismo.ReadLane.Model

/-!
# The sweeps of `EliminateReadLane`

What an instruction does to the set of valid lanes is monotone. The sweeps therefore take the sets
down from those that they start with, and end (`validLanes_isSome`) with sets that solve the flow
equations (`validLanes_solved`).
-/

namespace Prosperismo.ReadLane

variable {program : Program}

/-! ### Instructions -/

theorem mem_invalidateRegister {valid : LaneSet} {reg : ℕ} {key : LaneKey} :
    key ∈ invalidateRegister valid reg ↔ key ∈ valid ∧ key.reg ≠ reg := Finset.mem_filter

/-- Some registers are invalidated one after the other. -/
theorem mem_invalidateRegisters {count reg : ℕ} {valid : LaneSet} {key : LaneKey} :
    key ∈ (List.range count).foldl (fun valid i => invalidateRegister valid (reg + i)) valid ↔
      key ∈ valid ∧ ∀ i < count, key.reg ≠ reg + i := by
  induction count with
  | zero => exact ⟨fun h => ⟨h, fun i hi => absurd hi (Nat.not_lt_zero i)⟩, And.left⟩
  | succ count ih =>
    rw [List.range_succ, List.foldl_append, List.foldl_cons, List.foldl_nil,
      mem_invalidateRegister, ih, and_assoc]
    refine and_congr_right fun _ => ⟨fun h i hi => ?_, fun h => ⟨fun i hi => ?_, ?_⟩⟩
    · rcases Nat.lt_succ_iff_lt_or_eq.1 hi with hlt | rfl
      · exact h.1 i hlt
      · exact h.2
    · exact h i (Nat.lt_succ_of_lt hi)
    · exact h count (Nat.lt_succ_self count)

/-- The vector registers that an instruction other than a write of a lane may change. -/
def Clobbers (inst : Instruction) (reg : ℕ) : Prop :=
  (∃ first, inst.dst = .register .vector first ∧
    (inst.op = .moveRelDestU32 ∨ ∃ i < dwords inst, reg = first + i)) ∨
  inst.dst2 = .register .vector reg

/-- A write of a lane. -/
def WritesLane (inst : Instruction) (reg : ℕ) : Prop :=
  inst.op = .writeLaneU32 ∧ inst.dst = .register .vector reg

/-- **What an instruction leaves valid**, when it is no write of a lane. -/
theorem applyInstruction_other {inst : Instruction} {valid : LaneSet} {key : LaneKey}
    (hno : ∀ reg, ¬ WritesLane inst reg) (h : key ∈ applyInstruction program inst valid) :
    key ∈ valid ∧ ¬ Clobbers inst key.reg := by
  unfold applyInstruction at h
  split at h
  · next reg hop hdst => exact absurd ⟨hop, hdst⟩ (hno reg)
  · exact absurd h (Finset.notMem_empty key)
  · next hnotWrite hnotRel =>
    have hdst : key ∈ invalidateDst inst valid →
        key ∈ valid ∧ ¬ ∃ first, inst.dst = .register .vector first ∧
          (inst.op = .moveRelDestU32 ∨ ∃ i < dwords inst, key.reg = first + i) := by
      intro hmem
      unfold invalidateDst at hmem
      split at hmem
      · next reg hreg =>
        obtain ⟨hvalid, hfree⟩ := mem_invalidateRegisters.1 hmem
        refine ⟨hvalid, ?_⟩
        rintro ⟨first, hfirst, hrel | ⟨i, hi, heq⟩⟩
        · exact hnotRel _ hrel hfirst
        · rw [hreg] at hfirst
          cases hfirst
          exact hfree i hi heq
      · next hnone =>
        refine ⟨hmem, ?_⟩
        rintro ⟨first, hfirst, -⟩
        exact hnone first hfirst
    split at h
    · next reg hreg =>
      obtain ⟨hmem, hne⟩ := mem_invalidateRegister.1 h
      obtain ⟨hvalid, hfirst⟩ := hdst hmem
      refine ⟨hvalid, not_or.2 ⟨hfirst, fun heq => ?_⟩⟩
      rw [hreg] at heq
      cases heq
      exact hne rfl
    · next hnone =>
      obtain ⟨hvalid, hfirst⟩ := hdst h
      exact ⟨hvalid, not_or.2 ⟨hfirst, fun heq => hnone _ heq⟩⟩

/-- **What a write of a lane leaves valid**: its own lane when its key is known, and the other
lanes. -/
theorem applyInstruction_write {inst : Instruction} {valid : LaneSet} {key : LaneKey} {reg : ℕ}
    (hwrite : WritesLane inst reg) (h : key ∈ applyInstruction program inst valid) :
    writeLaneKey program inst = some key ∨
      key ∈ valid ∧ (key.reg ≠ reg ∨ ∃ lane, resolveLane program inst 1 = some lane ∧
        key.lane ≠ lane) := by
  unfold applyInstruction at h
  rw [hwrite.1, hwrite.2] at h
  dsimp only at h
  have hkey : writeLaneKey program inst =
      if uniformWriteSource inst then (resolveLane program inst 1).map (⟨reg, ·⟩) else none := by
    unfold writeLaneKey
    rw [hwrite.1, hwrite.2]
  split at h
  · next own hown =>
    rcases Finset.mem_insert.1 h with rfl | hvalid
    · exact .inl hown
    · by_cases heq : key = own
      · exact .inl (heq ▸ hown)
      · refine .inr ⟨hvalid, ?_⟩
        rw [hkey] at hown
        split_ifs at hown
        obtain ⟨lane, hlane, rfl⟩ := Option.map_eq_some_iff.1 hown
        by_cases hreg : key.reg = reg
        · refine .inr ⟨lane, hlane, fun hsame => heq ?_⟩
          cases key
          exact congrArg₂ LaneKey.mk hreg hsame
        · exact .inl hreg
  · split at h
    · next lane hlane =>
      obtain ⟨hne, hvalid⟩ := Finset.mem_erase.1 h
      refine .inr ⟨hvalid, ?_⟩
      by_cases hreg : key.reg = reg
      · refine .inr ⟨lane, hlane, fun hsame => hne ?_⟩
        cases key
        exact congrArg₂ LaneKey.mk hreg hsame
      · exact .inl hreg
    · obtain ⟨hvalid, hne⟩ := mem_invalidateRegister.1 h
      exact .inr ⟨hvalid, .inl hne⟩

/-- An instruction does the same to a larger set. -/
theorem applyInstruction_mono (inst : Instruction) : Monotone (applyInstruction program inst) := by
  intro valid valid' hle
  have hinvalidate : ∀ reg, Monotone fun valid => invalidateRegister valid reg :=
    fun reg _ _ h => Finset.filter_subset_filter _ h
  unfold applyInstruction
  split
  · split
    · exact Finset.insert_subset_insert _ hle
    · split
      · exact Finset.erase_subset_erase _ hle
      · exact hinvalidate _ hle
  · exact le_rfl
  · have hdst : Monotone (invalidateDst inst) := by
      intro valid valid' h key hkey
      unfold invalidateDst at hkey ⊢
      split at hkey
      · obtain ⟨hmem, hfree⟩ := mem_invalidateRegisters.1 hkey
        exact mem_invalidateRegisters.2 ⟨h hmem, hfree⟩
      · exact h hkey
    split
    · exact hinvalidate _ (hdst hle)
    · exact hdst hle

theorem transferBlock_mono (block : BasicBlock) : Monotone (transferBlock program block) := by
  have hfold : ∀ instructions : List Instruction, Monotone fun state =>
      instructions.foldl (fun state inst => applyInstruction program inst state) state := by
    intro instructions
    induction instructions with
    | nil => exact fun _ _ h => h
    | cons inst instructions ih => exact fun _ _ h => ih (applyInstruction_mono inst h)
  exact hfold block.instructions

/-! ### Blocks -/

theorem nextExit_mono (block : ℕ) : Monotone (nextExit program block) := by
  intro entry entry' hle
  unfold nextExit
  split
  · exact hle
  · exact transferBlock_mono _ hle

/-- What is valid at the entry of a block was written, and is valid at all exits that lead to it. -/
theorem mem_meet {predecessors : List ℕ} {start : LaneSet} {exit : ℕ → LaneSet} {key : LaneKey} :
    key ∈ predecessors.foldl (fun next predecessor => next ∩ exit predecessor) start ↔
      key ∈ start ∧ ∀ predecessor ∈ predecessors, key ∈ exit predecessor := by
  induction predecessors generalizing start with
  | nil => exact ⟨fun h => ⟨h, List.forall_mem_nil _⟩, And.left⟩
  | cons predecessor predecessors ih =>
    rw [List.foldl_cons, ih, Finset.mem_inter, List.forall_mem_cons, and_assoc]

theorem nextEntry_mono (block : ℕ) : Monotone (nextEntry program block) := by
  intro exit exit' hle
  unfold nextEntry
  split
  · exact le_rfl
  · split_ifs
    · intro key hkey
      obtain ⟨hstart, hall⟩ := mem_meet.1 hkey
      exact mem_meet.2 ⟨hstart, fun predecessor hmem => hle predecessor (hall predecessor hmem)⟩
    · exact le_rfl
    · exact le_rfl

theorem nextEntry_laneUniverse (block : ℕ) (exit : ℕ → LaneSet) :
    nextEntry program block exit ⊆ laneUniverse program := by
  unfold nextEntry
  split
  · exact Finset.empty_subset _
  · split_ifs
    · exact fun key hkey => (mem_meet.1 hkey).1
    · exact Finset.empty_subset _
    · exact Finset.empty_subset _

/-- What is valid at the entry of a block is valid at the exit of each of its predecessors, and
nothing is valid at the entry of the program. -/
theorem nextEntry_le {block predecessor : ℕ} {basicBlock : BasicBlock} {exit : ℕ → LaneSet}
    (hblock : program.blocks[block]? = some basicBlock)
    (hmem : predecessor ∈ basicBlock.predecessors) :
    nextEntry program block exit ⊆ exit predecessor := by
  intro key hkey
  unfold nextEntry at hkey
  rw [hblock] at hkey
  dsimp only at hkey
  split_ifs at hkey
  · exact (mem_meet.1 hkey).2 predecessor hmem
  · exact absurd hkey (Finset.notMem_empty key)
  · exact absurd hkey (Finset.notMem_empty key)

theorem nextEntry_zero (exit : ℕ → LaneSet) : nextEntry program 0 exit = ∅ := by
  unfold nextEntry
  split
  · rfl
  · exact if_neg fun h => h.1 rfl

/-! ### The result of the sweeps -/

/-- The sweeps start above what the equations ask for. -/
theorem initialFacts_above : Dataflow.Above (nextEntry program) (nextExit program)
    (List.range program.blocks.length) (initialFacts program) := by
  intro block _
  refine ⟨?_, rfl⟩
  by_cases hzero : block = 0
  · subst hzero
    rw [nextEntry_zero]
    exact Finset.empty_subset _
  · have hlanes : (initialFacts program).entry block = laneUniverse program := if_neg hzero
    rw [hlanes]
    exact nextEntry_laneUniverse block _

/-- **The sweeps end.** -/
theorem validLanes_isSome : (validLanes program).isSome := by
  refine Dataflow.solve_isSome nextEntry_mono nextExit_mono Finset.card_strictMono ?_
    initialFacts_above
  have hcard : ∀ block, ((initialFacts program).entry block).card ≤
      (laneUniverse program).card := by
    intro block
    refine Finset.card_le_card ?_
    unfold initialFacts
    dsimp only
    split_ifs
    · exact Finset.empty_subset _
    · exact subset_rfl
  calc Dataflow.height Finset.card (List.range program.blocks.length) (initialFacts program)
      ≤ ∑ _ ∈ (List.range program.blocks.length).toFinset, (laneUniverse program).card :=
        Finset.sum_le_sum fun block _ => hcard block
    _ = program.blocks.length * (laneUniverse program).card := by
        rw [Finset.sum_const_nat fun _ _ => rfl, List.toFinset_card_of_nodup List.nodup_range,
          List.length_range]
    _ < program.blocks.length * (laneUniverse program).card + 1 := Nat.lt_succ_self _

/-- **The sets of the sweeps** solve the flow equations. -/
theorem validLanes_solved {facts : Dataflow.Facts LaneSet} (h : validLanes program = some facts)
    {block : ℕ} (hblock : block < program.blocks.length) :
    facts.entry block = nextEntry program block facts.exit ∧
      facts.exit block = nextExit program block (facts.entry block) :=
  Dataflow.solve_solved h block (List.mem_range.2 hblock)

end Prosperismo.ReadLane
