import Prosperismo.Cfg.Analysed
import Prosperismo.Cfg.Setpc

/-!
# BuildGraph partitions the program

The labels of a program are the first pc, the end, every target and every pc behind an
instruction that ends a block (`LabelScan.Complete`). Sorted, they cut the instruction
list into the ranges of the blocks, and no label lies inside of a range: this is all
that the results need, together with the pcs being in order.
-/

namespace Prosperismo.Cfg

open Relation (ReflTransGen)

variable {program : Program} {g : Graph}

/-! ### Labels -/

/-- The instructions behind which a block ends. -/
def endsBlock (opcode : Opcode) : Bool :=
  isBranch opcode || opcode == .sSetpcB64 || opcode == .sEndpgm || opcode == .sTrap

/-- What the label scan has collected of the instructions it has gone through, given with their
indices. -/
structure LabelScan.Complete (program : Program) (before : List (Instruction × ℕ))
    (scan : LabelScan) : Prop where
  first : firstPc program ∈ scan.labels
  last : programEndPc program ∈ scan.labels
  sources : ∀ label ∈ scan.labels, label = firstPc program ∨ label = programEndPc program ∨
    isValidTarget program label = true ∨ ∃ entry ∈ before, label = instructionEndPc entry.1
  branches : ∀ entry ∈ before, isBranch entry.1.opcode = true →
    entry.1.branchTarget ∈ scan.labels
  ends : ∀ entry ∈ before, endsBlock entry.1.opcode = true →
    instructionEndPc entry.1 ≤ programEndPc program → instructionEndPc entry.1 ∈ scan.labels
  setpcs : ∀ entry ∈ before, isBranch entry.1.opcode = false → entry.1.opcode = .sSetpcB64 →
    ∃ info, resolveSetpcTargets program entry.2 = some info ∧
      (entry.1.pc, info) ∈ scan.setpcTargets ∧ ∀ target ∈ info.allTargets, target ∈ scan.labels
  resolved : ∀ found ∈ scan.setpcTargets, ∃ entry ∈ before, entry.1.pc = found.1 ∧
    resolveSetpcTargets program entry.2 = some found.2

/-- More labels, and one more instruction. -/
theorem LabelScan.Complete.extend {before : List (Instruction × ℕ)} {scan : LabelScan}
    (h : scan.Complete program before) {entry : Instruction × ℕ} (labels : List ℕ)
    (targets : List (ℕ × SetpcTargetInfo)) (indirect : Bool)
    (hsources : ∀ label ∈ labels, label = programEndPc program ∨
      isValidTarget program label = true ∨ label = instructionEndPc entry.1)
    (hbranch : isBranch entry.1.opcode = true → entry.1.branchTarget ∈ labels)
    (hends : endsBlock entry.1.opcode = true → instructionEndPc entry.1 ≤ programEndPc program →
      instructionEndPc entry.1 ∈ labels)
    (hsetpc : isBranch entry.1.opcode = false → entry.1.opcode = .sSetpcB64 →
      ∃ info, resolveSetpcTargets program entry.2 = some info ∧ (entry.1.pc, info) ∈ targets ∧
        ∀ target ∈ info.allTargets, target ∈ labels)
    (hresolved : ∀ found ∈ targets, entry.1.pc = found.1 ∧
      resolveSetpcTargets program entry.2 = some found.2) :
    LabelScan.Complete program (before ++ [entry])
      { labels := scan.labels ++ labels, setpcTargets := scan.setpcTargets ++ targets,
        indirectSetpc := indirect } := by
  have hentry : ∀ {p : Instruction × ℕ → Prop}, (∀ e ∈ before, p e) → p entry →
      ∀ e ∈ before ++ [entry], p e := fun hold hnew e he =>
    (List.mem_append.1 he).elim (hold e) fun he => List.mem_singleton.1 he ▸ hnew
  refine ⟨List.mem_append_left _ h.first, List.mem_append_left _ h.last, fun label hlabel => ?_,
    ?_, ?_, ?_, fun found hfound => ?_⟩
  · rcases List.mem_append.1 hlabel with hold | hnew
    · obtain hf | hl | hv | ⟨e, he, heq⟩ := h.sources label hold
      · exact .inl hf
      · exact .inr (.inl hl)
      · exact .inr (.inr (.inl hv))
      · exact .inr (.inr (.inr ⟨e, List.mem_append_left _ he, heq⟩))
    · obtain hl | hv | heq := hsources label hnew
      · exact .inr (.inl hl)
      · exact .inr (.inr (.inl hv))
      · exact .inr (.inr (.inr ⟨entry, by simp, heq⟩))
  · exact hentry (fun e he hb => List.mem_append_left _ (h.branches e he hb))
      fun hb => List.mem_append_right _ (hbranch hb)
  · exact hentry (fun e he hb hle => List.mem_append_left _ (h.ends e he hb hle))
      fun hb hle => List.mem_append_right _ (hends hb hle)
  · refine hentry (fun e he hb hop => ?_) fun hb hop => ?_
    · obtain ⟨info, hinfo, hmem, hall⟩ := h.setpcs e he hb hop
      exact ⟨info, hinfo, List.mem_append_left _ hmem,
        fun target ht => List.mem_append_left _ (hall target ht)⟩
    · obtain ⟨info, hinfo, hmem, hall⟩ := hsetpc hb hop
      exact ⟨info, hinfo, List.mem_append_right _ hmem,
        fun target ht => List.mem_append_right _ (hall target ht)⟩
  · rcases List.mem_append.1 hfound with hold | hnew
    · obtain ⟨e, he, heq⟩ := h.resolved found hold
      exact ⟨e, List.mem_append_left _ he, heq⟩
    · exact ⟨entry, by simp, hresolved found hnew⟩

theorem mem_nextLabel {nextPc label : ℕ} :
    label ∈ nextLabel program nextPc ↔ nextPc ≤ programEndPc program ∧ label = nextPc := by
  unfold nextLabel
  split_ifs with hle
  · rw [List.mem_singleton, and_iff_right hle]
  · exact iff_of_false List.not_mem_nil fun h => hle h.1

/-- **One instruction of the scan.** -/
theorem scanInstruction_complete {before : List (Instruction × ℕ)} {scan scan' : LabelScan}
    {entry : Instruction × ℕ} (h : scanInstruction program scan entry = .ok scan')
    (hscan : scan.Complete program before) : scan'.Complete program (before ++ [entry]) := by
  unfold scanInstruction at h
  dsimp only at h
  split_ifs at h with hbranch hvalid hsetpc hend
  · -- a branch to a valid target
    cases h
    have hnext := hscan.extend
      (entry.1.branchTarget :: nextLabel program (instructionEndPc entry.1)) [] scan.indirectSetpc
      (fun label hlabel => ?_) (fun _ => List.mem_cons_self)
      (fun _ hle => List.mem_cons_of_mem _ (mem_nextLabel.2 ⟨hle, rfl⟩))
      (fun hno => absurd hbranch (by rw [hno]; exact Bool.false_ne_true)) (by simp)
    · rwa [List.append_nil] at hnext
    · rcases List.mem_cons.1 hlabel with rfl | hlabel
      · exact .inr (.inl hvalid)
      · exact .inr (.inr (mem_nextLabel.1 hlabel).2)
  · split at h
    · cases h
    · rename_i info hinfo
      split at h
      · cases h
      · rename_i hfind
        cases h
        have hvalid : ∀ target ∈ info.allTargets, isValidTarget program target = true := by
          intro target ht
          simpa using List.find?_eq_none.1 hfind target ht
        have hnext := hscan.extend
          (info.allTargets ++ nextLabel program (instructionEndPc entry.1)) [(entry.1.pc, info)]
          (scan.indirectSetpc || info.indirect) (fun label hlabel => ?_)
          (fun hb => absurd hb hbranch)
          (fun _ hle => List.mem_append_right _ (mem_nextLabel.2 ⟨hle, rfl⟩))
          (fun _ _ => ⟨info, hinfo, List.mem_singleton_self _,
            fun target ht => List.mem_append_left _ ht⟩)
          (fun found hfound => by
            rw [List.mem_singleton.1 hfound]
            exact ⟨rfl, hinfo⟩)
        · rwa [← List.append_assoc] at hnext
        · rcases List.mem_append.1 hlabel with ht | hlabel
          · exact .inr (.inl (hvalid label ht))
          · exact .inr (.inr (mem_nextLabel.1 hlabel).2)
  · cases h
    have hnext := hscan.extend [instructionEndPc entry.1] [] scan.indirectSetpc
      (fun label hlabel => .inr (.inr (List.mem_singleton.1 hlabel))) (fun hb => absurd hb hbranch)
      (fun _ _ => List.mem_singleton_self _) (fun _ hop => absurd hop hsetpc) (by simp)
    rwa [List.append_nil] at hnext
  · -- any other instruction
    cases h
    have hnot : endsBlock entry.1.opcode = false := by
      rw [not_or] at hend
      simp [endsBlock, hbranch, hsetpc, hend]
    have hnext := hscan.extend [] [] scan.indirectSetpc (by simp)
      (fun hb => absurd hb hbranch)
      (fun hb => absurd hb (by rw [hnot]; exact Bool.false_ne_true))
      (fun _ hop => absurd hop hsetpc) (by simp)
    rwa [List.append_nil, List.append_nil] at hnext

/-- **The label scan** has collected the labels of all instructions. -/
theorem scanLabels_complete {scan : LabelScan} (h : scanLabels program = .ok scan) :
    scan.Complete program program.instructions.zipIdx := by
  refine foldlM_invariant_prefix (I := fun before scan => scan.Complete program before)
    (fun before entry scan scan' hscan hstep => scanInstruction_complete hstep hscan) h ?_
  refine ⟨by simp, by simp, fun label hlabel => ?_, by simp, by simp, by simp, by simp⟩
  rcases List.mem_cons.1 hlabel with hf | hl
  · exact .inl hf
  · exact .inr (.inl (List.mem_singleton.1 hl))

/-- Labels lie between the first pc and the end. -/
theorem LabelScan.Complete.bounds (ha : program.Ascending) {scan : LabelScan}
    (h : scan.Complete program program.instructions.zipIdx)
    (hfirst : firstPc program ≤ programEndPc program) {label : ℕ} (hlabel : label ∈ scan.labels) :
    firstPc program ≤ label ∧ label ≤ programEndPc program := by
  obtain rfl | rfl | hvalid | ⟨entry, hentry, rfl⟩ := h.sources label hlabel
  · exact ⟨le_rfl, hfirst⟩
  · exact ⟨hfirst, le_rfl⟩
  · rw [isValidTarget, Bool.or_eq_true, beq_iff_eq, Bool.and_eq_true, decide_eq_true_eq,
      decide_eq_true_eq] at hvalid
    obtain rfl | ⟨hge, hpc⟩ := hvalid
    · exact ⟨hfirst, le_rfl⟩
    · obtain ⟨inst, hinst, rfl⟩ := List.mem_map.1 hpc
      obtain ⟨i, hi⟩ := List.getElem?_of_mem hinst
      exact ⟨hge, (ha.pc_lt_end hi).le.trans (ha.end_le_programEndPc hi)⟩
  · have hi := List.mem_zipIdx_iff_getElem?.1 hentry
    exact ⟨(ha.firstPc_le hi).trans (ha.pc_lt_end hi).le, ha.end_le_programEndPc hi⟩

/-! ### Blocks -/

/-- The block at a label, given with the pc of the next label or the end. -/
def blockAtLabel (program : Program) (i start stop : ℕ) : BasicBlock :=
  { id := i, startPc := start, endPc := stop, instBegin := lowerBound program start,
    instEnd := lowerBound program stop }

/-- What the block loop gets to see of a label: the next one, if any. -/
theorem getElem?_labels_zip (labels : List ℕ) (i : ℕ) :
    (labels.zip ((labels.drop 1).map some ++ [none]))[i]? =
      (labels[i]?).map fun start => (start, labels[i + 1]?) := by
  rw [List.zip, List.getElem?_zipWith]
  by_cases hi : i < labels.length
  · rw [List.getElem?_eq_getElem hi, Option.map_some]
    have hnext : ((labels.drop 1).map some ++ [none])[i]? = some labels[i + 1]? := by
      by_cases hlast : i + 1 < labels.length
      · rw [List.getElem?_append_left (by simp; omega), List.getElem?_map, List.getElem?_drop,
          Nat.add_comm 1, List.getElem?_eq_getElem hlast, Option.map_some]
      · rw [List.getElem?_append_right (by simp; omega), List.getElem?_eq_none (not_lt.1 hlast)]
        simp only [List.length_map, List.length_drop]
        rw [show i - (labels.length - 1) = 0 by omega]
        rfl
    rw [hnext]
  · rw [List.getElem?_eq_none (not_lt.1 hi), Option.map_none]

/-- **The block loop** makes a block of every label. -/
theorem buildBlocks_spec {labels : List ℕ} (hle : ∀ label ∈ labels, label ≤ programEndPc program)
    {blocks : List BasicBlock} (h : buildBlocks program labels = .ok blocks) :
    (∀ i, blocks[i]? = (labels[i]?).map fun start =>
      blockAtLabel program i start ((labels[i + 1]?).getD (programEndPc program))) ∧
    ∀ label ∈ labels, label = programEndPc program ∨ label ∈ instructionPcs program := by
  have hinv : ∀ (l : List (ℕ × Option ℕ)), (∀ label ∈ l, label.1 ≤ programEndPc program) →
      l.foldlM (appendBlock program) [] = .ok blocks →
      blocks.length = l.length ∧ (∀ i, blocks[i]? = (l[i]?).map fun label =>
        blockAtLabel program i label.1 (label.2.getD (programEndPc program))) ∧
      ∀ label ∈ l, label.1 = programEndPc program ∨ label.1 ∈ instructionPcs program := by
    intro l hl hfold
    refine foldlM_invariant_prefix
      (I := fun before blocks => (∀ label ∈ before, label.1 ≤ programEndPc program) →
        blocks.length = before.length ∧ (∀ i, blocks[i]? = (before[i]?).map fun label =>
          blockAtLabel program i label.1 (label.2.getD (programEndPc program))) ∧
        ∀ label ∈ before, label.1 = programEndPc program ∨ label.1 ∈ instructionPcs program)
      (fun before label blocks blocks' hI hstep hbefore => ?_) hfold
      (fun _ => ⟨rfl, fun i => rfl, by simp⟩) hl
    obtain ⟨hlen, hget, hvalid⟩ := hI fun l hl => hbefore l (List.mem_append_left _ hl)
    unfold appendBlock at hstep
    dsimp only at hstep
    split_ifs at hstep with hend hstart
    · exact absurd (hbefore label (by simp)) (not_le.2 hend)
    · cases hstep
      refine ⟨by simp [hlen], fun i => ?_, fun l hl => ?_⟩
      · rcases Nat.lt_trichotomy i before.length with hlt | rfl | hgt
        · rw [List.getElem?_append_left (hlen ▸ hlt), List.getElem?_append_left hlt]
          exact hget i
        · rw [List.getElem?_append_right (hlen ▸ le_rfl), List.getElem?_append_right le_rfl, hlen,
            Nat.sub_self]
          rfl
        · rw [List.getElem?_eq_none (by simp; omega), List.getElem?_eq_none (by simp; omega)]
          rfl
      · rcases List.mem_append.1 hl with hl | hl
        · exact hvalid l hl
        · rw [List.mem_singleton.1 hl]
          exact (not_and_or.1 hstart).imp not_not.1 not_not.1
  have hmem : ∀ label ∈ labels.zip ((labels.drop 1).map some ++ [none]), label.1 ∈ labels :=
    fun label hlabel => (List.of_mem_zip hlabel).1
  obtain ⟨-, hget, hvalid⟩ := hinv _ (fun label hlabel => hle _ (hmem label hlabel)) h
  refine ⟨fun i => ?_, fun label hlabel => ?_⟩
  · rw [hget, getElem?_labels_zip, Option.map_map]
    rfl
  · obtain ⟨i, hi⟩ := List.getElem?_of_mem hlabel
    have hzip := getElem?_labels_zip labels i
    rw [hi, Option.map_some] at hzip
    exact hvalid _ (List.mem_of_getElem? hzip)

/-! ### Where control goes -/

/-- The pc where control goes on behind an instruction: the next instruction, or the end. -/
def followingPc (program : Program) (index : ℕ) : ℕ :=
  match program.instructions[index + 1]? with
  | some next => next.pc
  | none => programEndPc program

/-- The pcs that the instruction at an index can transfer control to. An `S_ENDPGM` goes to the
end, an `S_TRAP` ends the invocation, and an `S_SETPC_B64` goes to the targets it is resolved
to. -/
def controlTargets (program : Program) (index : ℕ) (inst : Instruction) : List ℕ :=
  if inst.opcode = .sTrap then []
  else if inst.opcode = .sEndpgm then [programEndPc program]
  else if inst.opcode = .sSetpcB64 then
    ((resolveSetpcTargets program index).map SetpcTargetInfo.allTargets).getD []
  else if isUnconditionalBranch inst.opcode then [inst.branchTarget]
  else if isConditionalBranch inst.opcode then [inst.branchTarget, instructionEndPc inst]
  else [followingPc program index]

/-- The successors of a terminator are the blocks at some pcs. -/
def GoesTo (blocks : List BasicBlock) (terminator : Terminator) (pcs : List ℕ) : Prop :=
  ∀ s, s ∈ terminatorSuccessors terminator ↔ ∃ pc ∈ pcs, blockOfPc blocks pc = some s

theorem blockOfPcAt_eq {blocks : List BasicBlock} {pc id : ℕ} :
    blockOfPcAt blocks pc = .ok id ↔ blockOfPc blocks pc = some id := by
  unfold blockOfPcAt
  split
  · rename_i found hfound
    rw [hfound, Except.ok.injEq, Option.some_inj]
  · rename_i hnone
    rw [hnone]
    exact iff_of_false nofun nofun

theorem branchTo_goesTo {blocks : List BasicBlock} {pc : ℕ} {terminator : Terminator}
    (h : branchTo blocks pc = .ok terminator) : GoesTo blocks terminator [pc] := by
  simp only [branchTo, bind_ok, pure_ok] at h
  obtain ⟨target, htarget, rfl⟩ := h
  rw [blockOfPcAt_eq] at htarget
  intro s
  have hsuccs : s ∈ terminatorSuccessors
      { kind := .branch, condition := .always, trueBlock := target } ↔ s = target :=
    List.mem_singleton
  rw [hsuccs]
  constructor
  · rintro rfl
    exact ⟨pc, List.mem_singleton_self pc, htarget⟩
  · rintro ⟨pc', hpc, hs⟩
    rw [List.mem_singleton.1 hpc, htarget] at hs
    exact (Option.some_inj.1 hs).symm

theorem return_goesTo (blocks : List BasicBlock) : GoesTo blocks { kind := .return_ } [] := fun _ =>
  iff_of_false List.not_mem_nil fun ⟨_, hpc, _⟩ => List.not_mem_nil hpc

theorem conditionalTerminator_goesTo {blocks : List BasicBlock} {block : BasicBlock}
    {last : Instruction} {terminator : Terminator}
    (h : conditionalTerminator blocks block last = .ok terminator) :
    GoesTo blocks terminator [last.branchTarget, instructionEndPc last] := by
  simp only [conditionalTerminator, bind_ok] at h
  obtain ⟨target, htarget, h⟩ := h
  rw [blockOfPcAt_eq] at htarget
  split at h
  · cases h
  · rename_i fallthrough hfall
    rw [pure_ok] at h
    subst h
    intro s
    have hsuccs : s ∈ terminatorSuccessors
        { kind := .conditionalBranch, condition := conditionForOpcode last.opcode,
          trueBlock := target, falseBlock := fallthrough } ↔ s = target ∨ s = fallthrough :=
      mem_addUnique.trans (or_congr_left List.mem_singleton)
    rw [hsuccs, List.exists_mem_cons_iff, htarget]
    simp only [List.mem_singleton, exists_eq_left, hfall, Option.some_inj]
    exact or_congr eq_comm eq_comm

theorem setpcTerminator_goesTo {blocks : List BasicBlock} {info : SetpcTargetInfo}
    {terminator : Terminator} (h : setpcTerminator blocks info = .ok terminator) :
    GoesTo blocks terminator info.allTargets := by
  unfold setpcTerminator at h
  unfold SetpcTargetInfo.allTargets
  split_ifs at h ⊢ with hindirect
  · simp only [bind_ok, pure_ok] at h
    obtain ⟨targets, htargets, selectorTargets, -, rfl⟩ := h
    intro s
    have hsuccs : s ∈ targets.foldl addUnique [] ↔ s ∈ targets :=
      mem_foldl_addUnique.trans (or_iff_right List.not_mem_nil)
    refine hsuccs.trans ⟨fun hs => ?_, fun ⟨pc, hpc, hs⟩ => ?_⟩
    · obtain ⟨pc, hpc, hs⟩ := exists_of_mem_mapM_ok htargets hs
      exact ⟨pc, hpc, blockOfPcAt_eq.1 hs⟩
    · obtain ⟨s', hs', hmem⟩ := mem_mapM_ok htargets hpc
      rw [blockOfPcAt_eq, hs, Option.some_inj] at hs'
      exact hs' ▸ hmem
  · exact branchTo_goesTo h

/-! ### The cut -/

/-- A program cut into blocks: strictly ascending labels from the first pc to the end, each at an
instruction, among them the target of every branch and the end of every instruction that ends a
block; and a block from each label to the next. -/
structure CutAt (program : Program) (labels : List ℕ) (blocks : List BasicBlock) : Prop where
  sorted : labels.Pairwise (· < ·)
  first : labels[0]? = some (firstPc program)
  last : programEndPc program ∈ labels
  le_end : ∀ label ∈ labels, label ≤ programEndPc program
  valid : ∀ label ∈ labels, label = programEndPc program ∨ label ∈ instructionPcs program
  branches : ∀ inst ∈ program.instructions, isBranch inst.opcode = true →
    inst.branchTarget ∈ labels
  ends : ∀ inst ∈ program.instructions, endsBlock inst.opcode = true →
    instructionEndPc inst ∈ labels
  blocks : ∀ i, blocks[i]? = (labels[i]?).map fun start =>
    blockAtLabel program i start ((labels[i + 1]?).getD (programEndPc program))

/-- **The scan and the block loop** cut the program. -/
theorem cutAt_of_scan (ha : program.Ascending) (hne : program.instructions ≠ [])
    {scan : LabelScan} (hscan : scan.Complete program program.instructions.zipIdx)
    {blocks : List BasicBlock} (h : buildBlocks program (sortUnique scan.labels) = .ok blocks) :
    CutAt program (sortUnique scan.labels) blocks := by
  have hfirst : firstPc program ≤ programEndPc program := by
    have hi := List.getElem?_eq_getElem (List.length_pos_iff.2 hne)
    exact ((ha.firstPc_le hi).trans (ha.pc_lt_end hi).le).trans (ha.end_le_programEndPc hi)
  have hbounds : ∀ label ∈ sortUnique scan.labels,
      firstPc program ≤ label ∧ label ≤ programEndPc program := fun label hlabel =>
    hscan.bounds ha hfirst (mem_sortUnique.1 hlabel)
  obtain ⟨hblocks, hvalid⟩ := buildBlocks_spec (fun label hlabel => (hbounds label hlabel).2) h
  have hsorted := sortUnique_pairwise scan.labels
  have hentry : ∀ inst ∈ program.instructions, ∃ i, (inst, i) ∈ program.instructions.zipIdx := by
    intro inst hinst
    obtain ⟨i, hi⟩ := List.getElem?_of_mem hinst
    exact ⟨i, List.mk_mem_zipIdx_iff_getElem?.2 hi⟩
  refine ⟨hsorted, ?_, mem_sortUnique.2 hscan.last, fun label hlabel => (hbounds label hlabel).2,
    hvalid, fun inst hinst hb => ?_, fun inst hinst hb => ?_, hblocks⟩
  · -- the first pc is a label, and no label is before it
    obtain ⟨i, hi⟩ := List.getElem?_of_mem (mem_sortUnique.2 hscan.first)
    obtain ⟨hlt, heq⟩ := List.getElem?_eq_some_iff.1 hi
    cases i with
    | zero => exact hi
    | succ i =>
      have hbefore := List.pairwise_iff_getElem.1 hsorted 0 (i + 1) (by omega) hlt (by omega)
      have hge := (hbounds _ (List.getElem_mem (by omega : 0 < (sortUnique scan.labels).length))).1
      omega
  · obtain ⟨i, hi⟩ := hentry inst hinst
    exact mem_sortUnique.2 (hscan.branches _ hi hb)
  · obtain ⟨i, hi⟩ := hentry inst hinst
    exact mem_sortUnique.2 (hscan.ends _ hi hb
      (ha.end_le_programEndPc (List.mk_mem_zipIdx_iff_getElem?.1 hi)))

namespace CutAt

variable {labels : List ℕ} {blocks : List BasicBlock} (h : CutAt program labels blocks)
include h

theorem length : blocks.length = labels.length := by
  refine le_antisymm (not_lt.1 fun hlt => ?_) (not_lt.1 fun hlt => ?_)
  · have hi := h.blocks labels.length
    rw [List.getElem?_eq_getElem hlt, List.getElem?_eq_none le_rfl] at hi
    cases hi
  · have hi := h.blocks blocks.length
    rw [List.getElem?_eq_none le_rfl, List.getElem?_eq_getElem hlt] at hi
    cases hi

/-- Labels are in order. -/
theorem lt_iff {i j a b : ℕ} (hi : labels[i]? = some a) (hj : labels[j]? = some b) :
    i < j ↔ a < b := by
  have hlt : ∀ {i j a b : ℕ}, labels[i]? = some a → labels[j]? = some b → i < j → a < b := by
    intro i j a b hi hj hij
    obtain ⟨hltI, rfl⟩ := List.getElem?_eq_some_iff.1 hi
    obtain ⟨hltJ, rfl⟩ := List.getElem?_eq_some_iff.1 hj
    exact List.pairwise_iff_getElem.1 h.sorted i j hltI hltJ hij
  refine ⟨hlt hi hj, fun hab => ?_⟩
  rcases Nat.lt_trichotomy i j with hij | rfl | hji
  · exact hij
  · rw [hi] at hj
    cases hj
    exact absurd hab (lt_irrefl _)
  · exact absurd (hlt hj hi hji) (Nat.lt_asymm hab)

theorem index_unique {i j a : ℕ} (hi : labels[i]? = some a) (hj : labels[j]? = some a) : i = j := by
  rcases Nat.lt_trichotomy i j with hij | rfl | hji
  · exact absurd ((h.lt_iff hi hj).1 hij) (lt_irrefl _)
  · rfl
  · exact absurd ((h.lt_iff hj hi).1 hji) (lt_irrefl _)

/-- `pc_to_block`. -/
theorem blockOfPc_iff {pc s : ℕ} : blockOfPc blocks pc = some s ↔ labels[s]? = some pc := by
  have hfound : ∀ block ∈ blocks, block.startPc = pc → labels[block.id]? = some pc := by
    intro block hblock hpc
    obtain ⟨i, hi⟩ := List.getElem?_of_mem hblock
    rw [h.blocks i] at hi
    obtain ⟨start, hstart, rfl⟩ := Option.map_eq_some_iff.1 hi
    have hpc : start = pc := hpc
    exact hpc ▸ hstart
  unfold blockOfPc
  constructor
  · intro hs
    obtain ⟨block, hfind, rfl⟩ := Option.map_eq_some_iff.1 hs
    have hpc := List.find?_some hfind
    exact hfound block (List.mem_of_find?_eq_some hfind) (by simpa using hpc)
  · intro hs
    cases hfind : blocks.find? fun block => block.startPc == pc with
    | none =>
      have hblock := h.blocks s
      rw [hs, Option.map_some] at hblock
      have hnot := List.find?_eq_none.1 hfind _ (List.mem_of_getElem? hblock)
      exact absurd (beq_self_eq_true pc) hnot
    | some block =>
      have hpc := List.find?_some hfind
      have hid := hfound block (List.mem_of_find?_eq_some hfind) (by simpa using hpc)
      rw [Option.map_some, h.index_unique hid hs]

/-- Behind the last label is nothing, and the last label is the end. -/
theorem next_or_end {i start : ℕ} (hi : labels[i]? = some start) :
    (∃ stop, labels[i + 1]? = some stop ∧ start < stop) ∨
      labels[i + 1]? = none ∧ start = programEndPc program := by
  cases hnext : labels[i + 1]? with
  | some stop => exact .inl ⟨stop, rfl, (h.lt_iff hi hnext).1 (Nat.lt_succ_self i)⟩
  | none =>
    refine .inr ⟨rfl, ?_⟩
    obtain ⟨j, hj⟩ := List.getElem?_of_mem h.last
    have hle := h.le_end start (List.mem_of_getElem? hi)
    obtain heq | hlt := Nat.eq_or_lt_of_le hle
    · exact heq
    · -- the end would be a later label
      have hij := (h.lt_iff hi hj).2 hlt
      have hlen := List.getElem?_eq_none_iff.1 hnext
      have hjlt := (List.getElem?_eq_some_iff.1 hj).1
      omega

/-- No label lies inside of a block. -/
theorem stop_le {i start label : ℕ} (hi : labels[i]? = some start) (hlabel : label ∈ labels)
    (hlt : start < label) : (labels[i + 1]?).getD (programEndPc program) ≤ label := by
  obtain ⟨j, hj⟩ := List.getElem?_of_mem hlabel
  have hij := (h.lt_iff hi hj).2 hlt
  obtain ⟨stop, hstop, -⟩ | ⟨-, rfl⟩ := h.next_or_end hi
  · rw [hstop, Option.getD_some]
    by_contra hgt
    have hji := (h.lt_iff hj hstop).2 (not_le.1 hgt)
    omega
  · exact absurd (h.le_end label hlabel) (not_le.2 hlt)

/-- Every pc of the program lies between two labels that follow each other. -/
theorem exists_between {pc : ℕ} (hfirst : firstPc program ≤ pc) (hend : pc < programEndPc program) :
    ∃ i start stop, labels[i]? = some start ∧ labels[i + 1]? = some stop ∧ start ≤ pc ∧
      pc < stop := by
  have hdown : ∀ j l : ℕ, labels[j]? = some l → pc < l →
      ∃ i start stop, labels[i]? = some start ∧ labels[i + 1]? = some stop ∧ start ≤ pc ∧
        pc < stop := by
    intro j
    induction j with
    | zero =>
      intro l hl hlt
      rw [h.first, Option.some_inj] at hl
      omega
    | succ j ih =>
      intro l hl hlt
      have hj : j < labels.length := (Nat.lt_succ_self j).trans (List.getElem?_eq_some_iff.1 hl).1
      have hprev := List.getElem?_eq_getElem hj
      by_cases hlt' : pc < labels[j]
      · exact ih _ hprev hlt'
      · exact ⟨j, _, l, hprev, hl, not_lt.1 hlt', hlt⟩
  obtain ⟨j, hj⟩ := List.getElem?_of_mem h.last
  exact hdown j _ hj hend

section

variable (ha : program.Ascending)
include ha

/-- A block with a next label has instructions, and the first is at its label. -/
theorem exists_first {i start stop : ℕ} (hi : labels[i]? = some start)
    (hstop : labels[i + 1]? = some stop) :
    lowerBound program start < lowerBound program stop ∧
      ∃ first, program.instructions[lowerBound program start]? = some first ∧ first.pc = start := by
  have hlt := (h.lt_iff hi hstop).1 (Nat.lt_succ_self i)
  have hne : start ≠ programEndPc program := by
    have := h.le_end stop (List.mem_of_getElem? hstop)
    omega
  have hpc := (h.valid start (List.mem_of_getElem? hi)).resolve_left hne
  obtain ⟨inst, hinst, rfl⟩ := List.mem_map.1 hpc
  obtain ⟨k, hk⟩ := List.getElem?_of_mem hinst
  rw [ha.lowerBound_pc hk]
  exact ⟨(ha.lt_lowerBound_iff hk).2 hlt, inst, hk, rfl⟩

/-- Behind the last instruction of a block, control falls to its stop. -/
theorem followingPc_eq {i start stop : ℕ} (hi : labels[i]? = some start)
    (hstop : labels[i + 1]? = some stop) :
    followingPc program (lowerBound program stop - 1) = stop := by
  have hpos := (h.exists_first ha hi hstop).1
  rw [followingPc, show lowerBound program stop - 1 + 1 = lowerBound program stop by omega]
  obtain rfl | hpc := h.valid stop (List.mem_of_getElem? hstop)
  · rw [ha.lowerBound_end, List.getElem?_eq_none le_rfl]
  · obtain ⟨inst, hinst, rfl⟩ := List.mem_map.1 hpc
    obtain ⟨k, hk⟩ := List.getElem?_of_mem hinst
    rw [ha.lowerBound_pc hk, hk]

/-- **Every terminator** goes where the last instruction of its block can transfer control to; a
block without instructions goes nowhere. -/
theorem terminatorOf_goesTo {scan : LabelScan}
    (hscan : scan.Complete program program.instructions.zipIdx) {i start : ℕ}
    (hi : labels[i]? = some start) {terminator : Terminator}
    (ht : terminatorOf program scan.setpcTargets blocks
      (blockAtLabel program i start ((labels[i + 1]?).getD (programEndPc program))) =
        .ok terminator) :
    (labels[i + 1]? = none ∧ GoesTo blocks terminator []) ∨
    ∃ stop last, labels[i + 1]? = some stop ∧
      program.instructions[lowerBound program stop - 1]? = some last ∧
      GoesTo blocks terminator (controlTargets program (lowerBound program stop - 1) last) := by
  obtain ⟨stop, hstop, hlt⟩ | ⟨hnone, rfl⟩ := h.next_or_end hi
  · right
    have hpos := (h.exists_first ha hi hstop).1
    have hle := @lowerBound_le program stop
    obtain ⟨last, hlast⟩ : ∃ last, program.instructions[lowerBound program stop - 1]? = some last :=
      ⟨_, List.getElem?_eq_getElem (by omega)⟩
    refine ⟨stop, last, hstop, hlast, ?_⟩
    rw [hstop, Option.getD_some] at ht
    have hlastOf : lastInstruction program (blockAtLabel program i start stop) = last := by
      show (program.instructions[lowerBound program stop - 1]?).getD {} = last
      rw [hlast, Option.getD_some]
    unfold terminatorOf at ht
    rw [if_neg (show ¬ (blockAtLabel program i start stop).instBegin =
      (blockAtLabel program i start stop).instEnd from hpos.ne), hlastOf] at ht
    dsimp only at ht
    unfold controlTargets
    split_ifs at ht ⊢ with htrap hend hsetpc hbranch hcond
    · cases ht
      exact return_goesTo blocks
    · exact branchTo_goesTo ht
    · rw [bind_ok] at ht
      obtain ⟨info, hinfo, ht⟩ := ht
      -- the entry for the pc is that of this instruction
      have hmem : (last.pc, info) ∈ scan.setpcTargets := by
        unfold setpcTargetsAt at hinfo
        split at hinfo
        · rename_i found hlookup
          cases hinfo
          obtain ⟨before, after, heq, -⟩ := List.lookup_eq_some_iff.1 hlookup
          rw [heq]
          simp
        · cases hinfo
      obtain ⟨entry, hentry, hpc, hresolved⟩ := hscan.resolved _ hmem
      have hindex := ha.index_unique (List.mem_zipIdx_iff_getElem?.1 hentry) hlast hpc
      rw [← hindex, hresolved]
      exact setpcTerminator_goesTo ht
    · exact branchTo_goesTo ht
    · exact conditionalTerminator_goesTo ht
    · cases ht
      have hnext := h.blockOfPc_iff.2 hstop
      rw [h.followingPc_eq ha hi hstop]
      unfold fallthroughTerminator
      have hend : (blockAtLabel program i start stop).endPc = stop := rfl
      rw [hend, hnext]
      dsimp only
      rw [if_pos (show stop ≠ (blockAtLabel program i start stop).startPc from hlt.ne')]
      exact branchTo_goesTo (by rw [branchTo, blockOfPcAt_eq.2 hnext]; rfl)
  · left
    rw [hnone, Option.getD_none] at ht
    have hempty : (blockAtLabel program i (programEndPc program) (programEndPc program)).instBegin =
        (blockAtLabel program i (programEndPc program) (programEndPc program)).instEnd := rfl
    unfold terminatorOf at ht
    rw [if_pos hempty] at ht
    cases ht
    exact ⟨hnone, return_goesTo blocks⟩

end

end CutAt

/-! ### The partition -/

/-- A block of the graph starts at a pc. -/
def Graph.StartsAt (graph : Graph) (s pc : ℕ) : Prop :=
  ∃ block, graph.blocks[s]? = some block ∧ block.startPc = pc

/-- The graph partitions the program. -/
structure Graph.Partitions (graph : Graph) (program : Program) : Prop where
  /-- The ranges are consecutive, from the first instruction to the last. -/
  first : ∃ block, graph.blocks[0]? = some block ∧ block.instBegin = 0
  consecutive : ∀ (i : ℕ) (a b : BasicBlock), graph.blocks[i]? = some a →
    graph.blocks[i + 1]? = some b → a.instEnd = b.instBegin
  last : ∀ (i : ℕ) (a : BasicBlock), graph.blocks[i]? = some a → graph.blocks[i + 1]? = none →
    a.instEnd = program.instructions.length
  /-- Every instruction is in the range of exactly one block. -/
  covers : ∀ k < program.instructions.length, ∃! i : ℕ, ∃ block : BasicBlock,
    graph.blocks[i]? = some block ∧ block.instBegin ≤ k ∧ k < block.instEnd
  /-- What ends a block occurs at the end of a block only. -/
  endings : ∀ block ∈ graph.blocks, ∀ (k : ℕ) (inst : Instruction), block.instBegin ≤ k →
    k < block.instEnd → program.instructions[k]? = some inst → endsBlock inst.opcode = true →
    k + 1 = block.instEnd
  /-- A branch goes to the first instruction of a block, or to the block at the end. -/
  targets : ∀ inst ∈ program.instructions, isBranch inst.opcode = true →
    ∃ block ∈ graph.blocks, block.startPc = inst.branchTarget ∧
      ((block.instBegin < block.instEnd ∧ ∃ first,
          program.instructions[block.instBegin]? = some first ∧ first.pc = inst.branchTarget) ∨
        (inst.branchTarget = programEndPc program ∧
          block.instBegin = program.instructions.length ∧ block.instEnd = block.instBegin))
  /-- The successors are the blocks at the pcs where the last instruction can transfer control to;
  a block without instructions has none. -/
  successors : ∀ block ∈ graph.blocks, ∀ s, s ∈ block.successors ↔
    block.instBegin < block.instEnd ∧ ∃ last,
      program.instructions[block.instEnd - 1]? = some last ∧
        ∃ pc ∈ controlTargets program (block.instEnd - 1) last, graph.StartsAt s pc

/-- **BuildGraph partitions the program.** -/
theorem buildGraph_partitions (ha : program.Ascending) (hbuild : buildGraph program = .ok g) :
    g.Partitions program := by
  obtain ⟨flow, hflow, -⟩ := bind_ok.1 hbuild
  obtain ⟨scan, blocks, hscan, hblocks, hlen, hterminated⟩ := flowGraph_spec hflow
  obtain ⟨hlenG, hgetG⟩ := buildGraph_getElem? hflow hbuild
  have hne : program.instructions ≠ [] := by
    intro hnil
    rw [flowGraph, hnil] at hflow
    cases hflow
  have hcomplete := scanLabels_complete hscan
  have hcut := cutAt_of_scan ha hne hcomplete hblocks
  generalize sortUnique scan.labels = labels at hcut
  -- a block of the graph, and its label
  have hget : ∀ (i : ℕ) (block : BasicBlock), g.blocks[i]? = some block →
      ∃ start, labels[i]? = some start ∧ block.startPc = start ∧
        block.instBegin = lowerBound program start ∧
        block.instEnd = lowerBound program ((labels[i + 1]?).getD (programEndPc program)) ∧
        ∀ s, s ∈ block.successors ↔ block.instBegin < block.instEnd ∧ ∃ last,
          program.instructions[block.instEnd - 1]? = some last ∧
            ∃ pc ∈ controlTargets program (block.instEnd - 1) last, labels[s]? = some pc := by
    intro i block hi
    obtain ⟨flowBlock, hflowBlock, hstart, hbegin, hend, hsuccs⟩ := hgetG i block hi
    obtain ⟨base, terminator, hbase, hterminator, rfl⟩ := hterminated i flowBlock hflowBlock
    rw [hcut.blocks i] at hbase
    obtain ⟨start, hlabel, rfl⟩ := Option.map_eq_some_iff.1 hbase
    refine ⟨start, hlabel, hstart, hbegin, hend, fun s => ?_⟩
    have hbegin : block.instBegin = lowerBound program start := hbegin
    have hend : block.instEnd =
        lowerBound program ((labels[i + 1]?).getD (programEndPc program)) := hend
    rw [hsuccs, mem_sortUnique, hbegin, hend]
    obtain ⟨hnone, hgoes⟩ | ⟨stop, last, hstop, hlast, hgoes⟩ :=
      hcut.terminatorOf_goesTo ha hcomplete hlabel hterminator
    · -- the block at the end
      obtain ⟨stop, hstop, -⟩ | ⟨-, rfl⟩ := hcut.next_or_end hlabel
      · rw [hnone] at hstop
        cases hstop
      · rw [hnone, Option.getD_none]
        refine iff_of_false (fun hs => ?_) fun hs => absurd hs.1 (lt_irrefl _)
        obtain ⟨pc, hpc, -⟩ := (hgoes s).1 hs
        exact List.not_mem_nil hpc
    · rw [hstop, Option.getD_some, and_iff_right (hcut.exists_first ha hlabel hstop).1, hlast]
      refine (hgoes s).trans ?_
      simp only [hcut.blockOfPc_iff, Option.some_inj, exists_eq_left']
  have hblock : ∀ {i start : ℕ}, labels[i]? = some start → ∃ block, g.blocks[i]? = some block := by
    intro i start hi
    have hlt := (List.getElem?_eq_some_iff.1 hi).1
    exact ⟨_, List.getElem?_eq_getElem (by rw [hlenG, hlen, hcut.length]; exact hlt)⟩
  have hstartsAt : ∀ {s pc : ℕ}, g.StartsAt s pc ↔ labels[s]? = some pc := by
    intro s pc
    constructor
    · rintro ⟨block, hs, rfl⟩
      obtain ⟨start, hlabel, hstart, -⟩ := hget s block hs
      exact hstart ▸ hlabel
    · intro hs
      obtain ⟨block, hi⟩ := hblock hs
      obtain ⟨start, hlabel, hstart, -⟩ := hget s block hi
      rw [hs] at hlabel
      exact ⟨block, hi, hstart.trans (Option.some_inj.1 hlabel).symm⟩
  refine ⟨?_, ?_, ?_, ?_, ?_, ?_, ?_⟩
  · obtain ⟨block, hi⟩ := hblock hcut.first
    obtain ⟨start, hlabel, -, hbegin, -⟩ := hget 0 block hi
    rw [hcut.first] at hlabel
    cases hlabel
    obtain ⟨inst, rest, hinsts⟩ := List.exists_cons_of_ne_nil hne
    have hzero : program.instructions[0]? = some inst := by rw [hinsts]; rfl
    have hpc : firstPc program = inst.pc := by rw [firstPc, hinsts]; rfl
    exact ⟨block, hi, by rw [hbegin, hpc, ha.lowerBound_pc hzero]⟩
  · intro i a b hi hnext
    obtain ⟨start, hlabel, -, -, hend, -⟩ := hget i a hi
    obtain ⟨stop, hstop, -, hbegin, -, -⟩ := hget (i + 1) b hnext
    rw [hend, hbegin, hstop, Option.getD_some]
  · intro i a hi hnone
    obtain ⟨start, hlabel, -, -, hend, -⟩ := hget i a hi
    cases hstop : labels[i + 1]? with
    | none => rw [hend, hstop, Option.getD_none, ha.lowerBound_end]
    | some stop =>
      obtain ⟨block, hblock⟩ := hblock hstop
      rw [hblock] at hnone
      cases hnone
  · intro k hk
    have hinst := List.getElem?_eq_getElem hk
    -- a range contains the instruction exactly when the pc lies between its labels
    have hrange : ∀ {i : ℕ} {block : BasicBlock}, g.blocks[i]? = some block →
        ∃ start, labels[i]? = some start ∧ (block.instBegin ≤ k ∧ k < block.instEnd ↔
          start ≤ program.instructions[k].pc ∧ program.instructions[k].pc <
            (labels[i + 1]?).getD (programEndPc program)) := by
      intro i block hi
      obtain ⟨start, hlabel, -, hbegin, hend, -⟩ := hget i block hi
      refine ⟨start, hlabel, ?_⟩
      rw [hbegin, hend, ha.lt_lowerBound_iff hinst, ← not_lt, ha.lt_lowerBound_iff hinst, not_lt]
    obtain ⟨i, start, stop, hlabel, hstop, hle, hlt⟩ := hcut.exists_between (ha.firstPc_le hinst)
      ((ha.pc_lt_end hinst).trans_le (ha.end_le_programEndPc hinst))
    obtain ⟨block, hi⟩ := hblock hlabel
    obtain ⟨start', hlabel', hiff⟩ := hrange hi
    rw [hlabel, Option.some_inj] at hlabel'
    subst hlabel'
    rw [hstop, Option.getD_some] at hiff
    refine ⟨i, ⟨block, hi, hiff.2 ⟨hle, hlt⟩⟩, ?_⟩
    rintro j ⟨other, hj, hin⟩
    obtain ⟨start', hlabel', hiff'⟩ := hrange hj
    obtain ⟨hle', hlt'⟩ := hiff'.1 hin
    -- of two labels before the pc, the first is not the last before it
    rcases Nat.lt_trichotomy start start' with hbefore | rfl | hafter
    · have := hcut.stop_le hlabel (List.mem_of_getElem? hlabel') hbefore
      rw [hstop, Option.getD_some] at this
      omega
    · exact hcut.index_unique hlabel' hlabel
    · have := hcut.stop_le hlabel' (List.mem_of_getElem? hlabel) hafter
      omega
  · -- the end of the instruction is a label, and not inside of the block
    intro block hmem k inst hbegin hend hk hends
    obtain ⟨i, hi⟩ := List.getElem?_of_mem hmem
    obtain ⟨start, hlabel, -, hbegin', hend', -⟩ := hget i block hi
    have hmem := List.mem_of_getElem? hk
    have hpc : start ≤ inst.pc := by
      by_contra hlt
      have := (ha.lt_lowerBound_iff hk).2 (not_le.1 hlt)
      omega
    have hstop := hcut.stop_le hlabel (hcut.ends inst hmem hends)
      (hpc.trans_lt (ha.pc_lt_end hk))
    by_contra hne'
    obtain ⟨next, hnext⟩ : ∃ next, program.instructions[k + 1]? = some next := by
      have hle := @lowerBound_le program ((labels[i + 1]?).getD (programEndPc program))
      exact ⟨_, List.getElem?_eq_getElem (by omega)⟩
    have hinside := (ha.lt_lowerBound_iff hnext).1 (by omega : k + 1 < lowerBound program
      ((labels[i + 1]?).getD (programEndPc program)))
    have hafter := ha.end_le (Nat.lt_succ_self k) hk hnext
    omega
  · intro inst hinst hb
    obtain ⟨i, hlabel⟩ := List.getElem?_of_mem (hcut.branches inst hinst hb)
    obtain ⟨block, hi⟩ := hblock hlabel
    obtain ⟨start, hlabel', hstart, hbegin, hend, -⟩ := hget i block hi
    rw [hlabel] at hlabel'
    cases hlabel'
    refine ⟨block, List.mem_of_getElem? hi, hstart, ?_⟩
    obtain ⟨stop, hstop, -⟩ | ⟨hnone, heq⟩ := hcut.next_or_end hlabel
    · obtain ⟨hpos, first, hfirst, hpc⟩ := hcut.exists_first ha hlabel hstop
      rw [hbegin, hend, hstop, Option.getD_some]
      exact .inl ⟨hpos, first, hfirst, hpc⟩
    · refine .inr ⟨heq, ?_, ?_⟩
      · rw [hbegin, heq, ha.lowerBound_end]
      · rw [hbegin, hend, hnone, Option.getD_none, heq]
  · intro block hmem s
    obtain ⟨i, hi⟩ := List.getElem?_of_mem hmem
    obtain ⟨start, -, -, -, -, hsuccs⟩ := hget i block hi
    rw [hsuccs]
    simp only [hstartsAt]

/-- The successors of a block are the blocks that a wave at its last instruction can go to. It
cannot be told for an `S_SETPC_B64`, nor behind an instruction that a gap follows. -/
def Graph.FollowsExecution (graph : Graph) (program : Program) : Prop :=
  ∀ block ∈ graph.blocks, ∀ last : Instruction, block.instBegin < block.instEnd →
    program.instructions[block.instEnd - 1]? = some last → last.opcode ≠ .sSetpcB64 →
      last.opcode ≠ .sEndpgm ∧ last.opcode ≠ .sTrap →
        followingPc program (block.instEnd - 1) = instructionEndPc last →
          ∀ (writes : Instruction → ℕ → Prop) (s : ℕ), s ∈ block.successors ↔
            ∃ pc, last.ExecutesTo program.code writes pc ∧ graph.StartsAt s pc

theorem Graph.Partitions.followsExecution (h : g.Partitions program) :
    g.FollowsExecution program := by
  intro block hmem last hlt hlast hsetpc hend hnext writes s
  rw [h.successors block hmem s, and_iff_right hlt, hlast]
  simp only [Option.some_inj, exists_eq_left']
  refine exists_congr fun pc => and_congr_left fun _ => ?_
  rw [executesTo_iff hsetpc hend, controlTargets, if_neg hend.2, if_neg hend.1, if_neg hsetpc,
      hnext]

/-- The graph of `enteredSequence`. -/
theorem enteredSequence_graph : ∃ g, buildGraph enteredSequence = .ok g ∧
    g.blocks.map BasicBlock.startPc = [0, 4, 12, 16, 20, 24] ∧
    g.blocks.map BasicBlock.instEnd = [1, 3, 4, 5, 6, 6] ∧
    g.blocks.map BasicBlock.successors = [[1], [2], [1, 3], [4], [5], []] := by
  refine ⟨((buildGraph enteredSequence).toOption).getD {}, ?_, ?_, ?_, ?_⟩ <;> decide +kernel

end Prosperismo.Cfg
