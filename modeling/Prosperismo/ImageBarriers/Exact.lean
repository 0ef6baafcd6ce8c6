import Mathlib.Data.List.Nodup
import Mathlib.Data.List.Range
import Prosperismo.Base.Run
import Prosperismo.ImageBarriers.Model

/-!
# What an image remembers is what it is in

The GPU beside the image: the layout every subresource is in, which the barriers change, and the
access that it was last brought there for. `Tracks` says that the image remembers both, and
`barriers_exact` that it does so after every run of calls. The aggregate is worth nothing while
there is a table, and `tracked` does not look at it then.

The loops over a range are dealt with once, in `transitCells_spec`, by induction over the cells: the
cells are different, so a barrier changes no cell whose turn is still to come.
-/

namespace Prosperismo.ImageBarriers

variable {info : ImageInfo} {backing : VulkanImage} {call : Call}

/-! ### The GPU -/

/-- The subresources a barrier is about. -/
def ImageMemoryBarrier.Covers (barrier : ImageMemoryBarrier) (level layer : ℕ) : Prop :=
  (barrier.baseMipLevel ≤ level ∧
    (barrier.levelCount = remaining ∨ level < barrier.baseMipLevel + barrier.levelCount)) ∧
  (barrier.baseArrayLayer ≤ layer ∧
    (barrier.layerCount = remaining ∨ layer < barrier.baseArrayLayer + barrier.layerCount))

instance (barrier : ImageMemoryBarrier) (level layer : ℕ) :
    Decidable (barrier.Covers level layer) := by
  unfold ImageMemoryBarrier.Covers
  infer_instance

/-- A barrier is executed: what it covers is in its new layout. -/
def execute (barrier : ImageMemoryBarrier) (real : ℕ → ℕ → ImageLayout) (level layer : ℕ) :
    ImageLayout :=
  if barrier.Covers level layer then barrier.newLayout else real level layer

/-- Barriers are executed in order. -/
def executeAll : List ImageMemoryBarrier → (ℕ → ℕ → ImageLayout) → ℕ → ℕ → ImageLayout
  | [], real => real
  | barrier :: barriers, real => executeAll barriers (execute barrier real)

/-- Every barrier finds all the subresources it covers in its old layout. -/
def Legal (info : ImageInfo) : (ℕ → ℕ → ImageLayout) → List ImageMemoryBarrier → Prop
  | _, [] => True
  | real, barrier :: barriers =>
    (∀ level < info.levels, ∀ layer < info.layers, barrier.Covers level layer →
      real level layer = barrier.oldLayout) ∧ Legal info (execute barrier real) barriers

/-- What the GPU has of the subresources: the layout, and the last access asked for. -/
structure Gpu where
  layout : ℕ → ℕ → ImageLayout
  access : ℕ → ℕ → AccessFlags

/-- A new image: `eUndefined`, and no access. -/
def Gpu.fresh : Gpu := ⟨fun _ _ => 0, fun _ _ => 0⟩

/-! ### Ranges -/

/-- A level and layer of a range. -/
def ImageSubresourceRange.Has (range : ImageSubresourceRange) (level layer : ℕ) : Prop :=
  (range.baseLevel ≤ level ∧ level < range.baseLevel + range.levelCount) ∧
    (range.baseLayer ≤ layer ∧ layer < range.baseLayer + range.layerCount)

instance (range : ImageSubresourceRange) (level layer : ℕ) : Decidable (range.Has level layer) := by
  unfold ImageSubresourceRange.Has
  infer_instance

/-- A range is inside of the image. -/
def ImageSubresourceRange.Inside (info : ImageInfo) (range : ImageSubresourceRange) : Prop :=
  range.baseLevel + range.levelCount ≤ info.levels ∧
    range.baseLayer + range.layerCount ≤ info.layers

/-- The range of a call, if it has one, is inside of the image. The layers of a range of a volume
are slices of it, and may be any. -/
def Call.Valid (info : ImageInfo) (call : Call) : Prop :=
  ∀ range, call.range = some range →
    range.baseLevel + range.levelCount ≤ info.levels ∧
      (info.isVolume = false → range.baseLayer + range.layerCount ≤ info.layers)

/-- The range a call is about. -/
def Call.covered (info : ImageInfo) (call : Call) : ImageSubresourceRange :=
  (call.normalized info).getD info.whole

/-- The GPU after a call: the barriers are executed, and the range has got its access. -/
def Gpu.after (gpu : Gpu) (info : ImageInfo) (call : Call) (barriers : List ImageMemoryBarrier) :
    Gpu where
  layout := executeAll barriers gpu.layout
  access := fun level layer =>
    if (call.covered info).Has level layer then call.destinationAccess else gpu.access level layer

theorem Call.Valid.inside (h : call.Valid info) : (call.covered info).Inside info := by
  unfold Call.covered Call.normalized
  cases hrange : call.range with
  | none => exact ⟨by simp [ImageInfo.whole], by simp [ImageInfo.whole]⟩
  | some range =>
    obtain ⟨hlevels, hlayers⟩ := h range hrange
    by_cases hvolume : info.isVolume = true
    · simp only [Option.map_some, hvolume, if_true, Option.getD_some]
      exact ⟨hlevels, by simp [info.layers_volume hvolume]⟩
    · rw [Bool.not_eq_true] at hvolume
      simp only [Option.map_some, hvolume, Bool.false_eq_true, if_false, Option.getD_some]
      exact ⟨hlevels, hlayers hvolume⟩

/-- A range that is not partial is all of the image. -/
theorem covered_of_isPartial_false (h : isPartial info (call.normalized info) = false) :
    call.covered info = info.whole := by
  unfold Call.covered
  unfold isPartial at h
  cases hrange : call.normalized info with
  | none => rfl
  | some range =>
    rw [hrange] at h
    simp only [Option.any_some, Bool.or_eq_false_iff, bne_eq_false_iff_eq] at h
    obtain ⟨⟨⟨hbase, hcount⟩, hlayer⟩, hlayers⟩ := h
    cases range
    simp only at hbase hcount hlayer hlayers
    subst hbase hcount hlayer hlayers
    rfl

theorem levels_lt (info : ImageInfo) : info.levels < 0x100000000 :=
  lt_of_le_of_lt info.levels_le (by decide)

theorem layers_lt (info : ImageInfo) : info.layers < 0x100000000 :=
  lt_of_le_of_lt (Nat.le_mul_of_pos_left _ info.levels_pos) info.subresources_lt

theorem loopValues_eq {base count : ℕ} (h : base + count < 0x100000000) :
    loopValues base count = List.range' base count := by
  unfold loopValues
  rw [Nat.mod_eq_of_lt h, Nat.add_sub_cancel_left]

/-- The loops go through the range. -/
theorem mem_cells {range : ImageSubresourceRange} (h : range.Inside info) {cell : ℕ × ℕ} :
    cell ∈ range.cells ↔ range.Has cell.1 cell.2 := by
  obtain ⟨level, layer⟩ := cell
  unfold ImageSubresourceRange.cells ImageSubresourceRange.Has
  rw [loopValues_eq (lt_of_le_of_lt h.1 (levels_lt info)),
    loopValues_eq (lt_of_le_of_lt h.2 (layers_lt info))]
  simp only [List.mem_flatMap, List.mem_map, List.mem_range'_1, Prod.mk.injEq]
  constructor
  · rintro ⟨level', hlevel, layer', hlayer, rfl, rfl⟩
    exact ⟨hlevel, hlayer⟩
  · rintro ⟨hlevel, hlayer⟩
    exact ⟨level, hlevel, layer, hlayer, rfl, rfl⟩

/-- And never twice to the same cell. -/
theorem nodup_cells (range : ImageSubresourceRange) : range.cells.Nodup := by
  unfold ImageSubresourceRange.cells
  refine List.nodup_flatMap.mpr ⟨fun level _ => ?_, ?_⟩
  · exact (List.nodup_range' ..).map fun _ _ heq => (Prod.mk.inj heq).2
  · refine (List.nodup_range' (s := _) (n := _)).imp ?_
    intro level level' hne cell hcell hcell'
    obtain ⟨layer, -, rfl⟩ := List.mem_map.mp hcell
    obtain ⟨layer', -, heq⟩ := List.mem_map.mp hcell'
    exact hne (Prod.mk.inj heq).1.symm

/-! ### The table -/

/-- A cell of the table. -/
def cellState (info : ImageInfo) (table : List VulkanImageState) (level layer : ℕ) :
    VulkanImageState :=
  table.getD (level * info.layers + layer) {}

theorem index_lt {level layer : ℕ} (hlevel : level < info.levels) (hlayer : layer < info.layers) :
    level * info.layers + layer < info.levels * info.layers :=
  calc level * info.layers + layer < level * info.layers + info.layers := by omega
    _ = (level + 1) * info.layers := (Nat.succ_mul level info.layers).symm
    _ ≤ info.levels * info.layers := Nat.mul_le_mul_right _ hlevel

theorem index_inj {level layer level' layer' : ℕ} (hlayer : layer < info.layers)
    (hlayer' : layer' < info.layers)
    (h : level * info.layers + layer = level' * info.layers + layer') :
    level = level' ∧ layer = layer' := by
  have hmod := congrArg (· % info.layers) h
  simp only [Nat.mul_add_mod_self_right, Nat.mod_eq_of_lt hlayer, Nat.mod_eq_of_lt hlayer'] at hmod
  subst hmod
  exact ⟨Nat.eq_of_mul_eq_mul_right info.layers_pos (Nat.add_right_cancel h), rfl⟩

/-- Writing one cell. -/
theorem cellState_set {table : List VulkanImageState}
    (hlength : table.length = info.levels * info.layers) {cell : ℕ × ℕ}
    (hlevel : cell.1 < info.levels) (hlayer : cell.2 < info.layers) (state : VulkanImageState)
    {level layer : ℕ} (hlayer' : layer < info.layers) :
    cellState info (table.set (cell.1 * info.layers + cell.2) state) level layer =
      if (level, layer) = cell then state else cellState info table level layer := by
  unfold cellState
  rw [List.getD_eq_getElem?_getD, List.getD_eq_getElem?_getD, List.getElem?_set]
  split
  · next heq =>
    obtain ⟨rfl, rfl⟩ := index_inj hlayer hlayer' heq
    rw [if_pos (hlength ▸ index_lt hlevel hlayer), if_pos rfl]
    rfl
  · next hne =>
    rw [if_neg]
    rintro rfl
    exact hne rfl

/-! ### The loops -/

/-- What the loops do to cells that are different: the barriers are legal, the layouts stay those of
the table, the cells get to the destination, the others keep their state, and what was written has
its barrier. -/
structure Transits (info : ImageInfo) (call : Call) (cells : List (ℕ × ℕ))
    (real : ℕ → ℕ → ImageLayout) (table : List VulkanImageState)
    (barriers : List ImageMemoryBarrier) (table' : List VulkanImageState) : Prop where
  length : table'.length = info.levels * info.layers
  legal : Legal info real barriers
  layout : ∀ level < info.levels, ∀ layer < info.layers,
    executeAll barriers real level layer = (cellState info table' level layer).layout
  reached : ∀ cell ∈ cells, (cellState info table' cell.1 cell.2).layout = call.destinationLayout ∧
    (cellState info table' cell.1 cell.2).accessMask = call.destinationAccess
  kept : ∀ level < info.levels, ∀ layer < info.layers, (level, layer) ∉ cells →
    cellState info table' level layer = cellState info table level layer
  sources : ∀ cell ∈ cells, (cellState info table cell.1 cell.2).accessMask &&& writeAccess ≠ 0 →
    ∃ barrier ∈ barriers, barrier.Covers cell.1 cell.2 ∧
      barrier.srcAccessMask = (cellState info table cell.1 cell.2).accessMask

/-- The barrier of one cell covers no other. -/
theorem covers_cell {state : VulkanImageState} {cell : ℕ × ℕ} {level layer : ℕ} :
    (barrierFrom backing call state cell.1 1 cell.2 1).Covers level layer ↔
      (level, layer) = cell := by
  obtain ⟨level', layer'⟩ := cell
  simp only [ImageMemoryBarrier.Covers, barrierFrom, remaining, Prod.mk.injEq]
  constructor
  · rintro ⟨⟨h₁, h₂ | h₂⟩, h₃, h₄ | h₄⟩
    · cases h₂
    · cases h₂
    · cases h₄
    · exact ⟨by omega, by omega⟩
  · rintro ⟨rfl, rfl⟩
    exact ⟨⟨le_rfl, .inr (Nat.lt_succ_self _)⟩, le_rfl, .inr (Nat.lt_succ_self _)⟩

/-- The body finds its cell. -/
theorem transitCell_eq {table : List VulkanImageState}
    (hlength : table.length = info.levels * info.layers) {cell : ℕ × ℕ}
    (hlevel : cell.1 < info.levels) (hlayer : cell.2 < info.layers)
    (barriers : List ImageMemoryBarrier) :
    transitCell info backing call (barriers, table) cell =
      if needsBarrier (cellState info table cell.1 cell.2) call then
        some (barriers ++
            [barrierFrom backing call (cellState info table cell.1 cell.2) cell.1 1 cell.2 1],
          table.set (cell.1 * info.layers + cell.2) call.destination)
      else some (barriers, table) := by
  have hindex := index_lt hlevel hlayer
  have hget : table[cell.1 * info.layers + cell.2]? =
      some (cellState info table cell.1 cell.2) := by
    unfold cellState
    rw [List.getD_eq_getElem?_getD, List.getElem?_eq_getElem (hlength ▸ hindex), Option.getD_some]
  unfold transitCell
  simp only [Nat.mod_eq_of_lt (lt_trans hindex info.subresources_lt), hget]

/-- A cell that needs no barrier is at the destination, and was not written. -/
theorem of_needsBarrier_false {state : VulkanImageState} (h : needsBarrier state call = false) :
    state.layout = call.destinationLayout ∧ state.accessMask = call.destinationAccess ∧
      state.accessMask &&& writeAccess = 0 := by
  unfold needsBarrier at h
  simp only [Bool.or_eq_false_iff, bne_eq_false_iff_eq] at h
  exact ⟨h.1.1, h.1.2, h.2⟩

/-- **The loops.** By induction over the cells. -/
theorem transitCells_spec (backing : VulkanImage) (call : Call) : ∀ (cells : List (ℕ × ℕ))
    (_ : cells.Nodup) (_ : ∀ cell ∈ cells, cell.1 < info.levels ∧ cell.2 < info.layers)
    (real : ℕ → ℕ → ImageLayout) (before : List ImageMemoryBarrier) (table : List VulkanImageState)
    (_ : table.length = info.levels * info.layers)
    (_ : ∀ level < info.levels, ∀ layer < info.layers,
      real level layer = (cellState info table level layer).layout),
    ∃ barriers table', cells.foldlM (transitCell info backing call) (before, table) =
        some (before ++ barriers, table') ∧
      Transits info call cells real table barriers table'
  | [], _, _, real, before, table, hlength, hreal => by
    refine ⟨[], table, by simp, ?_⟩
    exact {
      length := hlength
      legal := trivial
      layout := hreal
      reached := fun _ hmem => (nomatch hmem)
      kept := fun _ _ _ _ _ => rfl
      sources := fun _ hmem => (nomatch hmem) }
  | cell :: cells, hnodup, hinside, real, before, table, hlength, hreal => by
    obtain ⟨hnew, hnodup⟩ := List.nodup_cons.mp hnodup
    obtain ⟨⟨hlevel, hlayer⟩, hinside⟩ := List.forall_mem_cons.mp hinside
    rw [List.foldlM_cons, transitCell_eq hlength hlevel hlayer]
    by_cases hneeds : needsBarrier (cellState info table cell.1 cell.2) call = true
    · -- the barrier brings the cell to the destination, in the table and on the GPU
      rw [if_pos hneeds]
      obtain ⟨barriers, table', hfold, hrest⟩ := transitCells_spec backing call cells hnodup hinside
        (execute (barrierFrom backing call (cellState info table cell.1 cell.2) cell.1 1 cell.2 1)
          real)
        (before ++
          [barrierFrom backing call (cellState info table cell.1 cell.2) cell.1 1 cell.2 1])
        (table.set (cell.1 * info.layers + cell.2) call.destination)
        (by rw [List.length_set, hlength])
        (fun level hlevel' layer hlayer' => by
          rw [cellState_set hlength hlevel hlayer _ hlayer']
          unfold execute
          by_cases heq : (level, layer) = cell
          · rw [if_pos (covers_cell.mpr heq), if_pos heq]
            rfl
          · rw [if_neg (mt covers_cell.mp heq), if_neg heq]
            exact hreal level hlevel' layer hlayer')
      -- a cell whose turn comes later still has its state
      have hlater : ∀ later ∈ cells, cellState info
          (table.set (cell.1 * info.layers + cell.2) call.destination) later.1 later.2 =
          cellState info table later.1 later.2 := by
        intro later hmem
        rw [cellState_set hlength hlevel hlayer _ (hinside later hmem).2, if_neg]
        rintro rfl
        exact hnew hmem
      refine ⟨barrierFrom backing call (cellState info table cell.1 cell.2) cell.1 1 cell.2 1 ::
        barriers, table', ?_, ?_⟩
      · change cells.foldlM _ _ = _
        rw [hfold, List.append_assoc, List.singleton_append]
      · exact {
          length := hrest.length
          legal := by
            refine ⟨fun level hlevel' layer hlayer' hcovers => ?_, hrest.legal⟩
            rw [hreal level hlevel' layer hlayer', ← covers_cell.mp hcovers]
            rfl
          layout := hrest.layout
          reached := by
            intro other hmem
            cases List.mem_cons.mp hmem with
            | inr hmem => exact hrest.reached other hmem
            | inl heq =>
              rw [heq, hrest.kept _ hlevel _ hlayer hnew,
                cellState_set hlength hlevel hlayer _ hlayer, if_pos rfl]
              exact ⟨rfl, rfl⟩
          kept := by
            intro level hlevel' layer hlayer' hnot
            obtain ⟨hne, hnot⟩ := not_or.mp (mt List.mem_cons.mpr hnot)
            rw [hrest.kept level hlevel' layer hlayer' hnot,
              cellState_set hlength hlevel hlayer _ hlayer', if_neg hne]
          sources := by
            intro other hmem hwrite
            cases List.mem_cons.mp hmem with
            | inl heq =>
              refine ⟨_, List.mem_cons_self, covers_cell.mpr heq, ?_⟩
              rw [heq]
              rfl
            | inr hmem =>
              have hstate := hlater other hmem
              obtain ⟨barrier, hbarrier, hcovers, hsource⟩ :=
                hrest.sources other hmem (by rwa [hstate])
              exact ⟨barrier, List.mem_cons_of_mem _ hbarrier, hcovers, by rw [hsource, hstate]⟩ }
    · -- the cell is at the destination already
      rw [if_neg hneeds]
      obtain ⟨hlayout, haccess, hclean⟩ := of_needsBarrier_false (Bool.not_eq_true _ ▸ hneeds)
      obtain ⟨barriers, table', hfold, hrest⟩ :=
        transitCells_spec backing call cells hnodup hinside real before table hlength hreal
      refine ⟨barriers, table', hfold, { hrest with
        reached := ?_
        kept := fun level hlevel' layer hlayer' hnot =>
          hrest.kept level hlevel' layer hlayer' (mt (List.mem_cons_of_mem _) hnot)
        sources := ?_ }⟩
      · intro other hmem
        cases List.mem_cons.mp hmem with
        | inr hmem => exact hrest.reached other hmem
        | inl heq =>
          rw [heq, hrest.kept _ hlevel _ hlayer hnew]
          exact ⟨hlayout, haccess⟩
      · intro other hmem hwrite
        cases List.mem_cons.mp hmem with
        | inr hmem => exact hrest.sources other hmem hwrite
        | inl heq =>
          rw [heq] at hwrite
          exact absurd hclean hwrite

/-! ### The call -/

/-- What the image remembers of a subresource: its cell if there is a table, else the aggregate. -/
def tracked (info : ImageInfo) (backing : VulkanImage) (level layer : ℕ) : VulkanImageState :=
  if backing.subresourceStates.isEmpty then backing.state
  else cellState info backing.subresourceStates level layer

/-- The image remembers what its subresources are in. -/
structure Tracks (info : ImageInfo) (backing : VulkanImage) (gpu : Gpu) : Prop where
  sized : backing.subresourceStates = [] ∨
    backing.subresourceStates.length = info.levels * info.layers
  layout : ∀ level < info.levels, ∀ layer < info.layers,
    gpu.layout level layer = (tracked info backing level layer).layout
  access : ∀ level < info.levels, ∀ layer < info.layers,
    gpu.access level layer = (tracked info backing level layer).accessMask

/-- What one call returns: legal barriers, which bring the range to its layout and have the access
of whatever was written in it as their source, and an image that tracks the GPU after them. -/
structure Exact (info : ImageInfo) (call : Call) (backing : VulkanImage) (gpu : Gpu)
    (barriers : List ImageMemoryBarrier) (backing' : VulkanImage) : Prop where
  legal : Legal info gpu.layout barriers
  tracks : Tracks info backing' (gpu.after info call barriers)
  reached : ∀ level layer, (call.covered info).Has level layer →
    (gpu.after info call barriers).layout level layer = call.destinationLayout
  sources : ∀ level layer, (call.covered info).Has level layer →
    (tracked info backing level layer).accessMask &&& writeAccess ≠ 0 →
    ∃ barrier ∈ barriers, barrier.Covers level layer ∧
      barrier.srcAccessMask = (tracked info backing level layer).accessMask

/-- The whole image has every level and layer, and no others. -/
theorem whole_has {level layer : ℕ} :
    info.whole.Has level layer ↔ level < info.levels ∧ layer < info.layers := by
  simp [ImageSubresourceRange.Has, ImageInfo.whole]

/-- A range inside has levels and layers of the image. -/
theorem ImageSubresourceRange.Inside.of_has {range : ImageSubresourceRange} {level layer : ℕ}
    (h : range.Inside info) (hhas : range.Has level layer) :
    level < info.levels ∧ layer < info.layers :=
  ⟨lt_of_lt_of_le hhas.1.2 h.1, lt_of_lt_of_le hhas.2.2 h.2⟩

/-- The table the loops start with: the one there is, or the aggregate in every cell. -/
def startTable (info : ImageInfo) (backing : VulkanImage) : List VulkanImageState :=
  if backing.subresourceStates.isEmpty then
    List.replicate ((info.levels * info.layers) % 0x100000000) backing.state
  else backing.subresourceStates

theorem startTable_length {gpu : Gpu} (h : Tracks info backing gpu) :
    (startTable info backing).length = info.levels * info.layers := by
  unfold startTable
  by_cases hempty : backing.subresourceStates = []
  · rw [if_pos (List.isEmpty_iff.mpr hempty), List.length_replicate,
      Nat.mod_eq_of_lt info.subresources_lt]
  · rw [if_neg (mt List.isEmpty_iff.mp hempty)]
    exact h.sized.resolve_left hempty

theorem cellState_startTable {level layer : ℕ} (hlevel : level < info.levels)
    (hlayer : layer < info.layers) :
    cellState info (startTable info backing) level layer = tracked info backing level layer := by
  unfold startTable tracked
  split
  · unfold cellState
    rw [List.getD_eq_getElem?_getD, List.getElem?_replicate,
      if_pos (by rw [Nat.mod_eq_of_lt info.subresources_lt]; exact index_lt hlevel hlayer),
      Option.getD_some]
  · rfl

/-- **A call with a table**, of its own or one that a partial range makes. -/
theorem getBarriers_table {gpu : Gpu} (hvalid : call.Valid info) (h : Tracks info backing gpu)
    (htable : (isPartial info (call.normalized info) ||
      !backing.subresourceStates.isEmpty) = true) :
    ∃ barriers backing', getBarriers info backing call = some (barriers, backing') ∧
      Exact info call backing gpu barriers backing' := by
  have hinside := hvalid.inside
  have hlength := startTable_length h
  obtain ⟨barriers, table, hfold, hloops⟩ := transitCells_spec backing call
    (call.covered info).cells (nodup_cells _)
    (fun cell hmem => hinside.of_has ((mem_cells hinside).mp hmem)) gpu.layout [] _ hlength
    (fun level hlevel layer hlayer => by
      rw [cellState_startTable hlevel hlayer]
      exact h.layout level hlevel layer hlayer)
  have hcovered : (if isPartial info (call.normalized info) = true
      then (call.normalized info).getD info.whole else info.whole) = call.covered info := by
    by_cases hpart : isPartial info (call.normalized info) = true
    · rw [if_pos hpart, Call.covered]
    · rw [if_neg hpart, covered_of_isPartial_false (Bool.not_eq_true _ ▸ hpart)]
  refine ⟨barriers, { backing with
    state := call.destination
    subresourceStates := if isPartial info (call.normalized info) then table else [] }, ?_, ?_⟩
  · unfold getBarriers
    rw [startTable] at hfold
    simp only [htable, if_true, hcovered, hfold, List.nil_append, Option.bind_eq_bind,
      Option.bind_some]
  · have hreached : ∀ level layer, (call.covered info).Has level layer →
        (cellState info table level layer).layout = call.destinationLayout ∧
          (cellState info table level layer).accessMask = call.destinationAccess :=
      fun level layer hhas => hloops.reached (level, layer) ((mem_cells hinside).mpr hhas)
    -- the table holds what the image remembers afterwards, also when it is dropped
    have htracked : ∀ level < info.levels, ∀ layer < info.layers,
        (tracked info { backing with
          state := call.destination
          subresourceStates := if isPartial info (call.normalized info) then table else [] }
          level layer).layout = (cellState info table level layer).layout ∧
        (tracked info { backing with
          state := call.destination
          subresourceStates := if isPartial info (call.normalized info) then table else [] }
          level layer).accessMask = (cellState info table level layer).accessMask := by
      intro level hlevel layer hlayer
      unfold tracked
      by_cases hpart : isPartial info (call.normalized info) = true
      · have hne : ¬ table.isEmpty = true := by
          rw [List.isEmpty_iff_length_eq_zero, hloops.length]
          exact (Nat.mul_pos info.levels_pos info.layers_pos).ne'
        simp only [hpart, if_true, if_neg hne, and_self]
      · have hhas : (call.covered info).Has level layer := by
          rw [covered_of_isPartial_false (Bool.not_eq_true _ ▸ hpart)]
          exact whole_has.mpr ⟨hlevel, hlayer⟩
        obtain ⟨hlayout, haccess⟩ := hreached level layer hhas
        simp only [hpart, Bool.false_eq_true, if_false, List.isEmpty_nil, if_true, hlayout,
          haccess, Call.destination, and_self]
    exact {
      legal := hloops.legal
      tracks := {
        sized := by
          by_cases hpart : isPartial info (call.normalized info) = true
          · exact .inr (by simp only [hpart, if_true, hloops.length])
          · exact .inl (by simp only [hpart, Bool.false_eq_true, if_false])
        layout := fun level hlevel layer hlayer => by
          rw [(htracked level hlevel layer hlayer).1]
          exact hloops.layout level hlevel layer hlayer
        access := fun level hlevel layer hlayer => by
          rw [(htracked level hlevel layer hlayer).2]
          unfold Gpu.after
          by_cases hhas : (call.covered info).Has level layer
          · simp only [hhas, if_true, (hreached level layer hhas).2]
          · -- a cell out of the range keeps its access
            have hnot : (level, layer) ∉ (call.covered info).cells := mt (mem_cells hinside).mp hhas
            simp only [hhas, if_false, h.access level hlevel layer hlayer,
              hloops.kept level hlevel layer hlayer hnot, cellState_startTable hlevel hlayer] }
      reached := fun level layer hhas => by
        obtain ⟨hlevel, hlayer⟩ := hinside.of_has hhas
        exact (hloops.layout level hlevel layer hlayer).trans (hreached level layer hhas).1
      sources := fun level layer hhas hwrite => by
        obtain ⟨hlevel, hlayer⟩ := hinside.of_has hhas
        rw [← cellState_startTable hlevel hlayer] at hwrite ⊢
        exact hloops.sources (level, layer) ((mem_cells hinside).mpr hhas) hwrite }

/-- **A call on all of the image**, without a table: one barrier or none. -/
theorem getBarriers_whole {gpu : Gpu} (h : Tracks info backing gpu)
    (htable : (isPartial info (call.normalized info) ||
      !backing.subresourceStates.isEmpty) = false) :
    ∃ barriers backing', getBarriers info backing call = some (barriers, backing') ∧
      Exact info call backing gpu barriers backing' := by
  obtain ⟨hpart, hempty⟩ := Bool.or_eq_false_iff.mp htable
  rw [Bool.not_eq_false'] at hempty
  have hwhole := covered_of_isPartial_false hpart
  have hstate : ∀ level layer, tracked info backing level layer = backing.state := fun _ _ => by
    rw [tracked, if_pos hempty]
  have hhas : ∀ {level layer : ℕ}, level < info.levels → layer < info.layers →
      (call.covered info).Has level layer := fun hlevel hlayer => by
    rw [hwhole]
    exact whole_has.mpr ⟨hlevel, hlayer⟩
  by_cases hneeds : needsBarrier backing.state call = true
  · refine ⟨[barrierFrom backing call backing.state 0 remaining 0 remaining],
      { backing with state := call.destination }, ?_, ?_⟩
    · simp only [getBarriers, htable, Bool.false_eq_true, if_false, hneeds, if_true]
    · have hcovers : ∀ level layer,
          (barrierFrom backing call backing.state 0 remaining 0 remaining).Covers level layer :=
        fun level layer => ⟨⟨Nat.zero_le _, .inl rfl⟩, Nat.zero_le _, .inl rfl⟩
      have hafter : ∀ level layer, (gpu.after info call
          [barrierFrom backing call backing.state 0 remaining 0 remaining]).layout level layer =
            call.destinationLayout := fun level layer => by
        change execute (barrierFrom backing call backing.state 0 remaining 0 remaining) gpu.layout
          level layer = call.destinationLayout
        rw [execute, if_pos (hcovers level layer)]
        rfl
      have hstate' : ∀ level layer, tracked info { backing with state := call.destination }
          level layer = call.destination := fun _ _ => by
        rw [tracked, if_pos hempty]
      exact {
        legal := by
          refine ⟨fun level hlevel layer hlayer _ => ?_, trivial⟩
          rw [h.layout level hlevel layer hlayer, hstate]
          rfl
        tracks := {
          sized := .inl (List.isEmpty_iff.mp hempty)
          layout := fun level _ layer _ => by
            rw [hafter, hstate']
            rfl
          access := fun level hlevel layer hlayer => by
            rw [hstate']
            exact if_pos (hhas hlevel hlayer) }
        reached := fun level layer _ => hafter level layer
        sources := fun level layer _ _ => by
          refine ⟨_, List.mem_singleton_self _, hcovers level layer, ?_⟩
          rw [hstate]
          rfl }
  · obtain ⟨hlayout, haccess, hclean⟩ := of_needsBarrier_false (Bool.not_eq_true _ ▸ hneeds)
    refine ⟨[], backing, ?_, ?_⟩
    · simp only [getBarriers, htable, Bool.false_eq_true, if_false, hneeds]
    · exact {
        legal := trivial
        tracks := {
          sized := h.sized
          layout := h.layout
          access := fun level hlevel layer hlayer => by
            rw [hstate, haccess]
            exact if_pos (hhas hlevel hlayer) }
        reached := fun level layer hhas' => by
          obtain ⟨hlevel, hlayer⟩ := whole_has.mp (hwhole ▸ hhas')
          rw [← hlayout, ← hstate level layer]
          exact h.layout level hlevel layer hlayer
        sources := fun level layer _ hwrite => by
          rw [hstate] at hwrite
          exact absurd hclean hwrite }

/-- **The step lemma.** A valid call of an image that tracks the GPU returns, and all is exact. -/
theorem getBarriers_spec {gpu : Gpu} (hvalid : call.Valid info) (h : Tracks info backing gpu) :
    ∃ barriers backing', getBarriers info backing call = some (barriers, backing') ∧
      Exact info call backing gpu barriers backing' := by
  cases htable : isPartial info (call.normalized info) || !backing.subresourceStates.isEmpty with
  | true => exact getBarriers_table hvalid h htable
  | false => exact getBarriers_whole h htable

/-! ### Runs -/

/-- A valid call, whose barriers the GPU then executes. -/
def step (info : ImageInfo) (s : VulkanImage × Gpu) (call : Call) (s' : VulkanImage × Gpu) : Prop :=
  call.Valid info ∧ ∃ barriers, getBarriers info s.1 call = some (barriers, s'.1) ∧
    s'.2 = s.2.after info call barriers

/-- A new image, which has not been used, and the GPU. -/
def new (image : UInt64) (format : Format) : VulkanImage × Gpu :=
  ({ image := image, format := format }, Gpu.fresh)

theorem tracks_new (info : ImageInfo) (image : UInt64) (format : Format) :
    Tracks info (new image format).1 (new image format).2 :=
  ⟨.inl rfl, fun _ _ _ _ => rfl, fun _ _ _ _ => rfl⟩

/-- **Image barriers are exact.** After any run of valid calls the image tracks the layout and the
last access of every subresource, and the next valid call returns barriers that are legal, bring the
range to its layout, and have the access of every earlier write in it as their source; after them
the image tracks the GPU again. -/
theorem barriers_exact (info : ImageInfo) (image : UInt64) (format : Format) {calls : List Call}
    {backing : VulkanImage} {gpu : Gpu}
    (hrun : Run (step info) (new image format) calls (backing, gpu)) :
    Tracks info backing gpu ∧ ∀ call : Call, call.Valid info →
      ∃ barriers backing', getBarriers info backing call = some (barriers, backing') ∧
        Exact info call backing gpu barriers backing' := by
  have htracks : Tracks info backing gpu := by
    refine hrun.invariant (I := fun s => Tracks info s.1 s.2) (tracks_new info image format) ?_
    rintro s call s' h ⟨hvalid, barriers, hcall, hgpu⟩
    obtain ⟨barriers', backing', hcall', hexact⟩ := getBarriers_spec hvalid h
    obtain ⟨rfl, hbacking⟩ := Prod.mk.inj (Option.some.inj (hcall'.symm.trans hcall))
    rw [hgpu, ← hbacking]
    exact hexact.tracks
  exact ⟨htracks, fun call hvalid => getBarriers_spec hvalid htracks⟩

/-- An image with two levels and three layers is read, and then one of its cells is written: the
table comes up, and the cell's next use gets the write as its source. -/
theorem barriers_exact_split :
    let info : ImageInfo := ⟨2, 3, false, by decide, by decide, by decide, by decide, by decide⟩
    let read := transitCall 5 0x20 none
    let write := transitCall 1 0x40 (some ⟨1, 1, 0, 1⟩)
    ∃ backing gpu, Run (step info) (new 1 .other) [read, write] (backing, gpu) ∧
      backing.subresourceStates =
        (List.replicate 6 read.destination).set 3 write.destination ∧
      ∃ barriers backing', getBarriers info backing read = some (barriers, backing') ∧
        ∃ barrier ∈ barriers, barrier.Covers 1 0 ∧ barrier.srcAccessMask = 0x40 := by
  intro info read write
  have hread : step info (new 1 .other) read
      ({ (new 1 .other).1 with state := read.destination }, (new 1 .other).2.after info read
        [barrierFrom (new 1 .other).1 read {} 0 remaining 0 remaining]) :=
    ⟨fun _ hrange => (nomatch hrange), _, rfl, rfl⟩
  have hwrite : ∀ gpu : Gpu, step info ({ (new 1 .other).1 with state := read.destination }, gpu)
      write ({ (new 1 .other).1 with
        state := write.destination
        subresourceStates := (List.replicate 6 read.destination).set 3 write.destination },
        gpu.after info write [barrierFrom (new 1 .other).1 write read.destination 1 1 0 1]) :=
    fun gpu => ⟨fun range hrange => by cases hrange; decide, _, rfl, rfl⟩
  have hrun := ((Run.nil (new 1 .other)).snoc hread).snoc (hwrite _)
  obtain ⟨-, hnext⟩ := barriers_exact info 1 .other hrun
  obtain ⟨barriers, backing', hcall, hexact⟩ := hnext read fun _ hrange => (nomatch hrange)
  exact ⟨_, _, hrun, rfl, barriers, backing', hcall,
    hexact.sources 1 0 (by decide) (by decide)⟩

end Prosperismo.ImageBarriers
