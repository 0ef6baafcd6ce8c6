import Prosperismo.Base.Except
import Prosperismo.MemoryTracker.Model
import Prosperismo.PageManager.Watchers

/-!
# The watchers of a region

A change of the dirty pages of a region sends the page manager the difference between a
set and its shadow. Because the shadow is exact before the change
(`RegionManager.Exact`), the difference is the set of pages that changed, and these get
or lose exactly the one watcher that the region should or should no longer have:
`updateProtection_step`, and `updateProtection_fault` for the counters that would stop
the change. `Visits` is what this makes of the callbacks of `Iterate`.
-/

namespace Prosperismo.MemoryTracker

open PageManager

/-! ### Watchers of a region -/

/-- The watchers that a region keeps on its page `j`: a write watcher unless the page is
CPU-dirty, a read watcher when it is GPU-dirty. -/
def RegionManager.held (isRead : Bool) (region : RegionManager) (j : ℕ) : ℤ :=
  if isRead then if region.gpuDirty.get j then 1 else 0
  else if region.cpuDirty.get j then 0 else 1

/-- What holds of every region between operations. -/
structure RegionManager.Exact (index : ℕ) (region : RegionManager) : Prop where
  cpuAddr : region.cpuAddr = index * regionSize
  /-- No page is dirty on both sides. -/
  exclusive : ∀ i, ¬ (region.cpuDirty i = true ∧ region.gpuDirty i = true)
  writable : region.writable = region.cpuDirty
  readable : region.readable = complement region.gpuDirty

/-- The most watchers that other clients may hold on a page for the tracker to find room. -/
def othersLimit (isRead : Bool) : ℤ := watcherLimit isRead - 1

/-- The page manager has room for the watchers of a region. -/
def RoomIn (index : ℕ) (m : Manager) (region : RegionManager) : Prop :=
  ∀ isRead q, q / regionPages = index →
    region.held isRead (q % regionPages) ≤ (m.page q).count isRead ∧
      ((m.page q).count isRead : ℤ) ≤ othersLimit isRead + region.held isRead (q % regionPages)

/-- One step of a region: it stays exact, and the counters change as its watchers do. -/
structure RegionStep (index : ℕ) (m : Manager) (region : RegionManager) (m' : Manager)
    (region' : RegionManager) : Prop where
  coherent : Coherent m'
  exact : region'.Exact index
  counts : ∀ isRead q, ((m'.page q).count isRead : ℤ) = (m.page q).count isRead +
    if q / regionPages = index then
      region'.held isRead (q % regionPages) - region.held isRead (q % regionPages)
    else 0

theorem RegionStep.refl {index : ℕ} {m : Manager} {region : RegionManager} (hm : Coherent m)
    (h : region.Exact index) : RegionStep index m region m region :=
  ⟨hm, h, fun _ _ => by simp⟩

theorem RegionManager.held_nonneg (isRead : Bool) (region : RegionManager) (j : ℕ) :
    0 ≤ region.held isRead j ∧ region.held isRead j ≤ 1 := by
  unfold held
  split_ifs <;> simp

theorem create_exact {index : ℕ} {region : RegionManager}
    (h : RegionManager.create (index * regionSize) = .ok region) :
    region.Exact index ∧ ∀ isRead j, j < regionPages → region.held isRead j = 0 := by
  unfold RegionManager.create at h
  split at h
  · cases h
  · cases h
    refine ⟨⟨rfl, by simp, rfl, rfl⟩, fun isRead j hj => ?_⟩
    cases isRead <;> simp [RegionManager.held, RegionBits.get, hj]

/-! ### Bit sets -/

theorem get_eq (bits : RegionBits) {j : ℕ} (h : j < regionPages) : bits.get j = bits ⟨j, h⟩ := by
  simp [RegionBits.get, h]

theorem any_eq_false {bits : RegionBits} (h : any bits = false) (j : ℕ) : bits.get j = false := by
  unfold RegionBits.get
  split
  · simpa using (by simpa [any] using h : ∀ i, bits i = false) _
  · rfl

theorem setRange_le (bits : RegionBits) (first last : ℕ) (i : Fin regionPages)
    (h : bits i = true) : setRange bits first last i = true := by
  unfold setRange
  split
  · exact h
  · simp [h]

theorem unsetRange_le (bits : RegionBits) (first last : ℕ) (i : Fin regionPages)
    (h : unsetRange bits first last i = true) : bits i = true := by
  unfold unsetRange at h
  split at h
  · exact h
  · simp only [Bool.and_eq_true] at h
    exact h.2

/-- A bit that a range sets and that was not set lies in the slice of the range. -/
theorem setRange_new {bits : RegionBits} {first last : ℕ} {i : Fin regionPages}
    (h : setRange bits first last i = true) :
    bits i = true ∨ ∀ other : RegionBits, other i = true → slice other first last i = true := by
  unfold setRange at h
  split at h
  · exact .inl h
  · next hrange =>
    rcases Bool.or_eq_true_iff.1 h with hin | hold
    · refine .inr fun other hother => ?_
      simp only [slice, if_neg hrange, hin, hother, Bool.and_self]
    · exact .inl hold

section Host

variable {accepts : ℕ → ℕ → Protection → Bool} {index : ℕ} {m m' : Manager}
  {region region' : RegionManager}

/-! ### Calls to the page manager -/

/-- The pages of a mask of the region `index`. -/
theorem mem_maskPages {mask : RegionBits} {q : ℕ} :
    q ∈ maskPages (index * regionSize) mask ↔
      q / regionPages = index ∧ mask.get (q % regionPages) = true := by
  rw [maskPages, Set.mem_ofPred_eq, Nat.mul_div_cancel _ (show 0 < regionSize by decide)]

/-- A call of the tracker changes the counters of its mask by one. -/
theorem watch_counts {track isRead : Bool} {mask : RegionBits} (hm : Coherent m)
    (h : watch accepts track isRead m (index * regionSize) mask = .ok m') :
    Coherent m' ∧ ∀ kind q, ((m'.page q).count kind : ℤ) = (m.page q).count kind +
      if kind = isRead ∧ q / regionPages = index ∧ mask.get (q % regionPages) = true then
        callDelta track
      else 0 := by
  unfold watch at h
  split at h
  · obtain ⟨span, -, -, hup⟩ := updatePageWatchersForRegion_ok hm (mapError_ok.1 h)
    refine ⟨hup.coherent, fun kind q => ?_⟩
    rw [hup.count kind q]
    simp only [mem_maskPages]
  · next hany =>
    cases h
    refine ⟨hm, fun kind q => ?_⟩
    rw [any_eq_false (by simpa using hany)]
    simp

/-- A call of the tracker that a counter stops. -/
theorem watch_fault {track isRead : Bool} {mask : RegionBits} {fault : PageManager.Fault}
    (hm : Coherent m)
    (h : watch accepts track isRead m (index * regionSize) mask = .error (.pageManager fault))
    (hf : fault.IsWatcher) :
    ∃ q, q / regionPages = index ∧ mask.get (q % regionPages) = true ∧
      (m.page q).Blocks track isRead := by
  unfold watch at h
  split at h
  · obtain ⟨fault', hcall, heq⟩ := mapError_error.1 h
    cases heq
    obtain ⟨q, hq, hblocks⟩ := updatePageWatchersForRegion_fault hm hcall hf
    obtain ⟨hindex, hmask⟩ := mem_maskPages.1 hq
    exact ⟨q, hindex, hmask, hblocks⟩
  · cases h

/-- The kind of watchers that a dirty source is about. -/
def DirtySource.isRead : DirtySource → Bool
  | .cpu => false
  | .gpu => true

/-- Whether setting (or unsetting) bits of a source adds watchers. -/
def DirtySource.tracks (source : DirtySource) (enable : Bool) : Bool :=
  match source with
  | .cpu => !enable
  | .gpu => enable

/-- The region after its dirty bits and their shadow were set. -/
def RegionManager.shadowed (source : DirtySource) (region : RegionManager) (bits : RegionBits) :
    RegionManager :=
  match source with
  | .cpu => { region with cpuDirty := bits, writable := bits }
  | .gpu => { region with gpuDirty := bits, readable := complement bits }

/-- The protection update as one call and one shadow set. -/
theorem updateProtection_eq (source : DirtySource) (enable : Bool) (hr : region.Exact index)
    (bits : RegionBits) :
    updateProtection accepts source enable m (region.setBits source bits) = (do
      let m' ← watch accepts (source.tracks enable) source.isRead m region.cpuAddr
        (symmDiff bits (region.getBits source))
      return (m', region.shadowed source bits)) := by
  have hmask : symmDiff (complement bits) region.readable = symmDiff bits region.gpuDirty := by
    funext i
    simp [hr.readable, symmDiff, complement]
  cases source with
  | cpu =>
    change (do
      let m' ← watch accepts (!enable) false m region.cpuAddr (symmDiff bits region.writable)
      return (m', { region with cpuDirty := bits, writable := bits })) = _
    rw [hr.writable]
    rfl
  | gpu =>
    change (do
      let m' ← watch accepts enable true m region.cpuAddr
        (symmDiff (complement bits) region.readable)
      return (m', { region with gpuDirty := bits, readable := complement bits })) = _
    rw [hmask]
    rfl

/-- The bits change in one direction: setting them only adds bits. -/
def Grows (enable : Bool) (bits bits' : RegionBits) : Prop :=
  ∀ i, if enable then bits i = true → bits' i = true else bits' i = true → bits i = true

/-- The watcher that a page of the difference gets or loses. -/
theorem held_of_symmDiff {source : DirtySource} {enable : Bool} {bits : RegionBits}
    {region' : RegionManager} (hbits : region'.getBits source = bits)
    (hgrows : Grows enable (region.getBits source) bits) {j : ℕ} (hj : j < regionPages) :
    region'.held source.isRead j - region.held source.isRead j =
      if (symmDiff bits (region.getBits source)).get j = true then
        callDelta (source.tracks enable)
      else 0 := by
  have hg := hgrows ⟨j, hj⟩
  subst hbits
  cases source <;> cases enable <;>
    simp only [RegionManager.held, DirtySource.isRead, DirtySource.tracks, RegionManager.getBits,
      get_eq _ hj, symmDiff, callDelta, Bool.not_true, Bool.not_false, if_true,
      Bool.false_eq_true, if_false] at hg ⊢ <;>
    revert hg <;>
    generalize region.cpuDirty ⟨j, hj⟩ = a <;> generalize region.gpuDirty ⟨j, hj⟩ = b <;>
    generalize region'.cpuDirty ⟨j, hj⟩ = a' <;> generalize region'.gpuDirty ⟨j, hj⟩ = b' <;>
    cases a <;> cases b <;> cases a' <;> cases b' <;> simp

/-- The bits of the other source stay. -/
theorem held_of_other {source : DirtySource} {isRead : Bool} {region' : RegionManager}
    (hother : region'.getBits source.other = region.getBits source.other)
    (hne : isRead ≠ source.isRead) (j : ℕ) : region'.held isRead j = region.held isRead j := by
  cases source with
  | cpu =>
    obtain rfl : isRead = true := by simpa [DirtySource.isRead] using hne
    exact congrArg (fun bits : RegionBits => if bits.get j then (1 : ℤ) else 0) hother
  | gpu =>
    obtain rfl : isRead = false := by simpa [DirtySource.isRead] using hne
    exact congrArg (fun bits : RegionBits => if bits.get j then (0 : ℤ) else 1) hother

/-- **The step lemma of a region.** The protection update after bits of one source have
changed in one direction makes the shadow exact and the counters follow. -/
theorem updateProtection_step {source : DirtySource} {enable : Bool} (hm : Coherent m)
    (hr : region.Exact index) {bits : RegionBits}
    (hgrows : Grows enable (region.getBits source) bits)
    (hexclusive : ∀ i, ¬ (bits i = true ∧ region.getBits source.other i = true))
    (h : updateProtection accepts source enable m (region.setBits source bits) =
      .ok (m', region')) : RegionStep index m region m' region' := by
  rw [updateProtection_eq source enable hr bits] at h
  obtain ⟨m₁, hwatch, h⟩ := bind_ok.1 h
  rw [pure_ok, Prod.mk.injEq] at h
  obtain ⟨rfl, rfl⟩ := h
  rw [hr.cpuAddr] at hwatch
  obtain ⟨hcoherent, hcounts⟩ := watch_counts hm hwatch
  have hpos : 0 < regionPages := by decide
  refine ⟨hcoherent, ?_, fun isRead q => ?_⟩
  · cases source with
    | cpu => exact ⟨hr.cpuAddr, hexclusive, rfl, hr.readable⟩
    | gpu => exact ⟨hr.cpuAddr, fun i hi => hexclusive i hi.symm, hr.writable, rfl⟩
  · rw [hcounts isRead q]
    refine congrArg (((m.page q).count isRead : ℤ) + ·) ?_
    by_cases hq : q / regionPages = index
    · rw [if_pos hq]
      by_cases hkind : isRead = source.isRead
      · subst hkind
        have hbits : (region.shadowed source bits).getBits source = bits := by
          cases source <;> rfl
        rw [held_of_symmDiff hbits hgrows (Nat.mod_lt q hpos)]
        simp only [hq, true_and]
      · have hother : (region.shadowed source bits).getBits source.other =
            region.getBits source.other := by cases source <;> rfl
        rw [held_of_other hother hkind]
        simp [hkind]
    · simp [hq]

/-- With room for the watchers of the region, no counter stops the protection update. -/
theorem updateProtection_fault {source : DirtySource} {enable : Bool} (hm : Coherent m)
    (hr : region.Exact index) (hroom : RoomIn index m region) {bits : RegionBits}
    (hgrows : Grows enable (region.getBits source) bits) {fault : PageManager.Fault}
    (h : updateProtection accepts source enable m (region.setBits source bits) =
      .error (.pageManager fault)) : ¬ fault.IsWatcher := by
  intro hf
  rw [updateProtection_eq source enable hr bits] at h
  rcases bind_error.1 h with hwatch | ⟨m₁, -, h⟩
  · rw [hr.cpuAddr] at hwatch
    obtain ⟨q, hq, hmask, hblocks⟩ := watch_fault hm hwatch hf
    obtain ⟨hlow, hhigh⟩ := hroom source.isRead q hq
    have hj := Nat.mod_lt q (show 0 < regionPages by decide)
    -- a page of the difference that gains a watcher has none, one that loses it has one
    have hbits : (region.setBits source bits).getBits source = bits := by cases source <;> rfl
    have hdiff := held_of_symmDiff hbits hgrows hj
    rw [if_pos hmask] at hdiff
    have hold := region.held_nonneg source.isRead (q % regionPages)
    have hnew := (region.setBits source bits).held_nonneg source.isRead (q % regionPages)
    unfold PageState.Blocks at hblocks
    rw [hblocks] at hlow hhigh
    unfold othersLimit at hhigh
    cases htrack : source.tracks enable with
    | true =>
      simp only [htrack, callDelta, if_true] at hdiff hhigh
      omega
    | false =>
      simp only [htrack, callDelta, Bool.false_eq_true, if_false] at hdiff hlow
      omega
  · cases h

/-! ### Changes of a region -/

/-- What a callback of `Iterate` may do to a region: a step, and no counter stops it when
there is room. -/
structure Visits (func : Manager → RegionManager → ℕ → ℕ → Except Fault Visited) : Prop where
  step : ∀ {index m region offset bytes visited}, Coherent m → region.Exact index →
    func m region offset bytes = .ok visited →
      RegionStep index m region visited.manager visited.region
  fault : ∀ {index m region offset bytes fault}, Coherent m → region.Exact index →
    RoomIn index m region → func m region offset bytes = .error (.pageManager fault) →
      ¬ fault.IsWatcher

theorem getPageRange_fault {vaddr size : ℕ} {fault : PageManager.Fault} :
    getPageRange region vaddr size ≠ .error (.pageManager fault) := by
  unfold getPageRange
  split <;> simp

theorem visitModified_visits (source : DirtySource) : Visits (visitModified source) := by
  refine ⟨fun hm hr h => ?_, fun hm hr hroom h => ?_⟩
  · obtain ⟨modified, -, h⟩ := bind_ok.1 h
    rw [pure_ok] at h
    subst h
    exact .refl hm hr
  · rcases bind_error.1 h with hmod | ⟨modified, -, h⟩
    · rcases bind_error.1 hmod with hrange | ⟨range, -, hmod⟩
      · exact absurd hrange getPageRange_fault
      · cases hmod
    · cases h

theorem visitNothing_visits : Visits visitNothing := by
  refine ⟨fun hm hr h => ?_, fun hm hr hroom h => by cases h⟩
  cases h
  exact .refl hm hr

/-- Setting a range of one source next to a clean range of the other. -/
theorem changeState_exclusive (source : DirtySource) (enable : Bool) (first last : ℕ)
    (hr : region.Exact index)
    (hclean : (enable && any (slice (region.getBits source.other) first last)) = false) :
    Grows enable (region.getBits source)
        (if enable then setRange (region.getBits source) first last
          else unsetRange (region.getBits source) first last) ∧
      ∀ i, ¬ ((if enable then setRange (region.getBits source) first last
          else unsetRange (region.getBits source) first last) i = true ∧
        region.getBits source.other i = true) := by
  have hexclusive : ∀ i, ¬ (region.getBits source i = true ∧
      region.getBits source.other i = true) := by
    cases source with
    | cpu => exact hr.exclusive
    | gpu => exact fun i hi => hr.exclusive i hi.symm
  cases enable with
  | true =>
    refine ⟨fun i => setRange_le _ first last i, fun i hi => ?_⟩
    rcases setRange_new hi.1 with hold | hslice
    · exact hexclusive i ⟨hold, hi.2⟩
    · have hset := hslice _ hi.2
      have hnone := any_eq_false (by simpa using hclean) i.val
      rw [get_eq _ i.isLt, hset] at hnone
      cases hnone
  | false =>
    exact ⟨fun i => unsetRange_le _ first last i,
      fun i hi => hexclusive i ⟨unsetRange_le _ first last i hi.1, hi.2⟩⟩

theorem changeState_eq {source : DirtySource} {enable : Bool} {vaddr size : ℕ} :
    changeState accepts source enable m region vaddr size = (do
      let range ← getPageRange region vaddr size
      if enable && any (slice (region.getBits source.other) range.1 range.2) then
        .error (.conflict source)
      else
        updateProtection accepts source enable m (region.setBits source
          (if enable then setRange (region.getBits source) range.1 range.2
            else unsetRange (region.getBits source) range.1 range.2))) := by
  unfold changeState
  congr 1

theorem visitChange_visits (source : DirtySource) (enable : Bool) :
    Visits (visitChange accepts source enable) := by
  refine ⟨fun hm hr h => ?_, fun hm hr hroom h => ?_⟩
  · obtain ⟨⟨m', region'⟩, hchange, h⟩ := bind_ok.1 h
    rw [pure_ok] at h
    subst h
    rw [changeState_eq] at hchange
    obtain ⟨range, -, hchange⟩ := bind_ok.1 hchange
    split at hchange
    · cases hchange
    · next hclean =>
      obtain ⟨hgrows, hexclusive⟩ := changeState_exclusive source enable _ _ hr (by simpa using hclean)
      exact updateProtection_step hm hr hgrows hexclusive hchange
  · rcases bind_error.1 h with hchange | ⟨changed, -, h⟩
    · rw [changeState_eq] at hchange
      rcases bind_error.1 hchange with hrange | ⟨range, -, hchange⟩
      · exact absurd hrange getPageRange_fault
      · split at hchange
        · cases hchange
        · next hclean =>
          obtain ⟨hgrows, -⟩ := changeState_exclusive source enable _ _ hr (by simpa using hclean)
          exact updateProtection_fault hm hr hroom hgrows hchange
    · cases h

theorem visitRanges_visits (source : DirtySource) (clear : Bool) :
    Visits (visitRanges accepts source clear) := by
  refine ⟨fun hm hr h => ?_, fun hm hr hroom h => ?_⟩
  · obtain ⟨reported, hreported, h⟩ := bind_ok.1 h
    rw [pure_ok] at h
    subst h
    obtain ⟨range, -, hreported⟩ := bind_ok.1 hreported
    dsimp only at hreported
    split at hreported
    · obtain ⟨updated, hupdated, hreported⟩ := bind_ok.1 hreported
      rw [pure_ok] at hreported
      subst hreported
      obtain ⟨hgrows, hexclusive⟩ := changeState_exclusive source false range.1 range.2 hr rfl
      exact updateProtection_step hm hr hgrows hexclusive hupdated
    · rw [pure_ok] at hreported
      subst hreported
      exact .refl hm hr
  · rcases bind_error.1 h with hreported | ⟨reported, -, h⟩
    · rcases bind_error.1 hreported with hrange | ⟨range, -, hreported⟩
      · exact absurd hrange getPageRange_fault
      · dsimp only at hreported
        split at hreported
        · rcases bind_error.1 hreported with hupdated | ⟨updated, -, hreported⟩
          · obtain ⟨hgrows, -⟩ := changeState_exclusive source false range.1 range.2 hr rfl
            exact updateProtection_fault hm hr hroom hgrows hupdated
          · cases hreported
        · cases hreported
    · cases h

end Host

end Prosperismo.MemoryTracker
