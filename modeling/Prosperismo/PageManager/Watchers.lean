import Prosperismo.PageManager.Calls

/-!
# Counting watchers

What a call does to the watcher counters, as numbers (`Update.count`), and why a call
fails: when it ends the process because of a counter, one of its pages had no room for
another watcher, or none to take away (`updatePageWatchersForRegion_fault`).
-/

namespace Prosperismo.PageManager

/-! ### Counters as numbers -/

/-- The counter of one kind of watchers. -/
def PageState.count (isRead : Bool) (page : PageState) : ℕ :=
  if isRead then page.accessWatchers else page.writeWatchers

/-- The largest value of a counter. -/
def watcherLimit (isRead : Bool) : ℕ := if isRead then 1 else 127

@[simp] theorem PageState.count_empty (isRead : Bool) : PageState.empty.count isRead = 0 := by
  cases isRead <;> rfl

/-- The faults that a counter causes. -/
def Fault.IsWatcher : Fault → Prop
  | .readWatcherOverflow _ | .readWatcherUnderflow _ => True
  | .writeWatcherOverflow _ | .writeWatcherUnderflow _ => True
  | .untrackingUnknownPage _ | .untrackingUnknownRegion _ => True
  | .invalidRange _ _ | .protectionFailed _ _ | .invalidRegionBase _ | .emptyMask => False

/-- The page has no room for another watcher, or none to take away. -/
def PageState.Blocks (track isRead : Bool) (page : PageState) : Prop :=
  page.count isRead = if track then watcherLimit isRead else 0

/-- A delta changes the counter it is about and no other. -/
theorem PageState.addDelta_count {track isRead : Bool} {address n : ℕ} {page page' : PageState}
    (h : page.addDelta (callDelta track) isRead address = .ok (n, page')) (kind : Bool) :
    (page'.count kind : ℤ) =
      page.count kind + if kind = isRead then callDelta track else 0 := by
  cases track with
  | true =>
    obtain ⟨rfl, hr, -, rfl⟩ | ⟨rfl, hr, -, rfl⟩ := addDelta_track h <;>
      cases kind <;> simp [count, callDelta, bump]
  | false =>
    obtain ⟨rfl, hr, -, rfl⟩ | ⟨rfl, hr, -, rfl⟩ := addDelta_untrack h <;>
      cases kind <;> simp [count, callDelta, drop] <;> omega

/-- A delta that fails finds the page blocked. -/
theorem PageState.addDelta_fault {track isRead : Bool} {address : ℕ} {page : PageState}
    {fault : Fault} (h : page.addDelta (callDelta track) isRead address = .error fault) :
    page.Blocks track isRead := by
  have haccess := page.accessWatchers.isLt
  have hwrite := page.writeWatchers.isLt
  cases track <;> cases isRead <;>
    simp only [addDelta, callDelta, Bool.false_eq_true, if_true, if_false, Int.reduceNeg,
      Int.reduceEq] at h <;>
    split at h <;> first
    | cases h; done
    | simp only [Blocks, count, watcherLimit, Bool.false_eq_true, if_true, if_false]; omega

open Classical in
/-- What a call does to the counters. -/
theorem Update.count {track isRead : Bool} {sel span : Set ℕ} {m m' : Manager}
    (h : Update track isRead sel span m m') (kind : Bool) (q : ℕ) :
    ((m'.page q).count kind : ℤ) =
      (m.page q).count kind + if kind = isRead ∧ q ∈ sel then callDelta track else 0 := by
  by_cases hq : q ∈ sel
  · obtain ⟨n, hn⟩ := h.selected q hq
    rw [PageState.addDelta_count hn kind]
    simp only [hq, and_true]
  · rw [h.others q hq, if_neg (fun hc => hq hc.2), add_zero]

/-! ### Failing calls -/

section Calls

variable {accepts : ℕ → ℕ → Protection → Bool}

/-- A refused request is no fault of a counter. -/
theorem releasePending_fault {baseAddr : ℕ} {l : Sweep} {fault : Fault}
    (h : releasePending accepts baseAddr l = .error fault) : ¬ fault.IsWatcher := by
  unfold releasePending at h
  split at h
  · rcases bind_error.1 h with hp | ⟨host, -, h⟩
    · unfold protect at hp
      split at hp <;> cases hp
      exact id
    · cases h
  · cases h

/-- An iteration that a counter stops finds its page blocked. -/
theorem visitPage_fault {track isRead : Bool} {mask : Option RegionBits} {baseAddr j : ℕ}
    {l : Sweep} {fault : Fault} (h : visitPage accepts track isRead mask baseAddr l j = .error fault)
    (hf : fault.IsWatcher) :
    selects mask j = true ∧ (l.pages j).Blocks track isRead := by
  unfold visitPage at h
  rcases bind_error.1 h with hdelta | ⟨⟨n, page'⟩, -, h⟩
  · unfold deltaAt at hdelta
    dsimp only at hdelta
    split at hdelta
    · next hs => exact ⟨hs, PageState.addDelta_fault hdelta⟩
    · cases isRead <;> simp [PageState.addDelta] at hdelta
  · rcases bind_error.1 h with hrun | ⟨l₁, -, h⟩
    · unfold followRun at hrun
      split at hrun
      · rcases bind_error.1 hrun with hrel | ⟨l₁, -, hrun⟩
        · exact absurd hf (releasePending_fault hrel)
        · cases hrun
      · split at hrun <;> cases hrun
    · split at h
      · cases h
      · dsimp only at h
        split at h <;> cases h

/-- The numbers before an element of an interval are an interval. -/
theorem range'_split {first n j : ℕ} {before after : List ℕ}
    (h : List.range' first n = before ++ j :: after) :
    ∃ count < n, before = List.range' first count ∧ j = first + count := by
  obtain ⟨count, hle, hbefore, hrest⟩ := List.range'_eq_append_iff.1 h
  obtain ⟨hj, hpos, -⟩ := List.range'_eq_cons_iff.1 hrest.symm
  exact ⟨count, by omega, hbefore, by omega⟩

/-- One region's share of a call that a counter stops. -/
theorem updateRegion_fault {track isRead : Bool} {mask : Option RegionBits} {missing fault : Fault}
    {m : Manager} {vaddr first last : ℕ} (hm : Coherent m) (hlt : vaddr < addressSize)
    (hlast : last ≤ regionPages) (hsel : ∃ j, first ≤ j ∧ j < last ∧ selects mask j = true)
    (h : updateRegion accepts track isRead mask missing m vaddr first last = .error fault)
    (hf : fault.IsWatcher) :
    ∃ q, (q / regionPages = vaddr / regionSize ∧ first ≤ q % regionPages ∧
      q % regionPages < last ∧ selects mask (q % regionPages) = true) ∧
        (m.page q).Blocks track isRead := by
  have hpos : 0 < regionPages := by decide
  have hdiv : ∀ j < regionPages,
      (vaddr / regionSize * regionPages + j) / regionPages = vaddr / regionSize := by
    intro j hj
    rw [Nat.mul_comm, Nat.mul_add_div hpos, Nat.div_eq_of_lt hj, Nat.add_zero]
  have hmod : ∀ j < regionPages, (vaddr / regionSize * regionPages + j) % regionPages = j := by
    intro j hj
    rw [Nat.mul_comm, Nat.mul_add_mod, Nat.mod_eq_of_lt hj]
  unfold updateRegion at h
  split at h
  · next hnone =>
    -- no region: the call takes watchers away from pages that have none
    obtain ⟨j, hfirst, hj, hs⟩ := hsel
    refine ⟨vaddr / regionSize * regionPages + j, ?_, ?_⟩
    · rw [hdiv j (by omega), hmod j (by omega)]
      exact ⟨rfl, hfirst, hj, hs⟩
    · cases track with
      | true => simp [lookupRegion] at hnone
      | false =>
        have hregion : m.regions (vaddr / regionSize) = none := by
          simpa [lookupRegion, hlt] using hnone
        simp [Manager.page, hdiv j (by omega), hregion, PageState.Blocks]
  · next region hregion =>
    have hold : ∀ q, q / regionPages = vaddr / regionSize →
        region.pages (q % regionPages) = m.page q := fun q hq => lookupRegion_pages hregion q hq
    rcases bind_error.1 h with hsweep | ⟨swept, -, h⟩
    · unfold updateRegionWatchers at hsweep
      rcases bind_error.1 hsweep with hfold | ⟨l, -, hsweep⟩
      · obtain ⟨before, j, after, l, hsplit, hbefore, hvisit⟩ := foldlM_error hfold
        obtain ⟨count, hcount, rfl, hj⟩ := range'_split hsplit
        have hstart : ∀ j, j < regionPages →
            Matches (m.host (vaddr / regionSize * regionPages + j)) (region.pages j) := by
          intro j hj
          have := hold _ (hdiv j hj)
          rw [hmod j hj] at this
          rw [this]
          exact hm _
        have hinv := SweepInv.sweep count
          (SweepInv.start track isRead mask first hstart) le_rfl hbefore
        obtain ⟨hs, hblocks⟩ := visitPage_fault hvisit hf
        rw [hinv.untouched j (.inr hj.ge)] at hblocks
        have hjlt : j < regionPages := by omega
        refine ⟨vaddr / regionSize * regionPages + j, ?_, ?_⟩
        · rw [hdiv j hjlt, hmod j hjlt]
          exact ⟨rfl, by omega, by omega, hs⟩
        · rw [← hold _ (hdiv j hjlt), hmod j hjlt]
          exact hblocks
      · rcases bind_error.1 hsweep with hrel | ⟨l', -, hsweep⟩
        · exact absurd hf (releasePending_fault hrel)
        · cases hsweep
    · cases h

/-- The chunk loop that a counter stops. -/
theorem updateChunks_fault {track isRead : Bool} {m : Manager} {vaddr end_ : ℕ} {fault : Fault}
    (hm : Coherent m) {b e : ℕ} (hb : vaddr = b * pageSize) (he : end_ = e * pageSize)
    (hend : end_ ≤ addressSize)
    (h : updateChunks accepts track isRead m vaddr end_ = .error fault) (hf : fault.IsWatcher) :
    ∃ q, b ≤ q ∧ q < e ∧ (m.page q).Blocks track isRead := by
  fun_induction updateChunks accepts track isRead m vaddr end_ generalizing b with
  | case2 m vaddr hge => cases h
  | case1 m vaddr hlt chunkEnd regionBase =>
    rename_i ih
    have hbe : b < e := by
      rw [hb, he] at hlt
      exact Nat.lt_of_mul_lt_mul_right hlt
    obtain ⟨c, hbc, hce, hc, hchunkEnd, hindex, hfirst, hlast⟩ := chunk_arith hbe hb he
    have hlo := Nat.div_add_mod' b regionPages
    have hlastLe : c - b / regionPages * regionPages ≤ regionPages := by
      rw [Nat.add_mul] at hc
      omega
    rcases bind_error.1 h with hchunk | ⟨m₁, hchunk, h⟩
    · rw [hfirst, hlast] at hchunk
      have hsel : ∃ j, b % regionPages ≤ j ∧ j < c - b / regionPages * regionPages ∧
          selects none j = true := ⟨b % regionPages, le_rfl, by omega, rfl⟩
      obtain ⟨q, ⟨hq, hq₁, hq₂, -⟩, hblocks⟩ :=
        updateRegion_fault hm (lt_of_lt_of_le hlt hend) hlastLe hsel hchunk hf
      have hmem : q ∈ {q | b ≤ q ∧ q < c} := chunk_pages hbc hc ▸ ⟨hq.trans hindex, hq₁, hq₂⟩
      exact ⟨q, hmem.1, hmem.2.trans_le hce, hblocks⟩
    · rw [hfirst, hlast] at hchunk
      have hup := updateRegion_ok hm hlastLe hchunk
      obtain ⟨q, hcq, hqe, hblocks⟩ := ih m₁ hup.coherent hchunkEnd h
      -- the first chunk leaves the pages after it alone
      refine ⟨q, hbc.le.trans hcq, hqe, ?_⟩
      rw [← hup.others q]
      · exact hblocks
      · rintro ⟨hq, hq₁, hq₂, -⟩
        have hmem : q ∈ {q | b ≤ q ∧ q < c} := chunk_pages hbc hc ▸ ⟨hq.trans hindex, hq₁, hq₂⟩
        exact Nat.not_lt.2 hcq hmem.2

/-- **Why a call fails.** When a counter ends the process, a page of the mask was blocked. -/
theorem updatePageWatchersForRegion_fault {track isRead : Bool} {m : Manager} {baseAddr : ℕ}
    {mask : RegionBits} {fault : Fault} (hm : Coherent m)
    (h : updatePageWatchersForRegion accepts track isRead m baseAddr mask = .error fault)
    (hf : fault.IsWatcher) :
    ∃ q ∈ maskPages baseAddr mask, (m.page q).Blocks track isRead := by
  unfold updatePageWatchersForRegion at h
  split at h
  · cases h
    exact hf.elim
  next hvalid =>
  simp only [ne_eq, ge_iff_le, gt_iff_lt, not_or, not_not, not_le, not_lt] at hvalid
  dsimp only at h
  split at h
  · cases h
    exact hf.elim
  next hne =>
  obtain ⟨hlt, hle⟩ := mask.first_lt_last hne
  split at h
  · next hcont =>
    rw [← pagesOf_run hvalid.1 hne hcont]
    unfold implUpdatePageWatchers at h
    rcases bind_error.1 h with hend | ⟨end_, hend, hchunks⟩
    · unfold pageEnd at hend
      rcases bind_error.1 hend with hrange | ⟨u, -, hend⟩
      · unfold validateRange at hrange
        split at hrange <;> cases hrange
        exact hf.elim
      · cases hend
    · unfold pageEnd at hend
      obtain ⟨u, hrange, hend⟩ := bind_ok.1 hend
      rw [pure_ok] at hend
      obtain ⟨-, hsize, hlow, hroom⟩ := validateRange_ok hrange
      set vaddr := baseAddr + mask.firstRange.1 * pageSize
      set size := (mask.lastRange.2 - mask.firstRange.1) * pageSize
      -- the last page ends inside the tracked addresses
      have hlastPage : (vaddr + size - 1) / pageSize + 1 ≤ addressSize / pageSize := by
        rw [Nat.add_one_le_iff, Nat.div_lt_iff_lt_mul (by decide),
          Nat.div_mul_cancel (by decide)]
        omega
      have hendLe : end_ ≤ addressSize := by
        rw [← hend, pageStart]
        have := Nat.mul_le_mul_right pageSize hlastPage
        rwa [Nat.div_mul_cancel (show pageSize ∣ addressSize by decide), Nat.add_mul,
          Nat.one_mul] at this
      have hend' : end_ = ((vaddr + size - 1) / pageSize + 1) * pageSize := by
        rw [← hend, pageStart, Nat.add_mul, Nat.one_mul]
      obtain ⟨q, hq, hq', hblocks⟩ := updateChunks_fault hm rfl hend' hendLe hchunks hf
      exact ⟨q, ⟨hq, Nat.lt_succ_iff.1 hq'⟩, hblocks⟩
  · next hcont =>
    rw [← masked_run baseAddr mask]
    -- the first run of the mask begins with a page it selects
    have hsel : ∃ j, mask.firstRange.1 ≤ j ∧ j < mask.lastRange.2 ∧
        selects (some mask) j = true := by
      obtain ⟨-, hscan, -, hget⟩ := mask.scan_spec true 0 regionPages
      refine ⟨mask.firstRange.1, le_rfl, hlt, hget (lt_of_le_of_ne hscan ?_)⟩
      rw [Nat.zero_add]
      exact hne
    obtain ⟨q, hq, hblocks⟩ := updateRegion_fault hm hvalid.2.1 hle hsel h hf
    exact ⟨q, hq, hblocks⟩

end Calls

end Prosperismo.PageManager
