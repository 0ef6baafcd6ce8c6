import Prosperismo.PageManager.Invariant

/-!
# The calls of the page manager

From the effect of one region's sweep to the effect of a whole call: the chunk
loop covers exactly the pages that meet the byte range, and a region mask
selects exactly its bits, whether the call takes the contiguous or the masked
path. `Call.exec_ok` is the step lemma, `run_coherent` and `run_watched` the
run lemmas.
-/

namespace Prosperismo.PageManager

/-! ### Bit runs of a mask -/

namespace RegionBits

variable (mask : RegionBits) (value : Bool)

theorem scan_spec (start fuel : ℕ) :
    start ≤ mask.scan value start fuel ∧ mask.scan value start fuel ≤ start + fuel ∧
      (∀ j, start ≤ j → j < mask.scan value start fuel → mask.get j ≠ value) ∧
      (mask.scan value start fuel < start + fuel →
        mask.get (mask.scan value start fuel) = value) := by
  induction fuel generalizing start with
  | zero => simp [scan]; omega
  | succ fuel ih =>
    unfold scan
    split
    · next hv => exact ⟨le_rfl, by omega, fun j hj hji => by omega, fun _ => hv⟩
    · next hv =>
      obtain ⟨h1, h2, h3, h4⟩ := ih (start + 1)
      refine ⟨by omega, by omega, fun j hj hji => ?_, fun h => h4 (by omega)⟩
      by_cases hjs : j = start
      · exact hjs ▸ hv
      · exact h3 j (by omega) hji

theorem scanBack_spec (fuel : ℕ) :
    mask.scanBack value fuel ≤ fuel ∧
      (∀ j, mask.scanBack value fuel ≤ j → j < fuel → mask.get j ≠ value) ∧
      (0 < mask.scanBack value fuel → mask.get (mask.scanBack value fuel - 1) = value) := by
  induction fuel with
  | zero => simp [scanBack]
  | succ fuel ih =>
    unfold scanBack
    split
    · next hv => exact ⟨le_rfl, fun j hj hji => by omega, fun _ => hv⟩
    · next hv =>
      refine ⟨by omega, fun j hj hji => ?_, ih.2.2⟩
      by_cases hjs : j = fuel
      · exact hjs ▸ hv
      · exact ih.2.1 j hj (by omega)

theorem get_lt {j : ℕ} (h : mask.get j = true) : j < regionPages := by
  unfold get at h
  split at h
  · assumption
  · cases h

/-- Every set bit lies between the first and the last run. -/
theorem get_between {j : ℕ} (h : mask.get j = true) :
    mask.firstRange.1 ≤ j ∧ j < mask.lastRange.2 := by
  have hj := mask.get_lt h
  obtain ⟨-, -, hfirst, -⟩ := mask.scan_spec true 0 regionPages
  obtain ⟨-, hlast, -⟩ := mask.scanBack_spec true regionPages
  constructor
  · by_contra hlt
    exact hfirst j (Nat.zero_le j) (Nat.lt_of_not_le hlt) h
  · by_contra hge
    exact hlast j (Nat.le_of_not_lt hge) hj h

/-- A nonempty mask has its first bit below its last run's end. -/
theorem first_lt_last (h : mask.firstRange.1 ≠ regionPages) :
    mask.firstRange.1 < mask.lastRange.2 ∧ mask.lastRange.2 ≤ regionPages := by
  obtain ⟨-, hle, -, hget⟩ := mask.scan_spec true 0 regionPages
  have hlt : mask.firstRange.1 < 0 + regionPages :=
    lt_of_le_of_ne hle (by rwa [Nat.zero_add])
  exact ⟨(mask.get_between (hget hlt)).2, (mask.scanBack_spec true regionPages).1⟩

/-- When the first run ends where the last one does, the mask is one run. -/
theorem contiguous (h : mask.firstRange.2 = mask.lastRange.2) {j : ℕ}
    (hfirst : mask.firstRange.1 ≤ j) (hlast : j < mask.lastRange.2) : mask.get j = true := by
  obtain ⟨-, -, hrun, -⟩ :=
    mask.scan_spec false mask.firstRange.1 (regionPages - mask.firstRange.1)
  rw [← h] at hlast
  simpa using hrun j hfirst hlast

end RegionBits

/-! ### Byte ranges -/

/-- The pages that meet `[vaddr, vaddr + size)`. -/
def pagesOf (vaddr size : ℕ) : Set ℕ :=
  {q | vaddr / pageSize ≤ q ∧ q ≤ (vaddr + size - 1) / pageSize}

/-- The pages a mask selects in the region at `baseAddr`. -/
def maskPages (baseAddr : ℕ) (mask : RegionBits) : Set ℕ :=
  {q | q / regionPages = baseAddr / regionSize ∧ mask.get (q % regionPages) = true}

/-- The byte range of a mask that is one run meets exactly the pages of the mask. -/
theorem pagesOf_run {baseAddr : ℕ} {mask : RegionBits} (hbase : baseAddr % regionSize = 0)
    (hne : mask.firstRange.1 ≠ regionPages) (hcont : mask.firstRange.2 = mask.lastRange.2) :
    pagesOf (baseAddr + mask.firstRange.1 * pageSize)
      ((mask.lastRange.2 - mask.firstRange.1) * pageSize) = maskPages baseAddr mask := by
  have hpos : 0 < pageSize := by decide
  obtain ⟨hlt, hle⟩ := mask.first_lt_last hne
  obtain ⟨index, hindex⟩ : ∃ index, baseAddr = index * regionSize :=
    ⟨_, (Nat.div_mul_cancel (Nat.dvd_of_mod_eq_zero hbase)).symm⟩
  have hpage : baseAddr = index * regionPages * pageSize := by
    rw [hindex, Nat.mul_assoc]; rfl
  have hdiv : baseAddr / regionSize = index := by
    rw [hindex, Nat.mul_div_cancel _ (by decide)]
  have hlo : (baseAddr + mask.firstRange.1 * pageSize) / pageSize
      = index * regionPages + mask.firstRange.1 := by
    rw [hpage, ← Nat.add_mul, Nat.mul_div_cancel _ hpos]
  have hhi : (baseAddr + mask.firstRange.1 * pageSize
      + (mask.lastRange.2 - mask.firstRange.1) * pageSize - 1) / pageSize
      = index * regionPages + mask.lastRange.2 - 1 := by
    rw [hpage, ← Nat.add_mul, ← Nat.add_mul,
      show index * regionPages + mask.firstRange.1
          + (mask.lastRange.2 - mask.firstRange.1)
        = index * regionPages + mask.lastRange.2 by omega]
    have hpred : index * regionPages + mask.lastRange.2
        = (index * regionPages + mask.lastRange.2 - 1) + 1 := by omega
    rw [hpred, Nat.add_mul, Nat.one_mul, Nat.add_sub_cancel,
      Nat.add_sub_assoc (by decide), Nat.mul_comm, Nat.mul_add_div hpos,
      Nat.div_eq_of_lt (by decide), Nat.add_zero]
  ext q
  simp only [pagesOf, maskPages, Set.mem_ofPred_eq, hlo, hhi, hdiv]
  constructor
  · rintro ⟨hq, hq'⟩
    have hqi : q / regionPages = index :=
      Nat.div_eq_of_lt_le (by omega) (by rw [Nat.add_mul]; omega)
    have hdec := page_decomp hqi
    exact ⟨hqi, mask.contiguous hcont (by omega) (by omega)⟩
  · rintro ⟨hqi, hget⟩
    have hdec := page_decomp hqi
    have hbetween := mask.get_between hget
    omega

/-- The part of a region that the masked path covers and selects is the mask. -/
theorem masked_run (baseAddr : ℕ) (mask : RegionBits) :
    {q | q / regionPages = baseAddr / regionSize ∧
      mask.firstRange.1 ≤ q % regionPages ∧ q % regionPages < mask.lastRange.2 ∧
      selects (some mask) (q % regionPages) = true} = maskPages baseAddr mask := by
  ext q
  simp only [maskPages, selects, Set.mem_ofPred_eq]
  constructor
  · rintro ⟨hqi, -, -, hget⟩; exact ⟨hqi, hget⟩
  · rintro ⟨hqi, hget⟩
    have := mask.get_between hget
    exact ⟨hqi, this.1, this.2, hget⟩

section Calls

variable {accepts : ℕ → ℕ → Protection → Bool}

/-- The part of a region a chunk covers is the chunk's page interval. -/
theorem chunk_pages {b c : ℕ} (hbc : b < c) (hc : c ≤ (b / regionPages + 1) * regionPages) :
    {q | q / regionPages = b / regionPages ∧ b % regionPages ≤ q % regionPages ∧
      q % regionPages < c - b / regionPages * regionPages} = {q | b ≤ q ∧ q < c} := by
  ext q
  simp only [Set.mem_ofPred_eq]
  have hb := Nat.div_add_mod' b regionPages
  have hq := Nat.div_add_mod' q regionPages
  constructor
  · rintro ⟨hqi, hlo, hhi⟩
    rw [hqi] at hq
    omega
  · rintro ⟨hlo, hhi⟩
    have hqi : q / regionPages = b / regionPages :=
      Nat.div_eq_of_lt_le (by omega) (by omega)
    rw [hqi] at hq
    exact ⟨hqi, by omega, by omega⟩

/-- A chunk of the chunk loop, in pages. -/
theorem chunk_arith {vaddr end_ b e : ℕ} (hbe : b < e) (hb : vaddr = b * pageSize)
    (he : end_ = e * pageSize) :
    ∃ c, b < c ∧ c ≤ e ∧ c ≤ (b / regionPages + 1) * regionPages ∧
      min end_ ((vaddr / regionSize + 1) * regionSize) = c * pageSize ∧
      vaddr / regionSize = b / regionPages ∧
      (vaddr - vaddr / regionSize * regionSize) / pageSize = b % regionPages ∧
      (min end_ ((vaddr / regionSize + 1) * regionSize) - vaddr / regionSize * regionSize) /
        pageSize = c - b / regionPages * regionPages := by
  have hpos : 0 < pageSize := by decide
  have hindex : vaddr / regionSize = b / regionPages := by
    rw [hb, show regionSize = pageSize * regionPages by decide, Nat.mul_comm b,
      Nat.mul_div_mul_left _ _ hpos]
  have hlo := Nat.div_add_mod' b regionPages
  have hlt := Nat.mod_lt b (show 0 < regionPages by decide)
  have hbase : b / regionPages * regionSize = b / regionPages * regionPages * pageSize := by
    rw [show regionSize = regionPages * pageSize by decide, Nat.mul_assoc]
  have hchunkEnd : min end_ ((vaddr / regionSize + 1) * regionSize) =
      min e ((b / regionPages + 1) * regionPages) * pageSize := by
    rw [hindex, he, ← Nat.mul_min_mul_right,
      show regionSize = regionPages * pageSize by decide, Nat.mul_assoc]
  refine ⟨min e ((b / regionPages + 1) * regionPages), ?_, min_le_left _ _, min_le_right _ _,
    hchunkEnd, hindex, ?_, ?_⟩
  · rw [lt_min_iff]
    exact ⟨hbe, by rw [Nat.add_mul]; omega⟩
  · rw [hindex, hb, hbase, ← Nat.sub_mul, Nat.mul_div_cancel _ hpos]
    omega
  · rw [hchunkEnd, hindex, hbase, ← Nat.sub_mul, Nat.mul_div_cancel _ hpos]

/-- **The chunk loop.** It gives every page of `[b, e)` its delta once. -/
theorem updateChunks_ok {track isRead : Bool} {m m' : Manager} {vaddr end_ : ℕ}
    (hm : Coherent m) {b e : ℕ} (hb : vaddr = b * pageSize) (he : end_ = e * pageSize)
    (h : updateChunks accepts track isRead m vaddr end_ = .ok m') :
    Update track isRead {q | b ≤ q ∧ q < e} {q | b ≤ q ∧ q < e} m m' := by
  fun_induction updateChunks accepts track isRead m vaddr end_ generalizing m' b with
  | case2 m vaddr hge =>
    rw [pure_ok] at h
    subst h
    have hempty : {q | b ≤ q ∧ q < e} = (∅ : Set ℕ) := by
      ext q
      have : ¬ b < e := fun hlt => hge (by
        rw [hb, he]; exact Nat.mul_lt_mul_of_pos_right hlt (by decide))
      simp only [Set.mem_ofPred_eq, Set.mem_empty_iff_false, iff_false]
      omega
    rw [hempty]
    exact Update.refl hm
  | case1 m vaddr hlt chunkEnd regionBase =>
    rename_i ih
    obtain ⟨m₁, hchunk, h⟩ := bind_ok.1 h
    have hbe : b < e := by
      rw [hb, he] at hlt
      exact Nat.lt_of_mul_lt_mul_right hlt
    obtain ⟨c, hbc, hce, hc, hchunkEnd, hindex, hfirst, hlast⟩ := chunk_arith hbe hb he
    rw [hfirst, hlast] at hchunk
    have hup := updateRegion_ok hm (by rw [Nat.add_mul] at hc; omega) hchunk
    simp only [selects, and_true] at hup
    rw [hindex, chunk_pages hbc hc] at hup
    have hrest := ih m₁ hup.coherent hchunkEnd h
    have hsplit : {q | b ≤ q ∧ q < e} = {q | b ≤ q ∧ q < c} ∪ {q | c ≤ q ∧ q < e} := by
      ext q
      simp only [Set.mem_ofPred_eq, Set.mem_union]
      omega
    rw [hsplit]
    refine hup.trans hrest (fun q hq hq' => ?_)
    exact absurd hq'.1 (Nat.not_le.2 hq.2)

/-- `ValidateRange`, taken apart. -/
theorem validateRange_ok {vaddr size : ℕ} {allowZero : Bool} {u : Unit}
    (h : validateRange vaddr size allowZero = .ok u) :
    (allowZero = true ∨ vaddr ≠ 0) ∧ size ≠ 0 ∧ vaddr < addressSize ∧
      size ≤ addressSize - vaddr := by
  unfold validateRange at h
  split at h
  · cases h
  · next hc =>
    simp only [Bool.or_eq_true, Bool.and_eq_true, Bool.not_eq_true', beq_iff_eq,
      decide_eq_true_eq, not_or, not_and, not_lt, ge_iff_le, gt_iff_lt, not_le] at hc
    refine ⟨?_, hc.1.1.2, hc.1.2, hc.2⟩
    cases allowZero with
    | true => exact .inl rfl
    | false => exact .inr (hc.1.1.1 rfl)

/-- `Impl::UpdatePageWatchers` updates the pages that meet the byte range. -/
theorem implUpdatePageWatchers_ok {track isRead : Bool} {m m' : Manager} {vaddr size : ℕ}
    (hm : Coherent m) (h : implUpdatePageWatchers accepts track isRead m vaddr size = .ok m') :
    Update track isRead (pagesOf vaddr size) (pagesOf vaddr size) m m' := by
  unfold implUpdatePageWatchers at h
  obtain ⟨end_, hend, h⟩ := bind_ok.1 h
  unfold pageEnd at hend
  obtain ⟨u, -, hend⟩ := bind_ok.1 hend
  rw [pure_ok] at hend
  have hup := updateChunks_ok hm (b := vaddr / pageSize)
    (e := (vaddr + size - 1) / pageSize + 1) rfl
    (by rw [← hend, pageStart, Nat.add_mul, Nat.one_mul]) h
  simpa only [pagesOf, Nat.lt_succ_iff] using hup

/-- `UpdatePageWatchersForRegion` updates the pages of its mask, on the
contiguous path as well as on the masked one; the contiguous path asks nothing
about other pages. -/
theorem updatePageWatchersForRegion_ok {track isRead : Bool} {m m' : Manager} {baseAddr : ℕ}
    {mask : RegionBits} (hm : Coherent m)
    (h : updatePageWatchersForRegion accepts track isRead m baseAddr mask = .ok m') :
    ∃ span, maskPages baseAddr mask ⊆ span ∧
      (mask.firstRange.2 = mask.lastRange.2 → span = maskPages baseAddr mask) ∧
      Update track isRead (maskPages baseAddr mask) span m m' := by
  have hpos : 0 < pageSize := by decide
  unfold updatePageWatchersForRegion at h
  split at h
  · cases h
  next hvalid =>
  simp only [ne_eq, ge_iff_le, gt_iff_lt, not_or, not_not, not_le, not_lt] at hvalid
  simp only at h
  split at h
  · cases h
  next hne =>
  obtain ⟨hlt, hle⟩ := mask.first_lt_last hne
  split at h
  · next hcont =>
    -- the contiguous path: the byte range is exactly the run
    refine ⟨_, subset_rfl, fun _ => rfl, ?_⟩
    have hup := implUpdatePageWatchers_ok hm h
    rwa [pagesOf_run hvalid.1 hne hcont] at hup
  · next hcont =>
    -- the masked path: the sweep covers the mask and tests each bit
    have hup := updateRegion_ok hm hle h
    rw [masked_run baseAddr mask] at hup
    refine ⟨_, ?_, fun hcont' => absurd hcont' hcont, hup⟩
    rintro q ⟨hqi, hget⟩
    have := mask.get_between hget
    exact ⟨hqi, this.1, this.2⟩

/-! ### Calls and runs -/

/-- Whether a call adds watchers. -/
def Call.track : Call → Bool
  | .updatePageWatchers track _ _ => track
  | .updatePageWatchersForRegion track _ _ _ => track

/-- Whether a call is about read watchers. -/
def Call.isRead : Call → Bool
  | .updatePageWatchers _ _ _ => false
  | .updatePageWatchersForRegion _ isRead _ _ => isRead

/-- The pages a call updates. -/
def Call.pages : Call → Set ℕ
  | .updatePageWatchers _ vaddr size => pagesOf vaddr size
  | .updatePageWatchersForRegion _ _ baseAddr mask => maskPages baseAddr mask

/-- **The step lemma.** A call that returns gives each of its pages one delta
and keeps the invariant. -/
theorem Call.exec_ok {c : Call} {m m' : Manager} (hm : Coherent m)
    (h : c.exec accepts m = .ok m') :
    ∃ span, c.pages ⊆ span ∧ Update c.track c.isRead c.pages span m m' := by
  cases c with
  | updatePageWatchers track vaddr size =>
    simp only [exec, PageManager.updatePageWatchers] at h
    have himpl : implUpdatePageWatchers accepts track false m vaddr size = .ok m' := by
      cases track with
      | true =>
        obtain ⟨_, -, h⟩ := bind_ok.1 h
        exact h
      | false => exact h
    exact ⟨_, subset_rfl, implUpdatePageWatchers_ok hm himpl⟩
  | updatePageWatchersForRegion track isRead baseAddr mask =>
    obtain ⟨span, hsub, -, hup⟩ := updatePageWatchersForRegion_ok hm h
    exact ⟨span, hsub, hup⟩

/-- A page that gains a watcher has been protected. -/
theorem Update.protected_of_track {isRead : Bool} {sel span : Set ℕ} {m m' : Manager}
    (h : Update true isRead sel span m m') {q : ℕ} (hq : q ∈ sel) : m'.host q ≠ none := by
  obtain ⟨n, hn⟩ := h.selected q hq
  intro hnone
  exact PageState.addDelta_track_ne_empty hn ((h.coherent q).2 hnone)

end Calls

/-- A page was watched at some point of the calls. -/
def EverWatched (calls : List Call) (q : ℕ) : Prop :=
  ∃ c ∈ calls, c.track = true ∧ q ∈ c.pages

/-- **The run lemma.** The invariant holds after every run. -/
theorem run_coherent {calls : List Call} {m : Manager} (h : Run step .initial calls m) :
    Coherent m :=
  h.invariant Coherent.initial fun _ _ _ hm ⟨_, hexec⟩ =>
    (Call.exec_ok hm hexec).choose_spec.2.coherent

/-- A page that was ever watched has been protected. -/
theorem run_watched {calls : List Call} {m : Manager} (h : Run step .initial calls m) :
    Coherent m ∧ ∀ q, EverWatched calls q → m.host q ≠ none := by
  refine h.history (I := fun calls m => Coherent m ∧ ∀ q, EverWatched calls q → m.host q ≠ none)
    ⟨Coherent.initial, fun q ⟨c, hc, _⟩ => absurd hc (List.not_mem_nil)⟩ ?_
  rintro calls m c m' ⟨hm, hwatched⟩ ⟨accepts, hexec⟩
  obtain ⟨span, -, hup⟩ := Call.exec_ok hm hexec
  refine ⟨hup.coherent, ?_⟩
  rintro q ⟨c', hc', htrack, hq⟩
  rcases List.mem_append.1 hc' with hold | hnew
  · exact hup.keeps q (hwatched q ⟨c', hold, htrack, hq⟩)
  · rw [List.mem_singleton] at hnew
    subst hnew
    rw [htrack] at hup
    exact hup.protected_of_track hq

end Prosperismo.PageManager
