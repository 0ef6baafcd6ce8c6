import Prosperismo.PageManager.Calls
import Mathlib.Data.List.Nodup

/-!
# The masked path against single pages

`UpdatePageWatchersForRegion` sweeps all the bits of its mask at once and
batches the protection calls; `updatePagesOneAtATime` is the same update made
with one call per set bit. Both give the same pages the same delta, so

* they leave the same counters everywhere;
* they leave the same protection on every page that was ever watched, since
  there the invariant fixes it;
* on any other page they differ at most by the `readWrite` that a run spanning
  the gap between two bits of the mask asks for.

The one-at-a-time update of a host that refuses nothing returns whenever the
masked one does, so the comparison is never about nothing.
-/

namespace Prosperismo.PageManager

/-! ### One page at a time -/

/-- The mask with a single bit. -/
def RegionBits.single (i : ℕ) : RegionBits := fun j => j.val == i

/-- The set bits of a mask, in order. -/
def RegionBits.members (mask : RegionBits) : List ℕ :=
  (List.range regionPages).filter fun j => mask.get j

/-- The update of the mask's pages with one call for each. -/
def updatePagesOneAtATime (accepts : ℕ → ℕ → Protection → Bool) (track isRead : Bool)
    (m : Manager) (baseAddr : ℕ) (mask : RegionBits) : Except Fault Manager :=
  mask.members.foldlM
    (fun m i => updatePageWatchersForRegion accepts track isRead m baseAddr (.single i)) m

namespace RegionBits

theorem mem_members {mask : RegionBits} {j : ℕ} : j ∈ mask.members ↔ mask.get j = true := by
  simp only [members, List.mem_filter, List.mem_range, and_iff_right_iff_imp]
  exact mask.get_lt

theorem nodup_members (mask : RegionBits) : mask.members.Nodup :=
  List.nodup_range.filter _

theorem get_single {i j : ℕ} (hi : i < regionPages) : (single i).get j = true ↔ j = i := by
  unfold get single
  split
  · simp
  · next hj => simp only [Bool.false_eq_true, false_iff]; omega

/-- The one run of a singleton mask. -/
theorem single_firstRange {i : ℕ} (hi : i < regionPages) :
    (single i).firstRange = (i, i + 1) := by
  have hget := fun j => get_single (j := j) hi
  obtain ⟨-, hle, hbefore, hat⟩ := (single i).scan_spec true 0 regionPages
  have hfirst : (single i).scan true 0 regionPages = i := by
    rcases Nat.lt_or_ge ((single i).scan true 0 regionPages) (0 + regionPages) with hlt | hge
    · exact (hget _).1 (hat hlt)
    · exact absurd ((hget i).2 rfl) (hbefore i (Nat.zero_le i) (by omega))
  obtain ⟨hlo, hle', hrun, hstop⟩ := (single i).scan_spec false i (regionPages - i)
  have hsecond : (single i).scan false i (regionPages - i) = i + 1 := by
    rcases Nat.lt_trichotomy ((single i).scan false i (regionPages - i)) (i + 1) with
      hlt | heq | hgt
    · have hi' : (single i).scan false i (regionPages - i) = i := by omega
      have := hstop (by omega)
      rw [hi', (hget i).2 rfl] at this
      cases this
    · exact heq
    · have := (hget (i + 1)).1 (by simpa using hrun (i + 1) (by omega) hgt)
      omega
  simp only [firstRange, hfirst, hsecond]

theorem single_lastRange {i : ℕ} (hi : i < regionPages) : (single i).lastRange.2 = i + 1 := by
  have hbetween := (single i).get_between ((get_single hi).2 rfl)
  obtain ⟨-, -, hat⟩ := (single i).scanBack_spec true regionPages
  have hlast : (single i).lastRange.2 - 1 = i :=
    (get_single hi).1 (hat (Nat.zero_lt_of_lt hbetween.2))
  omega

end RegionBits

/-- The pages of one bit. -/
theorem maskPages_single {baseAddr i : ℕ} (hi : i < regionPages) :
    maskPages baseAddr (.single i)
      = {q | q / regionPages = baseAddr / regionSize ∧ q % regionPages = i} := by
  ext q
  simp only [maskPages, Set.mem_ofPred_eq, RegionBits.get_single hi]

section OneAtATime

variable {accepts : ℕ → ℕ → Protection → Bool} {track isRead : Bool}

/-- A call for one page updates it, and asks nothing about any other. -/
theorem updatePageWatchersForRegion_single {baseAddr j : ℕ} {m m' : Manager}
    (hm : Coherent m) (hj : j < regionPages)
    (h : updatePageWatchersForRegion accepts track isRead m baseAddr (.single j) = .ok m') :
    Update track isRead
      {q | q / regionPages = baseAddr / regionSize ∧ q % regionPages = j}
      {q | q / regionPages = baseAddr / regionSize ∧ q % regionPages = j} m m' := by
  obtain ⟨span, -, hspan, hup⟩ := updatePageWatchersForRegion_ok hm h
  rw [hspan (by rw [RegionBits.single_firstRange hj, RegionBits.single_lastRange hj]),
    maskPages_single hj] at hup
  exact hup

/-- One call for each of the bits `js` updates their pages. -/
theorem foldlM_single_ok {baseAddr : ℕ} {js : List ℕ} {m m' : Manager}
    (hm : Coherent m) (hnodup : js.Nodup) (hjs : ∀ j ∈ js, j < regionPages)
    (h : js.foldlM (fun m i => updatePageWatchersForRegion accepts track isRead m baseAddr
      (.single i)) m = .ok m') :
    Update track isRead
      {q | q / regionPages = baseAddr / regionSize ∧ q % regionPages ∈ js}
      {q | q / regionPages = baseAddr / regionSize ∧ q % regionPages ∈ js} m m' := by
  induction js generalizing m with
  | nil =>
    rw [List.foldlM_nil, pure_ok] at h
    subst h
    simpa using Update.refl hm
  | cons j js ih =>
    rw [List.foldlM_cons] at h
    obtain ⟨m₁, hfirst, h⟩ := bind_ok.1 h
    have hj := hjs j List.mem_cons_self
    have hone := updatePageWatchersForRegion_single hm hj hfirst
    have hrest := ih hone.coherent hnodup.of_cons
      (fun i hi => hjs i (List.mem_cons_of_mem _ hi)) h
    have hsplit : {q | q / regionPages = baseAddr / regionSize ∧ q % regionPages ∈ j :: js}
        = {q | q / regionPages = baseAddr / regionSize ∧ q % regionPages = j}
          ∪ {q | q / regionPages = baseAddr / regionSize ∧ q % regionPages ∈ js} := by
      ext q
      simp only [List.mem_cons, Set.mem_ofPred_eq, Set.mem_union, ← and_or_left]
    rw [hsplit]
    refine hone.trans hrest (fun q hq hq' => ?_)
    exact hnodup.notMem (hq.2 ▸ hq'.2)

/-- The one-at-a-time update gives the mask's pages one delta each, and asks
nothing about any other page. -/
theorem updatePagesOneAtATime_ok {m m' : Manager} {baseAddr : ℕ} {mask : RegionBits}
    (hm : Coherent m)
    (h : updatePagesOneAtATime accepts track isRead m baseAddr mask = .ok m') :
    Update track isRead (maskPages baseAddr mask) (maskPages baseAddr mask) m m' := by
  have hlt : ∀ j ∈ mask.members, j < regionPages := fun j hj => by
    rw [RegionBits.mem_members] at hj
    exact mask.get_lt hj
  unfold updatePagesOneAtATime at h
  have hup := foldlM_single_ok hm mask.nodup_members hlt h
  simpa only [maskPages, RegionBits.mem_members] using hup

end OneAtATime

/-! ### A host that refuses nothing -/

/-- The host that accepts every request. -/
def acceptAll : ℕ → ℕ → Protection → Bool := fun _ _ _ => true

section AcceptAll

theorem releasePending_acceptAll (baseAddr : ℕ) (l : Sweep) :
    ∃ l', releasePending acceptAll baseAddr l = .ok l' := by
  unfold releasePending
  split
  · exact ⟨_, rfl⟩
  · exact ⟨_, rfl⟩

theorem followRun_acceptAll (baseAddr : ℕ) (newPerms : Protection) (l : Sweep) :
    ∃ l', followRun acceptAll baseAddr newPerms l = .ok l' := by
  unfold followRun
  split
  · obtain ⟨l', h⟩ := releasePending_acceptAll baseAddr l
    exact ⟨_, bind_ok.2 ⟨l', h, rfl⟩⟩
  · split
    · exact ⟨_, rfl⟩
    · exact ⟨_, rfl⟩

/-- With such a host, an iteration of the page loop returns as soon as the
counter can take its delta. -/
theorem visitPage_acceptAll {track isRead : Bool} {mask : Option RegionBits} {baseAddr j n : ℕ}
    (l : Sweep) {page' : PageState}
    (h : deltaAt track isRead mask baseAddr j (l.pages j) = .ok (n, page')) :
    ∃ l', visitPage acceptAll track isRead mask baseAddr l j = .ok l' := by
  obtain ⟨l₁, hrun⟩ := followRun_acceptAll baseAddr page'.perms
    { l with pages := Function.update l.pages j page' }
  unfold visitPage
  simp only [h, hrun, bind, Except.bind]
  split
  · exact ⟨_, rfl⟩
  · split
    · exact ⟨_, rfl⟩
    · exact ⟨_, rfl⟩

/-- A call finds the region of a page that can take its delta: an unwatched page
cannot be untracked. -/
theorem lookupRegion_of_delta {track isRead : Bool} {m : Manager} {vaddr q n : ℕ}
    {page' : PageState} (hvaddr : vaddr < addressSize)
    (hindex : q / regionPages = vaddr / regionSize)
    (hdelta : (m.page q).addDelta (callDelta track) isRead (q * pageSize) = .ok (n, page')) :
    ∃ region, lookupRegion track m vaddr = some region := by
  unfold lookupRegion
  cases track with
  | true => exact ⟨_, if_pos rfl⟩
  | false =>
    have hne := PageState.addDelta_untrack_ne_empty hdelta
    unfold Manager.page at hne
    rw [hindex] at hne
    cases hregion : m.regions (vaddr / regionSize) with
    | none => rw [hregion] at hne; exact absurd rfl hne
    | some region => exact ⟨region, by rw [if_neg Bool.false_ne_true, if_pos hvaddr]⟩

/-- The bytes of page `i` of a region, as the calls compute them: the call at
its address stays in the region and below the end of the tracked addresses. -/
theorem page_bytes {P R S A index i a : ℕ} (hP : 0 < P) (hS : S = R * P) (hi : i < R)
    (hindex : (index + 1) * S ≤ A) (ha : a = index * S + i * P) :
    a = (index * R + i) * P ∧ a / S = index ∧ a + P ≤ A ∧ index * S + S ≤ A ∧
      a + P ≤ (index + 1) * S ∧ (a - index * S) / P = i ∧ (a + P - index * S) / P = i + 1 ∧
      (a + P - 1) / P * P = a := by
  have hspan : i * P + P ≤ S := by
    rw [hS, ← Nat.succ_mul]
    exact Nat.mul_le_mul_right _ hi
  have haddr : a = (index * R + i) * P := by
    rw [ha, hS, Nat.add_mul, Nat.mul_assoc]
  have hfirst : a - index * S = i * P := by omega
  have hlast : a + P - index * S = (i + 1) * P := by
    rw [Nat.add_mul, Nat.one_mul]; omega
  have hend : a + P - 1 = P * (index * R + i) + (P - 1) := by
    rw [haddr, Nat.mul_comm P]; omega
  refine ⟨haddr, ?_, ?_, ?_, ?_, ?_, ?_, ?_⟩
  · rw [ha, Nat.mul_comm, Nat.mul_add_div (by omega), Nat.div_eq_of_lt (by omega), Nat.add_zero]
  · rw [Nat.add_mul, Nat.one_mul] at hindex; omega
  · rw [Nat.add_mul, Nat.one_mul] at hindex; exact hindex
  · rw [Nat.add_mul, Nat.one_mul]; omega
  · rw [hfirst, Nat.mul_div_cancel _ hP]
  · rw [hlast, Nat.mul_div_cancel _ hP]
  · rw [hend, Nat.mul_add_div hP, Nat.div_eq_of_lt (by omega), Nat.add_zero, haddr]

/-- One page's share of a call: it returns when the counter can take its
delta. -/
theorem updateRegion_acceptAll {track isRead : Bool} (missing : Fault) {m : Manager}
    {vaddr index i n : ℕ} {page' : PageState} (hi : i < regionPages)
    (hlt : vaddr < addressSize) (hindex : vaddr / regionSize = index)
    (hdelta : (m.page (index * regionPages + i)).addDelta (callDelta track) isRead
      ((index * regionPages + i) * pageSize) = .ok (n, page')) :
    ∃ m', updateRegion acceptAll track isRead none missing m vaddr i (i + 1) = .ok m' := by
  have hdiv : (index * regionPages + i) / regionPages = index := by
    rw [Nat.mul_comm, Nat.mul_add_div (by decide), Nat.div_eq_of_lt hi, Nat.add_zero]
  have hmod : (index * regionPages + i) % regionPages = i := by
    rw [Nat.mul_comm, Nat.mul_add_mod, Nat.mod_eq_of_lt hi]
  obtain ⟨region, hregion⟩ := lookupRegion_of_delta hlt (by rw [hdiv, hindex]) hdelta
  have hpage := lookupRegion_pages hregion (index * regionPages + i) (by rw [hdiv, hindex])
  rw [hmod] at hpage
  have haddr : index * regionSize + i * pageSize = (index * regionPages + i) * pageSize := by
    rw [Nat.add_mul, Nat.mul_assoc]; rfl
  have hdeltaAt : deltaAt track isRead none (index * regionSize) i (region.pages i) =
      .ok (n, page') := by
    simpa only [deltaAt, selects, if_true, hpage, haddr] using hdelta
  obtain ⟨l, hvisit⟩ := visitPage_acceptAll
    ⟨region.pages, m.host, (region.pages i).perms, 0, 0, 0⟩ hdeltaAt
  obtain ⟨l', hrelease⟩ := releasePending_acceptAll (index * regionSize) l
  refine ⟨⟨Function.update m.regions index (some ⟨l'.pages⟩), l'.host⟩, ?_⟩
  unfold updateRegion
  simp only [hregion, hindex, updateRegionWatchers, Nat.add_sub_cancel_left, List.range'_one,
    List.foldlM_cons, List.foldlM_nil, hvisit, hrelease, bind, Except.bind, pure, Except.pure]

/-- A call for one page returns when the counter can take its delta. -/
theorem updatePageWatchersForRegion_acceptAll {track isRead : Bool} {m : Manager}
    {index i n : ℕ} {page' : PageState} (hi : i < regionPages)
    (hindex : (index + 1) * regionSize ≤ addressSize)
    (hdelta : (m.page (index * regionPages + i)).addDelta (callDelta track) isRead
      ((index * regionPages + i) * pageSize) = .ok (n, page')) :
    ∃ m', updatePageWatchersForRegion acceptAll track isRead m (index * regionSize) (.single i)
        = .ok m' := by
  have hpos : 0 < pageSize := by decide
  obtain ⟨haddr, hdiv, hbelow, hbase, hchunk, hfirst, hlast, hend⟩ :=
    page_bytes (S := regionSize) (R := regionPages) hpos (by decide) hi hindex rfl
  generalize hvaddr : index * regionSize + i * pageSize = vaddr at *
  have hlt : vaddr < addressSize := Nat.lt_of_lt_of_le (Nat.lt_add_of_pos_right hpos) hbelow
  obtain ⟨m', hupdate⟩ := updateRegion_acceptAll
    (.untrackingUnknownPage vaddr) hi hlt hdiv hdelta
  refine ⟨m', ?_⟩
  have hstart : pageStart vaddr = vaddr := by
    rw [pageStart, haddr, Nat.mul_div_cancel _ hpos]
  have hrange : pageEnd vaddr pageSize true = .ok (vaddr + pageSize) := by
    have hsize : ¬pageSize > addressSize - vaddr :=
      Nat.not_lt.2 (Nat.le_sub_of_add_le (by rw [Nat.add_comm]; exact hbelow))
    unfold pageEnd validateRange pageStart
    rw [if_neg]
    · simp only [bind, Except.bind, pure, Except.pure, hend]
    · simp [Nat.ne_of_gt hpos, Nat.not_le.2 hlt, hsize]
  have hchunks : updateChunks acceptAll track isRead m vaddr (vaddr + pageSize) = .ok m' := by
    rw [updateChunks, dif_pos (Nat.lt_add_of_pos_right hpos)]
    simp only [hdiv, Nat.min_eq_left hchunk, hfirst, hlast, hupdate, bind, Except.bind]
    rw [updateChunks, dif_neg (Nat.lt_irrefl _)]
    rfl
  have hvalid : ¬(index * regionSize % regionSize ≠ 0 ∨ index * regionSize ≥ addressSize ∨
      regionSize > addressSize - index * regionSize) := by
    rintro (h | h | h)
    · exact h (Nat.mul_mod_left _ _)
    · have hsum := Nat.le_trans hbase h
      exact absurd hsum (Nat.not_le.2 (Nat.lt_add_of_pos_right (by decide)))
    · exact absurd (Nat.le_sub_of_add_le (by rw [Nat.add_comm]; exact hbase)) (Nat.not_le.2 h)
  unfold updatePageWatchersForRegion
  rw [if_neg hvalid]
  simp only [RegionBits.single_firstRange hi, RegionBits.single_lastRange hi, if_true,
    Nat.add_sub_cancel_left, Nat.one_mul, hvaddr]
  rw [if_neg (Nat.ne_of_lt hi), implUpdatePageWatchers, hstart, hrange]
  exact bind_ok.2 ⟨_, rfl, hchunks⟩

/-- One call for each of the bits `js` returns when every counter can take its
delta. -/
theorem foldlM_single_acceptAll {track isRead : Bool} {index : ℕ}
    (hindex : (index + 1) * regionSize ≤ addressSize) {js : List ℕ} {m : Manager}
    (hm : Coherent m) (hnodup : js.Nodup) (hjs : ∀ j ∈ js, j < regionPages)
    (hdelta : ∀ j ∈ js, ∃ n page', (m.page (index * regionPages + j)).addDelta (callDelta track)
      isRead ((index * regionPages + j) * pageSize) = .ok (n, page')) :
    ∃ m', js.foldlM (fun m i => updatePageWatchersForRegion acceptAll track isRead m
      (index * regionSize) (.single i)) m = .ok m' := by
  induction js generalizing m with
  | nil => exact ⟨m, rfl⟩
  | cons j js ih =>
    have hj := hjs j List.mem_cons_self
    obtain ⟨n, page', hn⟩ := hdelta j List.mem_cons_self
    obtain ⟨m₁, hfirst⟩ := updatePageWatchersForRegion_acceptAll hj hindex hn
    have hone := updatePageWatchersForRegion_single hm hj hfirst
    -- the other pages still have the counters they had
    have hrest : ∀ i ∈ js, m₁.page (index * regionPages + i)
        = m.page (index * regionPages + i) := by
      intro i hi
      refine hone.others _ fun hq => ?_
      have hmod : (index * regionPages + i) % regionPages = i := by
        rw [Nat.mul_comm, Nat.mul_add_mod, Nat.mod_eq_of_lt (hjs i (List.mem_cons_of_mem _ hi))]
      have hij : i = j := hmod.symm.trans hq.2
      exact hnodup.notMem (hij ▸ hi)
    obtain ⟨m', h⟩ := ih hone.coherent hnodup.of_cons
      (fun i hi => hjs i (List.mem_cons_of_mem _ hi))
      (fun i hi => by rw [hrest i hi]; exact hdelta i (List.mem_cons_of_mem _ hi))
    refine ⟨m', ?_⟩
    rw [List.foldlM_cons]
    exact bind_ok.2 ⟨m₁, hfirst, h⟩

/-- **The one-at-a-time update returns.** On a host that refuses nothing it
returns whenever the update of the whole mask does. -/
theorem updatePagesOneAtATime_acceptAll {accepts : ℕ → ℕ → Protection → Bool}
    {track isRead : Bool} {m m' : Manager} {baseAddr : ℕ} {mask : RegionBits}
    (hm : Coherent m)
    (h : updatePageWatchersForRegion accepts track isRead m baseAddr mask = .ok m') :
    ∃ m'', updatePagesOneAtATime acceptAll track isRead m baseAddr mask = .ok m'' := by
  obtain ⟨span, -, -, hup⟩ := updatePageWatchersForRegion_ok hm h
  have hbase : baseAddr % regionSize = 0 ∧ baseAddr + regionSize ≤ addressSize := by
    unfold updatePageWatchersForRegion at h
    split at h
    · cases h
    next hvalid =>
    simp only [ne_eq, ge_iff_le, gt_iff_lt, not_or, not_not, not_le, not_lt] at hvalid
    refine ⟨hvalid.1, ?_⟩
    have := Nat.add_le_of_le_sub (Nat.le_of_lt hvalid.2.1) hvalid.2.2
    rwa [Nat.add_comm] at this
  obtain ⟨index, rfl⟩ : ∃ index, baseAddr = index * regionSize :=
    ⟨_, (Nat.div_mul_cancel (Nat.dvd_of_mod_eq_zero hbase.1)).symm⟩
  have hindex : (index + 1) * regionSize ≤ addressSize := by
    rw [Nat.add_mul, Nat.one_mul]; exact hbase.2
  have hlt : ∀ j ∈ mask.members, j < regionPages := fun j hj => by
    rw [RegionBits.mem_members] at hj
    exact mask.get_lt hj
  unfold updatePagesOneAtATime
  refine foldlM_single_acceptAll hindex hm mask.nodup_members hlt fun j hj => ?_
  have hdiv : (index * regionPages + j) / regionPages = index := by
    rw [Nat.mul_comm, Nat.mul_add_div (by decide), Nat.div_eq_of_lt (hlt j hj), Nat.add_zero]
  have hmod : (index * regionPages + j) % regionPages = j := by
    rw [Nat.mul_comm, Nat.mul_add_mod, Nat.mod_eq_of_lt (hlt j hj)]
  obtain ⟨n, hn⟩ := hup.selected (index * regionPages + j)
    ⟨by rw [hdiv, Nat.mul_div_cancel _ (by decide)],
      by rw [hmod]; exact RegionBits.mem_members.1 hj⟩
  exact ⟨n, _, hn⟩

end AcceptAll

/-! ### The two updates agree -/

/-- Two updates of the same pages leave the same counters. -/
theorem Update.page_unique {track isRead : Bool} {sel span span' : Set ℕ} {m m₁ m₂ : Manager}
    (h : Update track isRead sel span m m₁) (h' : Update track isRead sel span' m m₂) (q : ℕ) :
    m₁.page q = m₂.page q := by
  by_cases hq : q ∈ sel
  · obtain ⟨n, hn⟩ := h.selected q hq
    obtain ⟨n', hn'⟩ := h'.selected q hq
    rw [hn, Except.ok.injEq, Prod.mk.injEq] at hn'
    exact hn'.2
  · rw [h.others q hq, h'.others q hq]

/-- Two coherent managers with the same counters have applied the same protection
to every page both have protected. -/
theorem Coherent.host_unique {m₁ m₂ : Manager} (h₁ : Coherent m₁) (h₂ : Coherent m₂) {q : ℕ}
    (hpage : m₁.page q = m₂.page q) (hq₁ : m₁.host q ≠ none) (hq₂ : m₂.host q ≠ none) :
    m₁.host q = m₂.host q := by
  rw [(h₁ q).eq_some hq₁, (h₂ q).eq_some hq₂, hpage]

/-- A page watched before an update or by it has been protected afterwards. -/
theorem Update.protected_of_watched {track isRead : Bool} {sel span : Set ℕ}
    {m m' : Manager} (h : Update track isRead sel span m m') {q : ℕ}
    (hq : m.host q ≠ none ∨ track = true ∧ q ∈ sel) : m'.host q ≠ none := by
  rcases hq with hold | ⟨rfl, hsel⟩
  · exact h.keeps q hold
  · exact h.protected_of_track hsel

/-- A page that an update protects, and no host request outside its pages, has
been protected by any other update of the same pages. -/
theorem Update.protected_of_protected {track isRead : Bool} {sel span : Set ℕ}
    {m m₁ m₂ : Manager} (hm : Coherent m) (h : Update track isRead sel span m m₁)
    (h' : Update track isRead sel sel m m₂) {q : ℕ} (hq : m₂.host q ≠ none) :
    m₁.host q ≠ none := by
  by_cases hold : m.host q = none
  · -- an untouched page gets its protection from the update, so it is one of its pages
    have hsel : q ∈ sel := by
      by_contra hout
      exact hq (by rw [h'.frame q hout, hold])
    obtain ⟨n, hn⟩ := h.selected q hsel
    cases track with
    | true => exact h.protected_of_track hsel
    | false => exact absurd ((hm q).2 hold) (PageState.addDelta_untrack_ne_empty hn)
  · exact h.keeps q hold

/-- **The masked path against single pages.** The two leave the same counters;
they leave the same protection on a page watched before the call or by it; and a
page on which they differ was left alone by the single calls and made `readWrite`
by the masked one. -/
theorem masked_agrees {accepts accepts' : ℕ → ℕ → Protection → Bool} {track isRead : Bool}
    {m m₁ m₂ : Manager} {baseAddr : ℕ} {mask : RegionBits} (hm : Coherent m)
    (h₁ : updatePageWatchersForRegion accepts track isRead m baseAddr mask = .ok m₁)
    (h₂ : updatePagesOneAtATime accepts' track isRead m baseAddr mask = .ok m₂) (q : ℕ) :
    m₁.page q = m₂.page q ∧
      (m.host q ≠ none ∨ track = true ∧ q ∈ maskPages baseAddr mask → m₁.host q = m₂.host q) ∧
      (m₁.host q ≠ m₂.host q → m₁.host q = some .readWrite ∧ m₂.host q = none) := by
  obtain ⟨span, -, -, hup₁⟩ := updatePageWatchersForRegion_ok hm h₁
  have hup₂ := updatePagesOneAtATime_ok hm h₂
  have hpage := hup₁.page_unique hup₂ q
  refine ⟨hpage, fun hq => ?_, fun hne => ?_⟩
  · exact hup₁.coherent.host_unique hup₂.coherent hpage
      (hup₁.protected_of_watched hq) (hup₂.protected_of_watched hq)
  · by_cases hnone : m₂.host q = none
    · have hq₁ : m₁.host q ≠ none := fun h => hne (h.trans hnone.symm)
      have hempty : m₁.page q = .empty := hpage.trans ((hup₂.coherent q).2 hnone)
      rw [(hup₁.coherent q).eq_some hq₁, hempty]
      exact ⟨rfl, hnone⟩
    · have hq₁ := hup₁.protected_of_protected hm hup₂ hnone
      exact absurd (hup₁.coherent.host_unique hup₂.coherent hpage hq₁ hnone) hne

/-! ### Protection mirrors the watchers -/

/-- **Page protection mirrors the watchers.** After every run, the protection
last applied to a page that was ever watched is the one its counters ask for; and
a call with a mask, wherever it is made, leaves the counters that one call for
each of its pages leaves, and their protection on every page ever watched. On any
other page the masked call may only have applied `readWrite`, and calls page by
page nothing. -/
theorem protection_mirrors_watchers {calls : List Call} {m : Manager}
    (h : Run step .initial calls m) :
    (∀ q, EverWatched calls q → m.host q = some (m.page q).perms) ∧
    ∀ accepts track isRead baseAddr mask m₁,
      updatePageWatchersForRegion accepts track isRead m baseAddr mask = .ok m₁ →
      (∃ m₂, updatePagesOneAtATime acceptAll track isRead m baseAddr mask = .ok m₂) ∧
      ∀ accepts' m₂, updatePagesOneAtATime accepts' track isRead m baseAddr mask = .ok m₂ →
        ∀ q, m₁.page q = m₂.page q ∧
          (EverWatched (calls ++ [.updatePageWatchersForRegion track isRead baseAddr mask]) q →
            m₁.host q = m₂.host q) ∧
          (m₁.host q ≠ m₂.host q → m₁.host q = some .readWrite ∧ m₂.host q = none) := by
  obtain ⟨hm, hwatched⟩ := run_watched h
  refine ⟨fun q hq => (hm q).eq_some (hwatched q hq), ?_⟩
  intro accepts track isRead baseAddr mask m₁ h₁
  refine ⟨updatePagesOneAtATime_acceptAll hm h₁, fun accepts' m₂ h₂ q => ?_⟩
  obtain ⟨hpage, hsame, hdiff⟩ := masked_agrees hm h₁ h₂ q
  refine ⟨hpage, fun ⟨c, hc, htrack, hq⟩ => hsame ?_, hdiff⟩
  rcases List.mem_append.1 hc with hold | hnew
  · exact .inl (hwatched q ⟨c, hold, htrack, hq⟩)
  · rw [List.mem_singleton] at hnew
    subst hnew
    exact .inr ⟨htrack, hq⟩

/-- The mask with bits 0 and 2. -/
def gapMask : RegionBits := fun j => j.val == 0 || j.val == 2

/-- What a successful evaluation says about its result. -/
theorem exists_of_eval {α ε : Type*} {x : Except ε α} {p : α → Bool}
    (h : (match x with | .ok a => p a | .error _ => false) = true) :
    ∃ a, x = .ok a ∧ p a = true := by
  cases x with
  | error e => cases h
  | ok a => exact ⟨a, rfl, h⟩

/-- Tracking the gap mask and untracking it again, evaluated. -/
theorem gapMask_eval : ∃ m, updatePageWatchersForRegion acceptAll true false .initial regionSize
      gapMask = .ok m ∧ m.host 1025 = none ∧ m.host 1024 = some .readOnly ∧
    ∃ m₁, updatePageWatchersForRegion acceptAll false false m regionSize gapMask = .ok m₁ ∧
      m₁.host 1025 = some .readWrite := by
  obtain ⟨⟨m, m₁⟩, hrun, hp⟩ := exists_of_eval
    (x := do
      let m ← updatePageWatchersForRegion acceptAll true false .initial regionSize gapMask
      let m₁ ← updatePageWatchersForRegion acceptAll false false m regionSize gapMask
      return (m, m₁))
    (p := fun r => r.1.host 1025 == none && r.1.host 1024 == some .readOnly &&
      r.2.host 1025 == some .readWrite) (by decide +kernel)
  obtain ⟨_, hm, hrun⟩ := bind_ok.1 hrun
  obtain ⟨_, hm₁, hrun⟩ := bind_ok.1 hrun
  rw [pure_ok, Prod.mk.injEq] at hrun
  obtain ⟨rfl, rfl⟩ := hrun
  simp only [Bool.and_eq_true, beq_iff_eq] at hp
  exact ⟨_, hm, hp.1.1, hp.1.2, _, hm₁, hp.2⟩

/-- The masked path does more than the single calls: untracking two pages with an
unwatched page between them also protects that page. -/
theorem masked_protects_gap : ∃ m m₁ m₂,
    Run step .initial [.updatePageWatchersForRegion true false regionSize gapMask] m ∧
    updatePageWatchersForRegion acceptAll false false m regionSize gapMask = .ok m₁ ∧
    updatePagesOneAtATime acceptAll false false m regionSize gapMask = .ok m₂ ∧
    m₁.host 1025 = some .readWrite ∧ m₂.host 1025 = none := by
  obtain ⟨m, hm, hnone, -, m₁, hm₁, hgap⟩ := gapMask_eval
  have hrun : Run step .initial [.updatePageWatchersForRegion true false regionSize gapMask] m :=
    Run.single ⟨acceptAll, hm⟩
  obtain ⟨m₂, hm₂⟩ := updatePagesOneAtATime_acceptAll (run_coherent hrun) hm₁
  refine ⟨m, m₁, m₂, hrun, hm₁, hm₂, hgap, ?_⟩
  rw [(updatePagesOneAtATime_ok (run_coherent hrun) hm₂).frame 1025, hnone]
  rintro ⟨-, hbit⟩
  exact absurd hbit (by decide +kernel)

/-- The theorem at the run that tracks the gap mask: page 1024 was watched, and is
read-only. -/
theorem protection_mirrors_watchers_gap : ∃ m,
    Run step .initial [.updatePageWatchersForRegion true false regionSize gapMask] m ∧
    m.host 1024 = some (m.page 1024).perms := by
  obtain ⟨m, hm, -⟩ := gapMask_eval
  have hrun : Run step .initial [.updatePageWatchersForRegion true false regionSize gapMask] m :=
    Run.single ⟨acceptAll, hm⟩
  refine ⟨m, hrun, (protection_mirrors_watchers hrun).1 1024 ⟨_, List.mem_singleton_self _, rfl, ?_⟩⟩
  exact ⟨by decide, by decide +kernel⟩

end Prosperismo.PageManager
