import Prosperismo.MemoryTracker.Exact

/-!
# The tracker keeps exact watchers

The invariant of the tracker is `System.Exact`: in every region no page is dirty on both
sides and the shadow sets agree with the dirty sets, and the page manager holds, besides
the watchers of other clients, one write watcher for each page that is not CPU-dirty and
one read watcher for each GPU-dirty page.

`iterateFrom_safe` carries the step of a region over the regions of a range,
`Op.exec_safe` over an operation with its callbacks, and `tracking_exact` over all runs.
-/

namespace Prosperismo.MemoryTracker

open PageManager

/-! ### The invariant -/

open Classical in
/-- The watchers that a call adds to a page, or takes away from it. -/
noncomputable def callWatchers (isRead : Bool) (q : ℕ) (call : Call) : ℤ :=
  if isRead = call.isRead ∧ q ∈ call.pages then callDelta call.track else 0

/-- The watchers that calls leave on a page. -/
noncomputable def othersHold (calls : List Call) (isRead : Bool) (q : ℕ) : ℤ :=
  (calls.map (callWatchers isRead q)).sum

/-- The watchers that the tracker should hold on a page: none where it has no region. -/
def System.holds (s : System) (isRead : Bool) (q : ℕ) : ℤ :=
  match s.regions (q / regionPages) with
  | some region => region.held isRead (q % regionPages)
  | none => 0

/-- **The invariant.** -/
structure System.Exact (s : System) : Prop where
  /-- The page manager's own invariant. -/
  coherent : Coherent s.manager
  regions : ∀ index region, s.regions index = some region → region.Exact index
  /-- Every watcher is another client's or one that the tracker should hold. -/
  watchers : ∀ isRead q,
    ((s.manager.page q).count isRead : ℤ) = othersHold s.others isRead q + s.holds isRead q

/-- The watchers of the other clients leave room for one more on every page. -/
def System.Room (s : System) : Prop :=
  ∀ isRead q, 0 ≤ othersHold s.others isRead q ∧ othersHold s.others isRead q ≤ othersLimit isRead

theorem System.initial_exact : System.initial.Exact where
  coherent := Coherent.initial
  regions := fun index region h => by cases h
  watchers := fun isRead q => by
    simp [System.initial, System.holds, othersHold, Manager.page, Manager.initial]

variable {s s' : System}

/-- The region at an index: one that exists, or one that is created. -/
theorem regionAt_exact (hs : s.Exact) {create : Bool} {index : ℕ} {region : RegionManager}
    (h : regionAt create s index = .ok (some region)) :
    region.Exact index ∧ ∀ isRead q, q / regionPages = index →
      s.holds isRead q = region.held isRead (q % regionPages) := by
  unfold regionAt at h
  split at h
  · next region' hregion =>
    cases h
    exact ⟨hs.regions index region hregion, fun isRead q hq => by simp [System.holds, hq, hregion]⟩
  · next hnone =>
    split at h
    · cases hcreate : RegionManager.create (index * regionSize) with
      | error fault =>
        rw [hcreate] at h
        cases h
      | ok created =>
        rw [hcreate] at h
        cases h
        obtain ⟨hexact, hheld⟩ := create_exact hcreate
        refine ⟨hexact, fun isRead q hq => ?_⟩
        rw [hheld isRead _ (Nat.mod_lt q (by decide))]
        simp [System.holds, hq, hnone]
    · cases h

/-- The room that the other clients leave is room for a region. -/
theorem System.Room.region (hroom : s.Room) (hs : s.Exact) {index : ℕ} {region : RegionManager}
    (hholds : ∀ isRead q, q / regionPages = index →
      s.holds isRead q = region.held isRead (q % regionPages)) :
    RoomIn index s.manager region := by
  intro isRead q hq
  obtain ⟨hlow, hhigh⟩ := hroom isRead q
  rw [hs.watchers isRead q, hholds isRead q hq]
  omega

/-- A step of one region is a step of the tracker. -/
theorem System.Exact.store (hs : s.Exact) {index : ℕ} {region region' : RegionManager}
    {m' : Manager}
    (hholds : ∀ isRead q, q / regionPages = index →
      s.holds isRead q = region.held isRead (q % regionPages))
    (hstep : RegionStep index s.manager region m' region') :
    System.Exact { s with
      manager := m'
      regions := Function.update s.regions index (some region') } := by
  refine ⟨hstep.coherent, fun i r hr => ?_, fun isRead q => ?_⟩
  · dsimp only at hr
    by_cases hi : i = index
    · subst hi
      rw [Function.update_self] at hr
      cases hr
      exact hstep.exact
    · rw [Function.update_of_ne hi] at hr
      exact hs.regions i r hr
  · have hcount := hstep.counts isRead q
    have hold := hs.watchers isRead q
    by_cases hq : q / regionPages = index
    · have hnew : System.holds { s with
          manager := m'
          regions := Function.update s.regions index (some region') } isRead q =
          region'.held isRead (q % regionPages) := by
        simp [System.holds, hq]
      rw [if_pos hq] at hcount
      rw [hnew, hcount, hold, hholds isRead q hq]
      ring
    · have hnew : System.holds { s with
          manager := m'
          regions := Function.update s.regions index (some region') } isRead q =
          s.holds isRead q := by
        simp [System.holds, Function.update_of_ne hq]
      rw [if_neg hq, add_zero] at hcount
      rw [hnew, hcount, hold]

/-! ### Safe computations -/

section Safe

universe u

variable {α β : Type u} {own : Prop}

/-- A computation from `s` ends in an exact state. When it is the tracker's `own`, other
clients do nothing meanwhile, and no counter stops it if they leave room. -/
structure Safe (own : Prop) (s : System) (x : Except Fault α) (state : α → System) : Prop where
  ok : ∀ a, x = .ok a → (state a).Exact ∧ (own → (state a).others = s.others)
  fault : own → s.Room → ∀ fault, x = .error (.pageManager fault) → ¬ fault.IsWatcher

theorem Safe.mono {own' : Prop} {x : Except Fault α} {state : α → System}
    (h : Safe own s x state) (hown : own' → own) : Safe own' s x state :=
  ⟨fun a ha => ⟨(h.ok a ha).1, fun ho => (h.ok a ha).2 (hown ho)⟩, fun ho => h.fault (hown ho)⟩

/-- **The rule for `do`.** -/
theorem Safe.bind {x : Except Fault α} {f : α → Except Fault β} {state : α → System}
    {state' : β → System} (hx : Safe own s x state)
    (hf : ∀ a, x = .ok a → (state a).Exact → Safe own (state a) (f a) state') :
    Safe own s (x >>= f) state' := by
  refine ⟨fun b hb => ?_, fun hown hroom fault hfault => ?_⟩
  · obtain ⟨a, ha, hb⟩ := bind_ok.1 hb
    obtain ⟨hexact, hothers⟩ := hx.ok a ha
    obtain ⟨hexact', hothers'⟩ := (hf a ha hexact).ok b hb
    exact ⟨hexact', fun hown => (hothers' hown).trans (hothers hown)⟩
  · rcases bind_error.1 hfault with hxe | ⟨a, ha, hfe⟩
    · exact hx.fault hown hroom fault hxe
    · obtain ⟨hexact, hothers⟩ := hx.ok a ha
      have hroom' : (state a).Room := by
        unfold System.Room
        rw [hothers hown]
        exact hroom
      exact (hf a ha hexact).fault hown hroom' fault hfe

/-- A result that is already there. -/
theorem Safe.pure {a : α} {state : α → System} (hexact : (state a).Exact)
    (hothers : (state a).others = s.others) : Safe own s (.ok a) state :=
  ⟨fun b hb => Except.ok.inj hb ▸ ⟨hexact, fun _ => hothers⟩, fun _ _ _ h => by cases h⟩

/-- A check that other faults than the page manager's may fail. -/
theorem Safe.check {x : Except Fault α} (hs : s.Exact)
    (hx : ∀ fault, x ≠ .error (.pageManager fault)) : Safe own s x fun _ => s :=
  ⟨fun _ _ => ⟨hs, fun _ => rfl⟩, fun _ _ fault h => absurd h (hx fault)⟩

theorem Safe.throw {state : α → System} {fault : Fault}
    (h : ∀ pageFault, fault ≠ .pageManager pageFault) : Safe own s (.error fault) state :=
  ⟨fun _ ha => (by cases ha), fun _ _ pageFault hf => absurd (Except.error.inj hf) (h pageFault)⟩

/-- The state at the end may be read off another way. -/
theorem Safe.map {x : Except Fault α} {state : α → System} {g : α → β} {state' : β → System}
    (h : Safe own s x state) (hg : ∀ a, state' (g a) = state a) : Safe own s (x.map g) state' := by
  refine ⟨fun b hb => ?_, fun hown hroom fault hfault => ?_⟩
  · cases hx : x with
    | error e =>
      rw [hx] at hb
      cases hb
    | ok a =>
      rw [hx] at hb
      cases hb
      rw [hg]
      exact h.ok a hx
  · cases hx : x with
    | error e =>
      rw [hx] at hfault
      cases hfault
      exact h.fault hown hroom fault hx
    | ok a =>
      rw [hx] at hfault
      cases hfault

/-- The upload flag is not part of the invariant. -/
theorem System.Exact.setUploading (hs : s.Exact) (uploading : Bool) :
    System.Exact { s with uploading := uploading } := ⟨hs.coherent, hs.regions, hs.watchers⟩

theorem checkNotInUploadCallback_safe (hs : s.Exact) :
    Safe own s (checkNotInUploadCallback s) fun _ => s := by
  refine Safe.check hs fun fault => ?_
  unfold checkNotInUploadCallback
  split <;> simp

theorem validateRange_safe (hs : s.Exact) (vaddr size : ℕ) :
    Safe own s (validateRange vaddr size) fun _ => s := by
  refine Safe.check hs fun fault => ?_
  unfold validateRange
  split <;> simp

/-! ### The regions of a range -/

variable {accepts : ℕ → ℕ → Protection → Bool}
  {func : Manager → RegionManager → ℕ → ℕ → Except Fault Visited}

/-- One iteration. -/
theorem visit_safe (hfunc : Visits func) (hs : s.Exact) {create : Bool} {index : ℕ}
    {region : RegionManager} (hregion : regionAt create s index = .ok (some region))
    (offset bytes : ℕ) :
    Safe own s (func s.manager region offset bytes) fun visited =>
      { s with
        manager := visited.manager
        regions := Function.update s.regions index (some visited.region) } := by
  obtain ⟨hexact, hholds⟩ := regionAt_exact hs hregion
  refine ⟨fun visited hvisited => ⟨?_, fun _ => rfl⟩, fun _ hroom fault hfault => ?_⟩
  · exact hs.store hholds (hfunc.step hs.coherent hexact hvisited)
  · exact hfunc.fault hs.coherent hexact (hroom.region hs hholds) hfault

/-- **The loop of Iterate.** -/
theorem iterateFrom_safe (hfunc : Visits func) (create : Bool) (hs : s.Exact)
    (vaddr remaining : ℕ) :
    Safe own s (iterateFrom create func s vaddr remaining) (·.1) := by
  fun_induction iterateFrom create func s vaddr remaining with
  | case1 s vaddr => exact Safe.pure hs rfl
  | case2 s vaddr remaining hne index offset bytes ihNone ihSome =>
    have hregion : Safe own s (regionAt create s index) fun _ => s := by
      refine Safe.check hs fun fault => ?_
      unfold regionAt RegionManager.create
      split
      · simp
      · split
        · split <;> simp [Except.map]
        · simp
    refine hregion.bind fun found hfound _ => ?_
    cases found with
    | none => exact ihNone hs
    | some region =>
      refine (visit_safe hfunc hs hfound offset bytes).bind fun visited _ hexact => ?_
      dsimp only
      split
      · exact Safe.pure hexact rfl
      · refine (ihSome visited hexact).bind fun result _ hresult => ?_
        exact Safe.pure hresult rfl

theorem iterate_safe (hfunc : Visits func) (create : Bool) (hs : s.Exact) (vaddr size : ℕ) :
    Safe own s (iterate create func s vaddr size) (·.1) :=
  (validateRange_safe hs vaddr size).bind fun _ _ hs => iterateFrom_safe hfunc create hs vaddr size

/-! ### Operations -/

/-- Marking, unmarking and reporting: one pass over the range. -/
theorem pass_safe (hfunc : Visits func) (create : Bool) (hs : s.Exact) (vaddr size : ℕ) :
    Safe own s (do
      checkNotInUploadCallback s
      let (s, _) ← iterate create func s vaddr size
      return s) id :=
  (checkNotInUploadCallback_safe hs).bind fun _ _ hs =>
    (iterate_safe hfunc create hs vaddr size).bind fun _ _ hresult => Safe.pure hresult rfl

/-- The two queries. -/
theorem query_safe (source : DirtySource) (create : Bool) (hs : s.Exact) (vaddr size : ℕ) :
    Safe own s (do
      checkNotInUploadCallback s
      let (s, _, modified) ← iterate create (visitModified source) s vaddr size
      return (s, modified)) (·.1) :=
  (checkNotInUploadCallback_safe hs).bind fun _ _ hs =>
    (iterate_safe (visitModified_visits source) create hs vaddr size).bind
      fun _ _ hresult => Safe.pure hresult rfl

theorem untrackMemory_safe (hs : s.Exact) (vaddr size : ℕ) :
    Safe own s (untrackMemory accepts s vaddr size) id := by
  refine (checkNotInUploadCallback_safe hs).bind fun _ _ hs => ?_
  refine (iterate_safe (visitModified_visits .gpu) false hs vaddr size).bind fun result _ hr => ?_
  obtain ⟨s₁, ranges, modified⟩ := result
  cases modified with
  | true => exact Safe.throw (by simp)
  | false =>
    exact (iterate_safe (visitChange_visits .cpu true) false hr vaddr size).bind
      fun _ _ hresult => Safe.pure hresult rfl

theorem updateCpuState_safe (hs : s.Exact) (vaddr size : ℕ) :
    Safe own s (updateCpuState accepts s vaddr size) (·.1) := by
  refine (iterate_safe (visitModified_visits .gpu) false hs vaddr size).bind fun result _ hr => ?_
  obtain ⟨s₁, ranges, modified⟩ := result
  cases modified with
  | true => exact Safe.pure hr rfl
  | false =>
    exact (iterate_safe (visitChange_visits .cpu true) false hr vaddr size).bind
      fun _ _ hresult => Safe.pure hresult rfl

theorem invalidateRegion_safe {onFlush : System → Except Fault System}
    (hflush : ∀ {s : System}, s.Exact → Safe own s (onFlush s) id) (hs : s.Exact)
    (vaddr size : ℕ) : Safe own s (invalidateRegion accepts onFlush s vaddr size) id := by
  refine (checkNotInUploadCallback_safe hs).bind fun _ _ hs => ?_
  refine (validateRange_safe hs vaddr size).bind fun _ _ hs => ?_
  refine (updateCpuState_safe hs vaddr size).bind fun first _ hfirst => ?_
  obtain ⟨s₁, modified⟩ := first
  cases modified with
  | false => exact Safe.pure hfirst rfl
  | true =>
    refine (hflush hfirst).bind fun s₂ _ hflushed => ?_
    refine (updateCpuState_safe hflushed vaddr size).bind fun second _ hsecond => ?_
    obtain ⟨s₃, retained⟩ := second
    cases retained with
    | true => exact Safe.throw (by simp)
    | false => exact Safe.pure hsecond rfl

theorem forEachDownloadRange_safe (clear : Bool) (hs : s.Exact) (vaddr size : ℕ) :
    Safe own s (forEachDownloadRange accepts clear s vaddr size) (·.1) := by
  refine (checkNotInUploadCallback_safe hs).bind fun _ _ hs => ?_
  refine (iterate_safe (visitRanges_visits .gpu false) false hs vaddr size).bind
    fun preflight _ hpreflight => ?_
  refine (iterate_safe (visitRanges_visits .gpu false) false hpreflight vaddr size).bind
    fun reported _ hreported => ?_
  obtain ⟨s₁, ranges, stopped⟩ := reported
  cases clear with
  | false => exact Safe.pure hreported rfl
  | true =>
    exact (iterate_safe (visitRanges_visits .gpu true) false hreported vaddr size).bind
      fun _ _ hresult => Safe.pure hresult rfl

theorem forEachUploadRange_safe {uploadFunc : System → Except Fault System}
    (hupload : ∀ {s : System}, s.Exact → Safe own s (uploadFunc s) id) (hs : s.Exact)
    (vaddr size : ℕ) (isWritten : Bool) :
    Safe own s (forEachUploadRange accepts uploadFunc s vaddr size isWritten) (·.1) := by
  refine (checkNotInUploadCallback_safe hs).bind fun _ _ hs => ?_
  refine (iterate_safe visitNothing_visits true hs vaddr size).bind fun created _ hcreated => ?_
  have hcleared : Safe own created.1 (iterate false (visitRanges accepts .cpu true)
      { created.1 with uploading := true } vaddr size) (·.1) := by
    have h : Safe own { created.1 with uploading := true } (iterate false
        (visitRanges accepts .cpu true) { created.1 with uploading := true } vaddr size) (·.1) :=
      iterate_safe (visitRanges_visits .cpu true) false (hcreated.setUploading true) vaddr size
    exact ⟨h.ok, h.fault⟩
  refine hcleared.bind fun cleared _ hc => ?_
  obtain ⟨s₁, ranges, stopped⟩ := cleared
  refine (hupload hc).bind fun s₂ _ huploaded => ?_
  cases isWritten with
  | false => exact Safe.pure (huploaded.setUploading false) rfl
  | true =>
    exact (iterate_safe (visitChange_visits .gpu true) false huploaded vaddr size).bind
      fun _ _ hresult => Safe.pure (hresult.setUploading false) rfl

/-- A call of another client. -/
theorem otherClient_safe {call : Call} (hs : s.Exact) :
    Safe False s (do
      let manager ← (call.exec accepts s.manager).mapError Fault.pageManager
      return { s with manager := manager, others := s.others ++ [call] }) id := by
  refine ⟨fun s' hs' => ⟨?_, False.elim⟩, False.elim⟩
  obtain ⟨manager, hcall, heq⟩ := bind_ok.1 hs'
  rw [pure_ok] at heq
  subst heq
  obtain ⟨span, -, hup⟩ := Call.exec_ok hs.coherent (mapError_ok.1 hcall)
  refine ⟨hup.coherent, hs.regions, fun isRead q => ?_⟩
  have hold := hs.watchers isRead q
  have hcount := hup.count isRead q
  have hothers : othersHold (s.others ++ [call]) isRead q =
      othersHold s.others isRead q + callWatchers isRead q call := by
    simp [othersHold]
  change ((manager.page q).count isRead : ℤ) = othersHold (s.others ++ [call]) isRead q +
    s.holds isRead q
  rw [hcount, hold, hothers, callWatchers]
  ring

end Safe

mutual

/-- The operation and its callbacks make no call on behalf of other clients. -/
def Op.Own : Op → Prop
  | .invalidateRegion _ _ onFlush => AllOwn onFlush
  | .forEachUploadRange _ _ _ uploadFunc => AllOwn uploadFunc
  | .otherClient _ => False
  | _ => True

def AllOwn : List Op → Prop
  | [] => True
  | op :: ops => op.Own ∧ AllOwn ops

end

variable {accepts : ℕ → ℕ → Protection → Bool}

mutual

/-- **The step lemma.** An operation keeps the invariant. -/
theorem Op.exec_safe : ∀ (op : Op) {s : System}, s.Exact → Safe op.Own s (op.exec accepts s) id
  | .isRegionCpuModified vaddr size, _, hs => (query_safe .cpu true hs vaddr size).map fun _ => rfl
  | .isRegionGpuModified vaddr size, _, hs => (query_safe .gpu false hs vaddr size).map fun _ => rfl
  | .markRegionAsCpuModified vaddr size, _, hs =>
    pass_safe (visitChange_visits .cpu true) true hs vaddr size
  | .markRegionAsGpuModified vaddr size, _, hs =>
    pass_safe (visitChange_visits .gpu true) true hs vaddr size
  | .unmarkRegionAsGpuModified vaddr size, _, hs =>
    pass_safe (visitChange_visits .gpu false) false hs vaddr size
  | .untrackMemory vaddr size, _, hs => untrackMemory_safe hs vaddr size
  | .invalidateRegion vaddr size onFlush, _, hs =>
    invalidateRegion_safe (fun hs => execAll_safe onFlush hs) hs vaddr size
  | .forEachDownloadRange clear vaddr size, _, hs =>
    (forEachDownloadRange_safe clear hs vaddr size).map fun _ => rfl
  | .forEachUploadRange vaddr size isWritten uploadFunc, _, hs =>
    (forEachUploadRange_safe (fun hs => execAll_safe uploadFunc hs) hs vaddr size isWritten).map
      fun _ => rfl
  | .otherClient _, _, hs => otherClient_safe hs

/-- **The run lemma.** -/
theorem execAll_safe : ∀ (ops : List Op) {s : System}, s.Exact →
    Safe (AllOwn ops) s (execAll accepts ops s) id
  | [], _, hs => Safe.pure hs rfl
  | op :: ops, _, hs =>
    ((Op.exec_safe op hs).mono And.left).bind fun _ _ hs => (execAll_safe ops hs).mono And.right

end

/-- **Dirty tracking is exact.** After every run of operations that does not end the
process, whatever the host answers and whatever other clients ask of the page manager in
between: no page of a region is dirty on both sides, the shadow sets agree with the dirty
sets, and beyond what the other clients hold the page manager holds exactly one write
watcher on each page that is not CPU-dirty and one read watcher on each GPU-dirty page.
No operation of the tracker then runs a counter over or under, as long as the other
clients leave room for one watcher more. -/
theorem tracking_exact {ops : List Op} {s : System} (h : execAll accepts ops .initial = .ok s) :
    s.Exact ∧ ∀ (accepts' : ℕ → ℕ → Protection → Bool) (op : Op), op.Own → s.Room →
      ∀ fault, op.exec accepts' s = .error (.pageManager fault) → ¬ fault.IsWatcher := by
  obtain ⟨hexact, -⟩ := (execAll_safe ops System.initial_exact).ok s h
  exact ⟨hexact, fun accepts' op => (Op.exec_safe op hexact).fault⟩

/-! ### Faults -/

/-- The protection that the page manager applied last lets an access of the CPU pass. -/
def System.Allows (s : System) (isWrite : Bool) (q : ℕ) : Prop :=
  ∀ prot, s.manager.host q = some prot → prot = .readWrite ∨ prot = .readOnly ∧ isWrite = false

/-- What the counters of a page ask for decides what passes. -/
theorem System.Exact.allows_iff (hs : s.Exact) (isWrite : Bool) (q : ℕ) :
    s.Allows isWrite q ↔ (s.manager.page q).count true = 0 ∧
      (isWrite = true → (s.manager.page q).count false = 0) := by
  obtain ⟨hperms, hnone⟩ := hs.coherent q
  have hzero : ∀ isRead, (s.manager.page q).count isRead = 0 ↔
      (if isRead then (s.manager.page q).accessWatchers = 0
        else (s.manager.page q).writeWatchers = 0) := by
    intro isRead
    cases isRead
    · exact Fin.val_eq_zero_iff
    · exact Fin.val_eq_zero_iff
  rw [hzero, hzero]
  constructor
  · intro hallows
    cases hhost : s.manager.host q with
    | none => rw [hnone hhost]; exact ⟨rfl, fun _ => rfl⟩
    | some prot =>
      have hpass := hallows prot hhost
      rw [hperms prot hhost] at hpass
      unfold PageState.perms at hpass
      split_ifs at hpass with haccess hwrite
      · rcases hpass with h | ⟨h, -⟩ <;> cases h
      · rcases hpass with h | ⟨-, hread⟩
        · cases h
        · exact ⟨not_not.1 haccess, fun h => by rw [hread] at h; cases h⟩
      · exact ⟨not_not.1 haccess, fun _ => not_not.1 hwrite⟩
  · rintro ⟨haccess, hwrite⟩ prot hhost
    rw [hperms prot hhost]
    unfold PageState.perms
    rw [if_neg fun h : (s.manager.page q).accessWatchers ≠ 0 => h haccess]
    cases isWrite with
    | true => exact .inl (if_neg fun h => h (hwrite rfl))
    | false =>
      split_ifs
      · exact .inr ⟨rfl, rfl⟩
      · exact .inl rfl

/-- **The CPU's accesses fault where they have to.** After every run, a write to a page that is not
CPU-dirty and a read of a page that is GPU-dirty fault, as long as the other clients have taken away
no more watchers than they had added; and where no other client has a watcher, no other access
faults. -/
theorem accesses_fault {ops : List Op} {s : System} (h : execAll accepts ops .initial = .ok s)
    (hothers : ∀ isRead q, 0 ≤ othersHold s.others isRead q) {q : ℕ} {region : RegionManager}
    (hregion : s.regions (q / regionPages) = some region) :
    (region.cpuDirty.get (q % regionPages) = false → ¬ s.Allows true q) ∧
      (region.gpuDirty.get (q % regionPages) = true → ¬ s.Allows false q) ∧
      ((∀ isRead, othersHold s.others isRead q = 0) →
        (s.Allows true q ↔ region.cpuDirty.get (q % regionPages) = true) ∧
        (s.Allows false q ↔ region.gpuDirty.get (q % regionPages) = false)) := by
  have hs : s.Exact := ((execAll_safe ops System.initial_exact).ok s h).1
  have hread := hs.watchers true q
  have hwrite := hs.watchers false q
  have hreadOthers := hothers true q
  have hwriteOthers := hothers false q
  have hexclusive : ¬ (region.cpuDirty.get (q % regionPages) = true ∧
      region.gpuDirty.get (q % regionPages) = true) := by
    have hlt : q % regionPages < regionPages := Nat.mod_lt q (by decide)
    unfold RegionBits.get
    rw [dif_pos hlt, dif_pos hlt]
    exact (hs.regions _ region hregion).exclusive _
  unfold System.holds RegionManager.held at hread hwrite
  rw [hregion] at hread hwrite
  dsimp only at hread hwrite
  rw [if_pos rfl] at hread
  rw [if_neg Bool.false_ne_true] at hwrite
  rw [hs.allows_iff, hs.allows_iff]
  refine ⟨fun hcpu hpass => ?_, fun hgpu hpass => ?_, fun hnone =>
    ⟨⟨fun hpass => ?_, fun hcpu => ?_⟩, fun hpass => ?_, fun hgpu => ?_⟩⟩
  · rw [hcpu, hpass.2 rfl, if_neg Bool.false_ne_true] at hwrite
    omega
  · rw [hgpu, hpass.1, if_pos rfl] at hread
    omega
  · by_contra hcpu
    rw [if_neg hcpu, hpass.2 rfl, hnone] at hwrite
    omega
  · rw [if_neg fun hgpu => hexclusive ⟨hcpu, hgpu⟩, hnone] at hread
    rw [if_pos hcpu, hnone] at hwrite
    exact ⟨by omega, fun _ => by omega⟩
  · by_contra hgpu
    rw [if_pos (eq_true_of_ne_false hgpu), hpass.1, hnone] at hread
    omega
  · rw [hgpu, if_neg Bool.false_ne_true, hnone] at hread
    exact ⟨by omega, fun h => by cases h⟩

/-- The watchers of page 2 after a run, when the host accepts everything. -/
def watchersAfter (ops : List Op) : Option (ℕ × ℕ) :=
  match execAll (fun _ _ _ => true) ops .initial with
  | .ok s => some ((s.manager.page 2).count false, (s.manager.page 2).count true)
  | .error _ => none

theorem exec_of_watchersAfter {ops : List Op} {counts : ℕ × ℕ}
    (h : watchersAfter ops = some counts) :
    ∃ s, execAll (fun _ _ _ => true) ops .initial = .ok s ∧
      ((s.manager.page 2).count false, (s.manager.page 2).count true) = counts := by
  unfold watchersAfter at h
  split at h
  · next s hs => exact ⟨s, hs, Option.some.inj h⟩
  · cases h

/-- A page that is uploaded and written by the GPU has both watchers, and one that the CPU
takes back, through a flush that unmarks it, has none. -/
example : watchersAfter [.forEachUploadRange 8192 4096 true []] = some (1, 1) ∧
    watchersAfter [.forEachUploadRange 8192 4096 true [],
      .invalidateRegion 8192 100 [.unmarkRegionAsGpuModified 8192 4096]] = some (0, 0) := by
  decide +kernel

/-- The theorem at work on an upload that the GPU writes. -/
theorem tracking_exact_upload : ∃ s, execAll (fun _ _ _ => true)
    [.forEachUploadRange 8192 4096 true []] .initial = .ok s ∧ s.Exact ∧
      (s.manager.page 2).count true = 1 := by
  obtain ⟨s, hs, hcounts⟩ := exec_of_watchersAfter
    (show watchersAfter [.forEachUploadRange 8192 4096 true []] = some (1, 1) by decide +kernel)
  exact ⟨s, hs, (tracking_exact hs).1, congrArg Prod.snd hcounts⟩

/-- The faults of an upload that the GPU writes: reads and writes of page 2. -/
theorem accesses_fault_upload : ∃ s, execAll (fun _ _ _ => true)
    [.forEachUploadRange 8192 4096 true []] .initial = .ok s ∧ ¬ s.Allows false 2 := by
  obtain ⟨s, hs, hcounts⟩ := exec_of_watchersAfter
    (show watchersAfter [.forEachUploadRange 8192 4096 true []] = some (1, 1) by decide +kernel)
  have hothers : s.others = [] :=
    ((execAll_safe _ System.initial_exact).ok s hs).2 ⟨trivial, trivial⟩
  have hread := (tracking_exact hs).1.watchers true 2
  have hone : (s.manager.page 2).count true = 1 := congrArg Prod.snd hcounts
  rw [hone, hothers] at hread
  unfold System.holds at hread
  split at hread
  · next region hregion =>
    refine ⟨s, hs, (accesses_fault hs (fun isRead q => ?_) hregion).2.1 ?_⟩
    · rw [hothers]
      exact le_rfl
    · by_contra hgpu
      rw [RegionManager.held, if_pos rfl, if_neg hgpu] at hread
      cases hread
  · cases hread

end Prosperismo.MemoryTracker
