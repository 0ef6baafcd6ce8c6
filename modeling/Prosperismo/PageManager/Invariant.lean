import Prosperismo.Base.Run
import Prosperismo.Base.Except
import Prosperismo.PageManager.Model
import Mathlib.Tactic.Ring
import Mathlib.Data.Set.Lattice

/-!
# Host protections mirror the watcher counters

The invariant of the page manager is `Coherent`: at every page the protection
last applied is the one its counters ask for, and a page the manager never
protected has no watcher. The page loop batches its protection calls, so in the
middle of a sweep the host alone does not satisfy it; `Sweep.settled`, the host
as it will be once the pending run is released, does. `SweepInv` says so
together with the shape of the pending run: from `rangeBegin` on, every page
visited wants the mode of the run, which is why the run may be stretched over
pages that did not change.
-/

namespace Prosperismo.PageManager

/-! ### Counters -/

@[simp] theorem PageState.perms_empty : PageState.empty.perms = .readWrite := rfl

/-- Whether the new counter value marks a watcher edge. -/
def watcherEdge (track : Bool) (newCount : ℕ) : Bool :=
  (track && newCount == 1) || (!track && newCount == 0)

/-- A page wants full access exactly when nobody watches it. -/
theorem PageState.perms_eq_readWrite_iff {page : PageState} :
    page.perms = .readWrite ↔ page = .empty := by
  unfold perms
  constructor
  · intro h
    split at h
    · cases h
    · next ha =>
      split at h
      · cases h
      · next hw => exact PageState.ext (not_not.1 hw) (not_not.1 ha)
  · rintro rfl; rfl

theorem bump_ne_zero {n : ℕ} [NeZero n] (c : Fin n) (h : c.val + 1 < n) : bump c h ≠ 0 := by
  intro h0
  simpa [bump] using congrArg Fin.val h0

/-- A page that nothing is added to keeps its state. -/
theorem PageState.addDelta_zero {isRead : Bool} {address n : ℕ} {page page' : PageState}
    (h : page.addDelta 0 isRead address = .ok (n, page')) : page' = page := by
  cases isRead <;> simp [addDelta] at h <;> exact h.2.symm

/-- Tracking a page, taken apart: the counter had room and went up by one. -/
theorem PageState.addDelta_track {isRead : Bool} {address n : ℕ} {page page' : PageState}
    (h : page.addDelta 1 isRead address = .ok (n, page')) :
    (isRead = true ∧ ∃ hr, n = page.accessWatchers + 1 ∧
      page' = { page with accessWatchers := bump page.accessWatchers hr }) ∨
    (isRead = false ∧ ∃ hr, n = page.writeWatchers + 1 ∧
      page' = { page with writeWatchers := bump page.writeWatchers hr }) := by
  cases isRead with
  | true =>
    simp only [addDelta, if_true] at h
    split at h
    · next hr => cases h; exact .inl ⟨rfl, hr, rfl, rfl⟩
    · cases h
  | false =>
    simp only [addDelta, if_true, Bool.false_eq_true, if_false] at h
    split at h
    · next hr => cases h; exact .inr ⟨rfl, hr, rfl, rfl⟩
    · cases h

/-- Untracking a page, taken apart: the counter was positive and went down by one. -/
theorem PageState.addDelta_untrack {isRead : Bool} {address n : ℕ} {page page' : PageState}
    (h : page.addDelta (-1) isRead address = .ok (n, page')) :
    (isRead = true ∧ page.accessWatchers.val ≠ 0 ∧ n = page.accessWatchers - 1 ∧
      page' = { page with accessWatchers := drop page.accessWatchers }) ∨
    (isRead = false ∧ page.writeWatchers.val ≠ 0 ∧ n = page.writeWatchers - 1 ∧
      page' = { page with writeWatchers := drop page.writeWatchers }) := by
  cases isRead with
  | true =>
    simp only [addDelta, if_true, Int.reduceNeg, Int.reduceEq, if_false] at h
    split at h
    · cases h
    · next hr => cases h; exact .inl ⟨rfl, hr, rfl, rfl⟩
  | false =>
    simp only [addDelta, if_true, Int.reduceNeg, Int.reduceEq, Bool.false_eq_true, if_false] at h
    split at h
    · cases h
    · next hr => cases h; exact .inr ⟨rfl, hr, rfl, rfl⟩

/-- Tracking leaves the page watched. -/
theorem PageState.addDelta_track_ne_empty {isRead : Bool} {address n : ℕ}
    {page page' : PageState} (h : page.addDelta 1 isRead address = .ok (n, page')) :
    page' ≠ .empty := by
  rintro rfl
  obtain ⟨-, hr, -, hp⟩ | ⟨-, hr, -, hp⟩ := addDelta_track h
  · exact bump_ne_zero _ hr (congrArg PageState.accessWatchers hp).symm
  · exact bump_ne_zero _ hr (congrArg PageState.writeWatchers hp).symm

/-- Only a watched page can be untracked. -/
theorem PageState.addDelta_untrack_ne_empty {isRead : Bool} {address n : ℕ}
    {page page' : PageState} (h : page.addDelta (-1) isRead address = .ok (n, page')) :
    page ≠ .empty := by
  rintro rfl
  obtain ⟨-, hr, -⟩ | ⟨-, hr, -⟩ := addDelta_untrack h <;> exact hr rfl

/-- A counter change that changes the mode of the page is a watcher edge, so the
test `watcher_edge && old_perms != new_perms` is just `old_perms != new_perms`. -/
theorem PageState.addDelta_edge {track isRead : Bool} {address n : ℕ} {page page' : PageState}
    (h : page.addDelta (callDelta track) isRead address = .ok (n, page'))
    (hne : page.perms ≠ page'.perms) : watcherEdge track n = true := by
  cases track with
  | true =>
    obtain ⟨-, hr, rfl, -⟩ | ⟨-, hr, rfl, rfl⟩ := addDelta_track h
    · simp [watcherEdge]; omega
    · -- a write watcher changes the mode only when it is the first one
      by_contra hn
      have hw : page.writeWatchers ≠ 0 := by
        intro h0; simp [watcherEdge, h0] at hn
      exact hne (by simp [perms, hw, bump_ne_zero])
  | false =>
    obtain ⟨-, h0, rfl, -⟩ | ⟨-, h0, rfl, rfl⟩ := addDelta_untrack h
    · simp [watcherEdge]; omega
    · by_contra hn
      have hw : page.writeWatchers ≠ 0 := fun hz => h0 (by rw [hz]; rfl)
      have hd : drop page.writeWatchers ≠ 0 := by
        intro hz
        have := congrArg Fin.val hz
        simp [drop] at this
        simp [watcherEdge] at hn
        omega
      exact hne (by simp [perms, hw, hd])

/-! ### Coherence -/

/-- The protection last applied to a page is the one its counters ask for; a
page never protected has no watcher. -/
def Matches (applied : Option Protection) (page : PageState) : Prop :=
  (∀ m, applied = some m → m = page.perms) ∧ (applied = none → page = .empty)

/-- The invariant of the page manager. -/
def Coherent (m : Manager) : Prop := ∀ page, Matches (m.host page) (m.page page)

theorem Matches.some_perms (page : PageState) : Matches (some page.perms) page :=
  ⟨fun _ h => (Option.some.inj h).symm, fun h => absurd h (by simp)⟩

/-- A watched page has been protected. -/
theorem Matches.eq_some {applied : Option Protection} {page : PageState}
    (h : Matches applied page) (hne : applied ≠ none) : applied = some page.perms := by
  cases applied with
  | none => exact absurd rfl hne
  | some m => rw [h.1 m rfl]

theorem Coherent.initial : Coherent .initial :=
  fun _ => ⟨fun _ h => by simp [Manager.initial] at h, fun _ => rfl⟩

/-! ### The host -/

/-- A protection call, read page by page. -/
theorem Host.apply_pages (host : Host) (first count : ℕ) (prot : Protection) (page : ℕ) :
    host.apply (first * pageSize) (count * pageSize) prot page
      = if first ≤ page ∧ page < first + count then some prot else host page := by
  have h1 : first * pageSize ≤ page * pageSize ↔ first ≤ page :=
    Nat.mul_le_mul_right_iff (by decide)
  have h2 : page * pageSize < first * pageSize + count * pageSize ↔ page < first + count := by
    rw [← Nat.add_mul]
    exact Nat.mul_lt_mul_right (by decide)
  simp only [Host.apply, h1, h2]

/-- The host as it will be once the pending run is released. -/
def Sweep.settled (baseAddr : ℕ) (l : Sweep) : Host :=
  if l.rangeBytes ≠ 0 then
    l.host.apply (baseAddr + l.rangeBegin * pageSize) l.rangeBytes l.perms
  else l.host

section Sweep

variable {accepts : ℕ → ℕ → Protection → Bool}

/-- `release_pending` applies the pending run and leaves none. -/
theorem releasePending_ok {baseAddr : ℕ} {l l' : Sweep}
    (h : releasePending accepts baseAddr l = .ok l') :
    l'.pages = l.pages ∧ l'.perms = l.perms ∧ l'.rangeBytes = 0 ∧
      l'.host = l.settled baseAddr := by
  unfold releasePending at h
  split at h
  · next hne =>
    obtain ⟨host, hp, hl⟩ := bind_ok.1 h
    rw [pure_ok] at hl
    subst hl
    unfold protect at hp
    split at hp
    · cases hp; simp [Sweep.settled, hne]
    · cases hp
  · next h0 =>
    rw [pure_ok] at h
    subst h
    simp only [ne_eq, not_not] at h0
    simp [Sweep.settled, h0]

theorem deltaAt_eq_of_not_selects {track isRead : Bool} {mask : Option RegionBits}
    {baseAddr j n : ℕ} {page page' : PageState}
    (h : deltaAt track isRead mask baseAddr j page = .ok (n, page'))
    (hs : selects mask j = false) : page' = page := by
  simp only [deltaAt, hs, Bool.false_eq_true, if_false] at h
  exact PageState.addDelta_zero h

/-- One iteration of the page loop, taken apart: the page gets its delta, the
run follows it, and a page that changed its mode joins the run. -/
theorem visitPage_ok {track isRead : Bool} {mask : Option RegionBits} {baseAddr j : ℕ}
    {l l' : Sweep} (h : visitPage accepts track isRead mask baseAddr l j = .ok l') :
    ∃ n page', deltaAt track isRead mask baseAddr j (l.pages j) = .ok (n, page') ∧
      ∃ l₁, followRun accepts baseAddr page'.perms
          { l with pages := Function.update l.pages j page' } = .ok l₁ ∧
        l' = if (l.pages j).perms ≠ page'.perms then extendRun j l₁ else l₁ := by
  unfold visitPage at h
  obtain ⟨⟨n, page'⟩, hdelta, h⟩ := bind_ok.1 h
  obtain ⟨l₁, hrun, h⟩ := bind_ok.1 h
  refine ⟨n, page', hdelta, l₁, hrun, ?_⟩
  cases hs : selects mask j with
  | false =>
    have hp : page' = l.pages j := deltaAt_eq_of_not_selects hdelta hs
    rw [hs] at h
    simp only [Bool.not_false, if_true, pure_ok] at h
    simp [hp, h]
  | true =>
    simp only [deltaAt, hs, if_true] at hdelta
    simp only [hs, Bool.not_true, Bool.false_eq_true, if_false] at h
    by_cases hne : (l.pages j).perms = page'.perms
    · simp only [hne, bne_self_eq_false, Bool.and_false, Bool.false_eq_true, if_false,
        pure_ok] at h
      simp [hne, h]
    · have hedge := PageState.addDelta_edge hdelta hne
      have hbne : ((l.pages j).perms != page'.perms) = true := by simpa using hne
      rw [show ((track && n == 1) || (!track && n == 0)) = true from hedge, hbne] at h
      simp only [Bool.and_self, if_true, pure_ok] at h
      simp [hne, h]

/-- The shape of the pending run after the pages below `i`: it starts at a page
the sweep visited, and every page from there on wants its mode. -/
def RunOk (first i : ℕ) (l : Sweep) : Prop :=
  l.rangeBytes ≠ 0 → ∃ k, 0 < k ∧ l.rangeBytes = k * pageSize ∧ first ≤ l.rangeBegin ∧
    l.rangeBegin + k ≤ i ∧ l.potentialRangeBytes = (i - l.rangeBegin) * pageSize ∧
    ∀ j, l.rangeBegin ≤ j → j < i → (l.pages j).perms = l.perms

/-- Following the run changes neither the pages nor the settled host. -/
theorem followRun_ok {baseAddr first i : ℕ} {page' : PageState} {l l₁ : Sweep}
    (hrun : RunOk first i l)
    (h : followRun accepts baseAddr page'.perms
      { l with pages := Function.update l.pages i page' } = .ok l₁) :
    l₁.pages = Function.update l.pages i page' ∧ l₁.perms = page'.perms ∧
      l₁.settled baseAddr = l.settled baseAddr ∧ RunOk first (i + 1) l₁ := by
  unfold followRun at h
  split at h
  · -- another mode is wanted: the run is released
    obtain ⟨l₂, hrel, h⟩ := bind_ok.1 h
    rw [pure_ok] at h
    subst h
    obtain ⟨hpages, -, hbytes, hhost⟩ := releasePending_ok hrel
    refine ⟨hpages, rfl, ?_, fun hne => absurd hbytes hne⟩
    simp only [Sweep.settled, hbytes, ne_eq, not_true_eq_false, if_false]
    rw [hhost]
    rfl
  · next hsame =>
    simp only [ne_eq, not_not] at hsame
    split at h
    · next hne =>
      -- the page agrees with the run, which may later be stretched over it
      rw [pure_ok] at h
      subst h
      refine ⟨rfl, hsame.symm, rfl, fun _ => ?_⟩
      obtain ⟨k, hk, hbytes, hfirst, hle, hpot, hperms⟩ := hrun hne
      refine ⟨k, hk, hbytes, hfirst, by simp only; omega, ?_, fun j hj hji => ?_⟩
      · simp only [hpot, ← Nat.succ_mul]
        congr 1
        omega
      · by_cases hj' : j = i
        · subst hj'; simp [hsame]
        · simp only [Function.update_of_ne hj']
          exact hperms j hj (by omega)
    · next h0 =>
      rw [pure_ok] at h
      subst h
      refine ⟨rfl, hsame.symm, rfl, fun hne => absurd hne h0⟩

/-- Extending the run to the page just visited settles exactly the pages from
its beginning to that page, all of which want the mode of the run. -/
theorem extendRun_ok (index : ℕ) {first i : ℕ} {l : Sweep} (hfi : first ≤ i)
    (hrun : RunOk first (i + 1) l) (hperms : (l.pages i).perms = l.perms) :
    RunOk first (i + 1) (extendRun i l) ∧
      ∃ b, first ≤ b ∧ b ≤ i ∧ (∀ j, b ≤ j → j < i + 1 → (l.pages j).perms = l.perms) ∧
        ∀ q, (extendRun i l).settled (index * regionSize) q =
          if index * regionPages + b ≤ q ∧ q < index * regionPages + (i + 1) then some l.perms
          else l.settled (index * regionSize) q := by
  have haddr : ∀ b, index * regionSize + b * pageSize = (index * regionPages + b) * pageSize := by
    intro b; simp only [regionSize, regionPages, pageSize]; ring
  have hpos : 0 < pageSize := by decide
  by_cases h0 : l.rangeBytes = 0
  · -- the run starts here
    have hext : extendRun i l = { l with rangeBegin := i, potentialRangeBytes := pageSize,
                                         rangeBytes := pageSize } := by
      simp [extendRun, h0]
    refine ⟨fun _ => ⟨1, by decide, by simp [hext], by simp [hext, hfi], by simp [hext], ?_, ?_⟩,
      i, hfi, le_rfl, ?_, fun q => ?_⟩
    · simp [hext]
    · intro j hj hji
      simp only [hext] at hj ⊢
      rw [show j = i by omega, hperms]
    · intro j hj hji; rw [show j = i by omega, hperms]
    · simp only [hext, Sweep.settled, h0, hpos.ne', ne_eq, not_false_eq_true, if_true,
        not_true_eq_false, if_false]
      rw [haddr, show pageSize = 1 * pageSize by rw [one_mul], ← Nat.mul_assoc,
        Nat.mul_one, Host.apply_pages]
      simp only [Nat.add_assoc]
  · -- the pending run reaches this page
    obtain ⟨k, hk, hbytes, hfirst, hle, hpot, hall⟩ := hrun h0
    have hext : extendRun i l = { l with rangeBytes := l.potentialRangeBytes } := by
      simp [extendRun, h0]
    have hpotne : l.potentialRangeBytes ≠ 0 := by
      rw [hpot]; exact Nat.mul_ne_zero (by omega) hpos.ne'
    refine ⟨fun _ => ⟨i + 1 - l.rangeBegin, by omega, ?_, ?_, ?_, ?_, ?_⟩,
      l.rangeBegin, hfirst, by omega, hall, fun q => ?_⟩
    · simp [hext, hpot]
    · simpa [hext] using hfirst
    · simp only [hext]; omega
    · simp [hext, hpot]
    · simpa [hext] using hall
    · simp only [hext, Sweep.settled, hpotne, h0, ne_eq, not_false_eq_true, if_true]
      rw [hpot, haddr, Host.apply_pages, hbytes, Host.apply_pages]
      by_cases hq : index * regionPages + l.rangeBegin ≤ q ∧
          q < index * regionPages + (i + 1)
      · rw [if_pos hq, if_pos ⟨hq.1, by omega⟩]
      · rw [if_neg hq, if_neg (by omega), if_neg (by omega)]

/-- The sweep invariant after the pages below `i`, relative to the region's
pages and the host at the start of the sweep. -/
structure SweepInv (track isRead : Bool) (mask : Option RegionBits) (index first i : ℕ)
    (pages₀ : ℕ → PageState) (host₀ : Host) (l : Sweep) : Prop where
  /-- The shape of the pending run. -/
  run : RunOk first i l
  /-- Every page visited got its delta once. -/
  visited : ∀ j, first ≤ j → j < i →
    ∃ n, deltaAt track isRead mask (index * regionSize) j (pages₀ j) = .ok (n, l.pages j)
  /-- No other page changed. -/
  untouched : ∀ j, j < first ∨ i ≤ j → l.pages j = pages₀ j
  /-- Once the run is released, every page of the region has its own mode. -/
  agree : ∀ j, j < regionPages →
    Matches (l.settled (index * regionSize) (index * regionPages + j)) (l.pages j)
  /-- No page outside the visited ones is protected. -/
  frame : ∀ q, q < index * regionPages + first ∨ index * regionPages + i ≤ q →
    l.settled (index * regionSize) q = host₀ q
  /-- A protected page stays protected. -/
  keeps : ∀ q, host₀ q ≠ none → l.settled (index * regionSize) q ≠ none

theorem SweepInv.start (track isRead : Bool) (mask : Option RegionBits) {index : ℕ} (first : ℕ)
    {pages₀ : ℕ → PageState} {host₀ : Host}
    (h : ∀ j, j < regionPages → Matches (host₀ (index * regionPages + j)) (pages₀ j)) :
    SweepInv track isRead mask index first first pages₀ host₀
      ⟨pages₀, host₀, (pages₀ first).perms, 0, 0, 0⟩ where
  run := fun hne => absurd rfl hne
  visited := fun j hj hji => absurd hji (by omega)
  untouched := fun _ _ => rfl
  agree := by simpa [Sweep.settled] using h
  frame := fun _ _ => by simp [Sweep.settled]
  keeps := fun _ hq => by simpa [Sweep.settled] using hq

/-- **The sweep step.** One iteration preserves the sweep invariant. -/
theorem SweepInv.visit {track isRead : Bool} {mask : Option RegionBits} {index first i : ℕ}
    {pages₀ : ℕ → PageState} {host₀ : Host} {l l' : Sweep}
    (hinv : SweepInv track isRead mask index first i pages₀ host₀ l) (hfi : first ≤ i)
    (h : visitPage accepts track isRead mask (index * regionSize) l i = .ok l') :
    SweepInv track isRead mask index first (i + 1) pages₀ host₀ l' := by
  obtain ⟨n, page', hdelta, l₁, hfollow, hl'⟩ := visitPage_ok h
  obtain ⟨hpages, hperms, hsettled, hrun⟩ := followRun_ok hinv.run hfollow
  -- the facts about pages hold whether or not the run is extended
  have hpages' : l'.pages = Function.update l.pages i page' := by
    rw [hl', ← hpages]; split
    · unfold extendRun; split <;> rfl
    · rfl
  have hvisited : ∀ j, first ≤ j → j < i + 1 →
      ∃ n, deltaAt track isRead mask (index * regionSize) j (pages₀ j) = .ok (n, l'.pages j) := by
    intro j hj hji
    rw [hpages']
    by_cases hj' : j = i
    · subst hj'
      rw [Function.update_self, ← hinv.untouched j (.inr le_rfl)]
      exact ⟨n, hdelta⟩
    · rw [Function.update_of_ne hj']
      exact hinv.visited j hj (by omega)
  have huntouched : ∀ j, j < first ∨ i + 1 ≤ j → l'.pages j = pages₀ j := by
    intro j hj
    rw [hpages', Function.update_of_ne (by omega)]
    exact hinv.untouched j (by omega)
  by_cases hne : (l.pages i).perms = page'.perms
  · -- the mode of the page did not change, and neither did the settled host
    rw [if_neg (by simpa using hne)] at hl'
    subst hl'
    refine ⟨hrun, hvisited, huntouched, fun j hj => ?_, fun q hq => ?_, fun q hq => ?_⟩
    · rw [hsettled, hpages']
      have hold := hinv.agree j hj
      by_cases hj' : j = i
      · subst hj'
        rw [Function.update_self]
        refine ⟨fun m hm => (hold.1 m hm).trans hne, fun hm => ?_⟩
        rw [← PageState.perms_eq_readWrite_iff, ← hne, hold.2 hm, PageState.perms_empty]
      · rw [Function.update_of_ne hj']; exact hold
    · rw [hsettled]; exact hinv.frame q (by omega)
    · rw [hsettled]; exact hinv.keeps q hq
  · -- the page joins the run: the pages of the run all want its mode
    rw [if_pos hne] at hl'
    subst hl'
    have hi : (l₁.pages i).perms = l₁.perms := by rw [hpages, Function.update_self, hperms]
    obtain ⟨hrun', b, hb, hbi, hall, hset⟩ := extendRun_ok index hfi hrun hi
    have hpl : (extendRun i l₁).pages = l₁.pages := by rw [hpages', hpages]
    refine ⟨hrun', hvisited, huntouched, fun j hj => ?_, fun q hq => ?_, fun q hq => ?_⟩
    · rw [hset, hpl]
      split
      · next hin =>
        rw [← hall j (by omega) (by omega)]
        exact Matches.some_perms _
      · next hout =>
        rw [hsettled, hpages, Function.update_of_ne (by omega)]
        exact hinv.agree j hj
    · rw [hset, if_neg (by omega), hsettled]
      exact hinv.frame q (by omega)
    · rw [hset]
      split
      · simp
      · rw [hsettled]; exact hinv.keeps q hq

/-- **The sweep run.** The page loop preserves the sweep invariant. -/
theorem SweepInv.sweep {track isRead : Bool} {mask : Option RegionBits} {index first : ℕ}
    {pages₀ : ℕ → PageState} {host₀ : Host} (count : ℕ) :
    ∀ {i : ℕ} {l l' : Sweep}, SweepInv track isRead mask index first i pages₀ host₀ l →
      first ≤ i →
      (List.range' i count).foldlM (visitPage accepts track isRead mask (index * regionSize)) l
        = .ok l' →
      SweepInv track isRead mask index first (i + count) pages₀ host₀ l' := by
  induction count with
  | zero =>
    intro i l l' hinv _ h
    simp only [List.range'_zero, List.foldlM_nil, pure_ok] at h
    exact h ▸ hinv
  | succ count ih =>
    intro i l l' hinv hfi h
    rw [List.range'_succ, List.foldlM_cons] at h
    obtain ⟨l₁, hvisit, h⟩ := bind_ok.1 h
    have := ih (hinv.visit hfi hvisit) (by omega) h
    rwa [show i + 1 + count = i + (count + 1) by omega] at this

end Sweep

/-! ### Page-level effect of a call -/

/-- What a call does, page by page: the pages of `sel` get one delta each,
protection calls stay inside `span`, and the invariant holds afterwards. -/
structure Update (track isRead : Bool) (sel span : Set ℕ) (m m' : Manager) : Prop where
  /-- Each selected page gets its delta. -/
  selected : ∀ q ∈ sel, ∃ n,
    (m.page q).addDelta (callDelta track) isRead (q * pageSize) = .ok (n, m'.page q)
  /-- Every other page keeps its counters. -/
  others : ∀ q, q ∉ sel → m'.page q = m.page q
  /-- The host is asked nothing about other pages. -/
  frame : ∀ q, q ∉ span → m'.host q = m.host q
  /-- A protected page stays protected. -/
  keeps : ∀ q, m.host q ≠ none → m'.host q ≠ none
  /-- The invariant holds afterwards. -/
  coherent : Coherent m'

/-- Two calls on disjoint pages compose. -/
theorem Update.trans {track isRead : Bool} {sel sel' span span' : Set ℕ} {m m' m'' : Manager}
    (h : Update track isRead sel span m m') (h' : Update track isRead sel' span' m' m'')
    (hdisj : ∀ q ∈ sel, q ∉ sel') : Update track isRead (sel ∪ sel') (span ∪ span') m m'' where
  selected := by
    rintro q (hq | hq)
    · rw [h'.others q (hdisj q hq)]
      exact h.selected q hq
    · rw [← h.others q fun hsel => hdisj q hsel hq]
      exact h'.selected q hq
  others := by
    intro q hq
    rw [Set.mem_union, not_or] at hq
    rw [h'.others q hq.2, h.others q hq.1]
  frame := by
    intro q hq
    rw [Set.mem_union, not_or] at hq
    rw [h'.frame q hq.2, h.frame q hq.1]
  keeps := fun q hq => h'.keeps q (h.keeps q hq)
  coherent := h'.coherent

/-- A call that does nothing. -/
theorem Update.refl {track isRead : Bool} {m : Manager} (h : Coherent m) :
    Update track isRead ∅ ∅ m m where
  selected := fun _ hq => absurd hq (Set.notMem_empty _)
  others := fun _ _ => rfl
  frame := fun _ _ => rfl
  keeps := fun _ hq => hq
  coherent := h

section Calls

variable {accepts : ℕ → ℕ → Protection → Bool}

/-- The region a call works on records what the manager records for its pages. -/
theorem lookupRegion_pages {track : Bool} {m : Manager} {vaddr : ℕ} {region : Region}
    (h : lookupRegion track m vaddr = some region) (q : ℕ)
    (hq : q / regionPages = vaddr / regionSize) :
    region.pages (q % regionPages) = m.page q := by
  unfold Manager.page
  rw [hq]
  cases hr : m.regions (vaddr / regionSize) with
  | none =>
    cases track <;> simp [lookupRegion, hr] at h
    rw [← h]; rfl
  | some r =>
    cases track <;> simp [lookupRegion, hr] at h
    · rw [h.2]
    · rw [h]

/-- The pages of a manager after one of its regions was stored. -/
theorem Manager.page_store (m : Manager) (index : ℕ) (region : Region) (host : Host) (q : ℕ) :
    Manager.page ⟨Function.update m.regions index (some region), host⟩ q =
      if q / regionPages = index then region.pages (q % regionPages) else m.page q := by
  unfold Manager.page
  by_cases hq : q / regionPages = index
  · simp only [hq, Function.update_self, if_true]
  · simp only [Function.update_of_ne hq, hq, if_false]

/-- A page number, recovered from its region and its place there. -/
theorem page_decomp {q index : ℕ} (h : q / regionPages = index) :
    index * regionPages + q % regionPages = q := by
  rw [← h, Nat.mul_comm]
  exact Nat.div_add_mod q regionPages

/-- A page of another region lies outside any part of this one. -/
theorem page_outside {q index last : ℕ} (first : ℕ) (h : q / regionPages ≠ index)
    (hlast : last ≤ regionPages) :
    q < index * regionPages + first ∨ index * regionPages + last ≤ q := by
  have hpos : 0 < regionPages := by decide
  rcases Nat.lt_or_gt_of_ne h with hlt | hgt
  · have : q < index * regionPages := (Nat.div_lt_iff_lt_mul hpos).1 hlt
    omega
  · have : (index + 1) * regionPages ≤ q := (Nat.le_div_iff_mul_le hpos).1 hgt
    rw [Nat.add_mul, Nat.one_mul] at this
    omega

/-- **One region's share of a call.** -/
theorem updateRegion_ok {track isRead : Bool} {mask : Option RegionBits} {missing : Fault}
    {m m' : Manager} {vaddr first last : ℕ} (hm : Coherent m)
    (hlast : last ≤ regionPages)
    (h : updateRegion accepts track isRead mask missing m vaddr first last = .ok m') :
    Update track isRead
      {q | q / regionPages = vaddr / regionSize ∧ first ≤ q % regionPages ∧
        q % regionPages < last ∧ selects mask (q % regionPages) = true}
      {q | q / regionPages = vaddr / regionSize ∧ first ≤ q % regionPages ∧
        q % regionPages < last} m m' := by
  have hpos : 0 < regionPages := by decide
  unfold updateRegion at h
  split at h
  · cases h
  next region hregion =>
  obtain ⟨⟨region', host'⟩, hsweep, h⟩ := bind_ok.1 h
  rw [pure_ok] at h
  subst h
  unfold updateRegionWatchers at hsweep
  obtain ⟨l, hfold, hsweep⟩ := bind_ok.1 hsweep
  obtain ⟨l', hrelease, hsweep⟩ := bind_ok.1 hsweep
  rw [pure_ok, Prod.mk.injEq] at hsweep
  obtain ⟨hpages, -, -, hhost⟩ := releasePending_ok hrelease
  obtain ⟨rfl, rfl⟩ := hsweep
  have hold : ∀ q, q / regionPages = vaddr / regionSize →
      region.pages (q % regionPages) = m.page q := fun q hq => lookupRegion_pages hregion q hq
  have hstart : ∀ j, j < regionPages →
      Matches (m.host (vaddr / regionSize * regionPages + j)) (region.pages j) := by
    intro j hj
    have hdiv : (vaddr / regionSize * regionPages + j) / regionPages = vaddr / regionSize := by
      rw [Nat.mul_comm, Nat.mul_add_div hpos, Nat.div_eq_of_lt hj, Nat.add_zero]
    have hmod : (vaddr / regionSize * regionPages + j) % regionPages = j := by
      rw [Nat.mul_comm, Nat.mul_add_mod, Nat.mod_eq_of_lt hj]
    have := hold _ hdiv
    rw [hmod] at this
    rw [this]
    exact hm _
  have hinv := SweepInv.sweep (last - first)
    (SweepInv.start track isRead mask first hstart) le_rfl hfold
  rw [hpages, hhost]
  refine ⟨?_, ?_, ?_, hinv.keeps, ?_⟩
  · rintro q ⟨hq, hfirst, hlt, hsel⟩
    obtain ⟨n, hn⟩ := hinv.visited (q % regionPages) hfirst (by omega)
    have haddr : vaddr / regionSize * regionSize + q % regionPages * pageSize = q * pageSize :=
      calc vaddr / regionSize * regionSize + q % regionPages * pageSize
          = (vaddr / regionSize * regionPages + q % regionPages) * pageSize := by
            simp only [regionSize, regionPages, pageSize]; ring
        _ = q * pageSize := by rw [page_decomp hq]
    simp only [deltaAt, hsel, if_true, haddr] at hn
    refine ⟨n, ?_⟩
    rw [Manager.page_store, if_pos hq, ← hold q hq]
    exact hn
  · intro q hq
    rw [Manager.page_store]
    split
    · next hqi =>
      rw [← hold q hqi]
      by_cases hin : first ≤ q % regionPages ∧ q % regionPages < last
      · obtain ⟨n, hn⟩ := hinv.visited (q % regionPages) hin.1 (by omega)
        refine deltaAt_eq_of_not_selects hn ?_
        cases hs : selects mask (q % regionPages) with
        | false => rfl
        | true => exact absurd ⟨hqi, hin.1, hin.2, hs⟩ hq
      · exact hinv.untouched _ (by omega)
    · rfl
  · intro q hq
    refine hinv.frame q ?_
    by_cases hqi : q / regionPages = vaddr / regionSize
    · have hdec := page_decomp hqi
      have hout : first ≤ q % regionPages → last ≤ q % regionPages := by
        intro hf
        by_contra hl
        exact hq ⟨hqi, hf, by omega⟩
      omega
    · have := page_outside first hqi hlast
      omega
  · intro q
    rw [Manager.page_store]
    by_cases hqi : q / regionPages = vaddr / regionSize
    · rw [if_pos hqi]
      have := hinv.agree (q % regionPages) (Nat.mod_lt q hpos)
      rwa [page_decomp hqi] at this
    · have hout := page_outside first hqi hlast
      have hframe := hinv.frame q (by omega)
      rw [if_neg hqi]
      change Matches (l.settled _ q) _
      rw [hframe]
      exact hm q

end Calls

end Prosperismo.PageManager
