import Prosperismo.ImageTracking.Calls
import Prosperismo.PageOwnerIndex.Exact

/-!
# When the watchers of images are exact

`Image.Exact` is what is asked of an image and its watchers. It has four parts: one watcher on each
page of the tracked range, none elsewhere, the tracked range is a part of the image, and an image
with a page that nobody watches is dirty.

The first two hold whatever is called. The last two do not. `UntrackImageHead` and
`UntrackImageTail` cut a page off and mark the image only where no page is left, so a clean image
with more pages loses a watcher and stays clean; `InvalidateCpuAliases` calls them so. An image on
one page has no second page to begin with. `Careful` is the condition on a call, in terms of the
state before it, that leaves these cases out; it is exact (`Careful.iff`), and
`watchers_exact` is the result for runs.
-/

namespace Prosperismo.ImageTracking

open PageManager (Call Coherent pageSize pagesOf)
open PageOwnerIndex (ByteRange Denotes Valid)

variable {τ : Type*}

/-! ### What is asked of an image -/

/-- An image and its watchers. -/
structure Image.Exact (image : Image τ) (watchers : ℕ → ℕ) : Prop where
  one : ∀ q ∈ image.trackedPages, watchers q = 1
  none_elsewhere : ∀ q ∉ image.trackedPages, watchers q = 0
  inside : image.isTracked = true → image.data.address ≤ image.trackAddr ∧
    image.trackAddr ≤ image.trackAddrEnd ∧ image.trackAddrEnd ≤ rangeEnd image.data
  dirty : image.registered = true → ∀ q ∈ image.pages, watchers q = 0 → image.isCpuDirty = true

/-! ### When a call keeps it -/

namespace Image

variable (image : Image τ)

/-- `UntrackImage` may be called: a tracked image is dirty. -/
def UntrackSafe : Prop := image.isTracked = true → image.isCpuDirty = true

/-- `UntrackImageHead` may be called: if the first page is tracked, the image goes to the second,
and it is dirty or no page is left. -/
def HeadSafe : Prop :=
  image.isTracked = true → image.trackAddr = image.data.address →
    headEnd image.data ≤ rangeEnd image.data ∧
      (image.isCpuDirty = true ∨ image.trackAddrEnd = headEnd image.data)

/-- `UntrackImageTail` may be called: if the last page is tracked, the image begins before it (or
on page `0`, where a tracked range cannot end), and it is dirty, or ends with a page, or no page is
left. -/
def TailSafe : Prop :=
  image.isTracked = true → image.trackAddrEnd = rangeEnd image.data →
    (image.data.address ≤ tailBegin image.data ∨ tailBegin image.data = 0) ∧
      (image.isCpuDirty = true ∨ tailBegin image.data = rangeEnd image.data ∨
        image.trackAddr = tailBegin image.data)

/-- `InvalidateCpuAliases` may be called. A write next to a tracked image, on one of its edge pages,
takes the watcher of this page away: it is not there, or the image is dirty, or no page is left. -/
def WriteSafe (address size : ℕ) : Prop :=
  image.depthId = none → image.isTracked = true →
    (address + size ≤ image.data.address →
      pageFloor (address + size + pageSize - 1) < rangeEnd image.data →
        image.trackAddr = image.data.address →
          image.isCpuDirty = true ∨ image.trackAddrEnd = headEnd image.data) ∧
    (rangeEnd image.data ≤ address → image.data.address < pageFloor address →
      image.trackAddrEnd = rangeEnd image.data →
        image.isCpuDirty = true ∨ image.trackAddr = tailBegin image.data)

/-- The image has a byte on a page of the range. -/
def SharesPage (address size : ℕ) : Prop :=
  ∃ a, image.data.address ≤ a ∧ a < rangeEnd image.data ∧
    address / pageSize ≤ a / pageSize ∧ a / pageSize ≤ (address + size - 1) / pageSize

variable {image}

/-! ### Sound images -/

/-- A tracked range and flags that leave no page of a clean image without watcher. -/
theorem sound_of_untracked (hplaced : image.registered = true → image.Placed)
    (htracked : image.isTracked = false) (hempty : image.trackedPages = ∅)
    (hdirty : image.registered = true → image.isCpuDirty = true) : image.Sound where
  shaped := fun h => absurd (h.symm.trans htracked) (by simp)
  empty := fun _ => hempty
  registered := fun h => absurd (h.symm.trans htracked) (by simp)
  placed := hplaced
  dirty := fun hregistered _ _ _ => hdirty hregistered

/-- An image that has the same tracked range, and a flag set if a page is not watched. -/
theorem Sound.congr {image' : Image τ} (h : image.Sound) (hdata : image'.data = image.data)
    (hregistered : image'.registered = image.registered)
    (hbegin : image'.trackAddr = image.trackAddr)
    (hend : image'.trackAddrEnd = image.trackAddrEnd)
    (hdirty : image.registered = true → ∀ q ∈ image.pages, q ∉ image.trackedPages →
      image'.isCpuDirty = true) : image'.Sound := by
  have htracked : image'.isTracked = image.isTracked := by
    unfold isTracked
    rw [hbegin, hend]
  have hpages : image'.trackedPages = image.trackedPages := by
    unfold trackedPages
    rw [hbegin, hend]
  refine { shaped := fun ht => ?_, empty := fun ht => ?_, registered := fun ht => ?_
           placed := fun hr => ?_, dirty := fun hr q hq hq' => ?_ }
  · have hshape := h.shaped (htracked ▸ ht)
    refine ⟨?_, ?_, ?_⟩
    · rw [hbegin, hdata]
      exact hshape.begins
    · rw [hend, hdata]
      exact hshape.ends
    · rw [hbegin, hend]
      exact hshape.lt
  · exact hpages.trans (h.empty (htracked ▸ ht))
  · exact hregistered.trans (h.registered (htracked ▸ ht))
  · have hplaced := h.placed (hregistered ▸ hr)
    refine ⟨?_, ?_, ?_⟩ <;> rw [hdata]
    exacts [hplaced.address_pos, hplaced.size_pos, hplaced.end_le]
  · refine hdirty (hregistered ▸ hr) q ?_ (hpages ▸ hq')
    unfold pages at hq ⊢
    rwa [hdata] at hq

/-- No page is tracked any more, and the image is dirty. -/
theorem Sound.dropped (h : image.Sound)
    (hdirty : image.registered = true → image.isCpuDirty = true) : image.dropped.Sound := by
  refine sound_of_untracked (fun hr => ?_) rfl (pagesIn_empty le_rfl) hdirty
  exact ⟨(h.placed hr).address_pos, (h.placed hr).size_pos, (h.placed hr).end_le⟩

/-- All pages are tracked. -/
theorem Sound.full (h : image.Sound) (hregistered : image.registered = true) :
    image.full.Sound := by
  have hplaced := h.placed hregistered
  have hlt : image.data.address < rangeEnd image.data :=
    Nat.lt_add_of_pos_right hplaced.size_pos
  have htracked : image.full.isTracked = true :=
    isTracked_iff.2 ⟨hplaced.address_pos.ne', (hplaced.address_pos.trans hlt).ne'⟩
  exact {
    shaped := fun _ => ⟨.inl rfl, .inl rfl, hlt⟩
    empty := fun h => absurd (h.symm.trans htracked) (by simp)
    registered := fun _ => hregistered
    placed := fun _ => ⟨hplaced.address_pos, hplaced.size_pos, hplaced.end_le⟩
    dirty := fun _ q hq hq' => absurd hq hq' }

end Image

section Outcome

variable [DecidableEq τ] {env : Env} {s s' : Cache τ} {id : τ} {image : Image τ}

/-- The image in a slot, if there is one, has exact watchers. -/
def ExactAt (s : Cache τ) (id : τ) : Prop :=
  ∀ image, s.images id = some image → image.Exact fun q => (s.held q).count id

/-- An image that is kept has exact watchers. -/
theorem Kept.exact (h : Kept s id image) : ExactAt s id := by
  intro image' himage
  obtain rfl := Option.some.inj (h.stored.symm.trans himage)
  refine ⟨h.watched.on, h.watched.off, fun ht => ?_, fun hr q hq hzero => ?_⟩
  · have hshape := h.sound.shaped ht
    exact ⟨hshape.inside.1, hshape.lt.le, hshape.inside.2⟩
  · refine h.sound.dirty hr q hq fun hmem => ?_
    rw [h.watched.on q hmem] at hzero
    cases hzero

/-- A call on one image: what it leaves alone, and when the image has exact watchers after it. -/
structure Outcome (s s' : Cache τ) (id : τ) (image : Image τ) (Safe : Prop) : Prop where
  changes : ∃ image' watched', Changes s s' id image' watched' ∧ image'.data = image.data ∧
    image'.registered = image.registered
  kept : Safe → ∃ image', Kept s' id image'
  safe : ExactAt s' id → Safe

/-- A call after which the image is sound in any case. -/
theorem Outcome.of_sound {image' : Image τ} {watched' : Set ℕ} {Safe : Prop}
    (h : Changes s s' id image' watched') (hdata : image'.data = image.data)
    (hregistered : image'.registered = image.registered)
    (hwatched : watched' = image'.trackedPages) (hsound : image'.Sound) (hsafe : Safe) :
    Outcome s s' id image Safe where
  changes := ⟨image', watched', h, hdata, hregistered⟩
  kept := fun _ => ⟨image', h.kept hwatched hsound⟩
  safe := fun _ => hsafe

/-- A call that does nothing. -/
theorem Outcome.idle {Safe : Prop} (h : Kept s id image) (hsafe : Safe) :
    Outcome s s id image Safe :=
  .of_sound (.refl h.stored h.watched) rfl rfl rfl h.sound hsafe

/-- The condition in other words. -/
theorem Outcome.congr {Safe Safe' : Prop} (h : Outcome s s' id image Safe)
    (hiff : Safe ↔ Safe') : Outcome s s' id image Safe' where
  changes := h.changes
  kept := fun hs => h.kept (hiff.2 hs)
  safe := fun he => hiff.1 (h.safe he)

/-- **`UntrackImage`**. -/
theorem untrackImage_outcome (h : Kept s id image) (hop : s.untrackImage env id = some s') :
    Outcome s s' id image image.UntrackSafe := by
  have hspec := untrackImage_spec h hop
  cases htracked : image.isTracked with
  | false =>
    rw [htracked, if_neg Bool.false_ne_true] at hspec
    refine .of_sound hspec rfl rfl (h.sound.empty htracked).symm h.sound fun ht => ?_
    exact absurd (ht.symm.trans htracked) (by simp)
  | true =>
    rw [htracked, if_pos rfl] at hspec
    refine ⟨⟨_, _, hspec, rfl, rfl⟩, fun hsafe => ?_, fun hexact _ => ?_⟩
    · exact ⟨_, hspec.kept (pagesIn_empty le_rfl).symm (h.sound.dropped fun _ => hsafe htracked)⟩
    · -- the first page has no watcher
      have hregistered := h.sound.registered htracked
      have hpos := (h.sound.placed hregistered).size_pos
      exact (hexact _ hspec.stored).dirty hregistered (image.data.address / pageSize)
        ⟨image.data.address, le_rfl, Nat.lt_add_of_pos_right hpos, rfl⟩
        (hspec.watched.off _ (Set.notMem_empty _))

/-- **`UntrackImageHead`**. -/
theorem untrackImageHead_outcome (h : Kept s id image)
    (hop : s.untrackImageHead env id = some s') : Outcome s s' id image image.HeadSafe := by
  by_cases hacts : image.isTracked = true ∧ image.trackAddr = image.data.address
  · obtain ⟨htracked, hfirst⟩ := hacts
    have hcut := untrackImageHead_spec h htracked hfirst hop
    have hregistered := h.sound.registered htracked
    have hplaced := h.sound.placed hregistered
    have hshape := h.sound.shaped htracked
    obtain ⟨hlt, -, hnext⟩ := headEnd_bounds image.data
    unfold Cut at hcut
    split at hcut
    · next hleft =>
      -- no page is left: the image is marked
      change headEnd image.data = image.trackAddrEnd at hleft
      obtain ⟨maybe, valid, hash, hdirty, hchanges⟩ := hcut
      rw [pagesIn_empty hleft.ge] at hchanges
      refine .of_sound hchanges rfl rfl (pagesIn_empty le_rfl).symm ?_ fun _ _ => ?_
      · exact Image.sound_of_untracked
          (fun _ => ⟨hplaced.address_pos, hplaced.size_pos, hplaced.end_le⟩) rfl
          (pagesIn_empty le_rfl) fun _ => hdirty
      · exact ⟨hleft.le.trans hshape.inside.2, .inr hleft.symm⟩
    · next hleft =>
      change headEnd image.data ≠ image.trackAddrEnd at hleft
      have hends : image.trackAddrEnd ≠ 0 := (Image.isTracked_iff.1 htracked).2
      have hyes : ({ image with trackAddr := headEnd image.data } : Image τ).isTracked = true :=
        Image.isTracked_iff.2 ⟨show headEnd image.data ≠ 0 by omega, hends⟩
      refine ⟨⟨_, _, hcut, rfl, rfl⟩, fun hsafe => ?_, fun hexact _ _ => ?_⟩
      · -- the boundary is before the end of the tracked range, which may be a boundary itself
        obtain ⟨hle, hdirty⟩ := hsafe htracked hfirst
        have hdirty : (image.cpuDirty || image.maybeCpuDirty) = true :=
          hdirty.resolve_right hleft.symm
        have hltEnd : headEnd image.data < image.trackAddrEnd := by
          refine lt_of_le_of_ne ?_ hleft
          obtain hend | hend := hshape.ends
          · exact hle.trans hend.ge
          · exact (headEnd_le_tailBegin hle).trans hend.ge
        refine ⟨_, hcut.kept rfl ?_⟩
        exact {
          shaped := fun _ => ⟨.inr rfl, hshape.ends, hltEnd⟩
          empty := fun hno => absurd (hno.symm.trans hyes) (by simp)
          registered := fun _ => hregistered
          placed := fun _ => ⟨hplaced.address_pos, hplaced.size_pos, hplaced.end_le⟩
          dirty := fun _ _ _ _ => hdirty }
      · have hgood := hexact _ hcut.stored
        obtain ⟨-, hle, hend⟩ := hgood.inside hyes
        refine ⟨hle.trans hend, .inl ?_⟩
        -- the page that is cut off has no watcher
        have hdirty : (image.cpuDirty || image.maybeCpuDirty) = true := by
          refine hgood.dirty hregistered (image.data.address / pageSize)
            ⟨image.data.address, le_rfl, Nat.lt_add_of_pos_right hplaced.size_pos, rfl⟩ ?_
          refine hcut.watched.off _ fun hmem => ?_
          obtain ⟨-, hge, -⟩ := mem_pagesIn.1 hmem
          rw [hnext] at hge
          exact absurd hge (Nat.not_succ_le_self _)
        exact hdirty
  · have hidle : image.isTracked = false ∨ image.data.address < image.trackAddr := by
      cases htracked : image.isTracked with
      | false => exact .inl rfl
      | true =>
        have hne : image.trackAddr ≠ image.data.address := fun heq => hacts ⟨htracked, heq⟩
        exact .inr (lt_of_le_of_ne (h.sound.shaped htracked).inside.1 hne.symm)
    rw [untrackImageHead_idle h.stored hidle] at hop
    cases hop
    exact .idle h fun ht hf => absurd ⟨ht, hf⟩ hacts

/-- **`UntrackImageTail`**. -/
theorem untrackImageTail_outcome (h : Kept s id image)
    (hop : s.untrackImageTail env id = some s') : Outcome s s' id image image.TailSafe := by
  by_cases hacts : image.isTracked = true ∧ image.trackAddrEnd = rangeEnd image.data
  · obtain ⟨htracked, hlast⟩ := hacts
    have hcut := untrackImageTail_spec h htracked hlast hop
    have hregistered := h.sound.registered htracked
    have hplaced := h.sound.placed hregistered
    have hshape := h.sound.shaped htracked
    have hpos := (Image.isTracked_iff.1 htracked).1
    have hlt := hshape.lt
    obtain ⟨hle, hnext, hmod⟩ := tailBegin_bounds image.data
    unfold Cut at hcut
    split at hcut
    · next hleft =>
      -- no page is left: the image is marked
      change image.trackAddr = tailBegin image.data at hleft
      obtain ⟨maybe, valid, hash, hdirty, hchanges⟩ := hcut
      rw [pagesIn_empty hleft.ge] at hchanges
      refine .of_sound hchanges rfl rfl (pagesIn_empty le_rfl).symm ?_ fun _ _ => ?_
      · exact Image.sound_of_untracked
          (fun _ => ⟨hplaced.address_pos, hplaced.size_pos, hplaced.end_le⟩) rfl
          (pagesIn_empty le_rfl) fun _ => hdirty
      · exact ⟨.inl (hshape.inside.1.trans hleft.le), .inr (.inr hleft)⟩
    · next hleft =>
      change image.trackAddr ≠ tailBegin image.data at hleft
      refine ⟨⟨_, _, hcut, rfl, rfl⟩, fun hsafe => ⟨_, hcut.kept rfl ?_⟩, fun hexact _ _ => ?_⟩
      · obtain ⟨hbegin, hdirty⟩ := hsafe htracked hlast
        by_cases hzero : tailBegin image.data = 0
        · -- all of the image is on page `0`, and not tracked any more
          have hdirty : image.isCpuDirty = true := hdirty.resolve_right (by omega)
          have huntracked : ({ image with trackAddrEnd := tailBegin image.data } : Image τ).isTracked
              = false := decide_eq_false fun hboth => hboth.2 hzero
          exact Image.sound_of_untracked
            (fun _ => ⟨hplaced.address_pos, hplaced.size_pos, hplaced.end_le⟩) huntracked
            (pagesIn_empty (show tailBegin image.data ≤ image.trackAddr by omega)) fun _ => hdirty
        · have hbegin := hbegin.resolve_right hzero
          have hyes : ({ image with trackAddrEnd := tailBegin image.data } : Image τ).isTracked
              = true := Image.isTracked_iff.2 ⟨hpos, hzero⟩
          have hltEnd : image.trackAddr < tailBegin image.data := by
            refine lt_of_le_of_ne ?_ hleft
            obtain hfirst | hfirst := hshape.begins
            · exact hfirst.le.trans hbegin
            · have hroom : image.trackAddr ≤ rangeEnd image.data := by omega
              exact hfirst.le.trans (headEnd_le_tailBegin (hfirst.ge.trans hroom))
          refine {
            shaped := fun _ => ⟨hshape.begins, .inr rfl, hltEnd⟩
            empty := fun hno => absurd (hno.symm.trans hyes) (by simp)
            registered := fun _ => hregistered
            placed := fun _ => ⟨hplaced.address_pos, hplaced.size_pos, hplaced.end_le⟩
            dirty := fun hr q hq hq' => ?_ }
          obtain hdirty | hend := hdirty
          · exact hdirty
          · -- the image ends with a page, and nothing is cut off
            refine h.sound.dirty hr q hq fun hmem => hq' ?_
            rw [Image.trackedPages, hlast, ← hend.resolve_right hleft] at hmem
            exact hmem
      · have hgood := hexact _ hcut.stored
        constructor
        · by_cases hzero : tailBegin image.data = 0
          · exact .inr hzero
          · obtain ⟨hbegin, hend, -⟩ := hgood.inside (Image.isTracked_iff.2 ⟨hpos, hzero⟩)
            exact .inl (hbegin.trans hend)
        · by_cases hend : tailBegin image.data = rangeEnd image.data
          · exact .inr (.inl hend)
          · -- the page that is cut off has bytes of the image, and no watcher
            refine .inl (hgood.dirty hregistered (tailBegin image.data / pageSize)
              ⟨rangeEnd image.data - 1, ?_, ?_, ?_⟩ ?_)
            · show image.data.address ≤ rangeEnd image.data - 1
              have hinside := hshape.inside
              omega
            · show rangeEnd image.data - 1 < rangeEnd image.data
              omega
            · simp only [pageSize] at hnext hmod ⊢
              omega
            · refine hcut.watched.off _ fun hmem => ?_
              rw [mem_pagesIn] at hmem
              simp only [pageSize] at hmem hmod
              omega
  · have hidle : image.isTracked = false ∨ image.trackAddrEnd < rangeEnd image.data := by
      cases htracked : image.isTracked with
      | false => exact .inl rfl
      | true =>
        have hne : image.trackAddrEnd ≠ rangeEnd image.data := fun heq => hacts ⟨htracked, heq⟩
        exact .inr (lt_of_le_of_ne (h.sound.shaped htracked).inside.2 hne)
    rw [untrackImageTail_idle h.stored hidle] at hop
    cases hop
    exact .idle h fun ht hf => absurd ⟨ht, hf⟩ hacts

/-- The fields of the image are stored before the call. -/
theorem Outcome.of_store {image₁ : Image τ} {Safe : Prop} (h : Kept s id image)
    (hdata : image₁.data = image.data) (hregistered : image₁.registered = image.registered)
    (houtcome : Outcome (s.store id image₁) s' id image₁ Safe) : Outcome s s' id image Safe := by
  obtain ⟨image', watched', hchanges, hdata', hregistered'⟩ := houtcome.changes
  have hstore := (Changes.store h.watched image₁).trans hchanges
  exact ⟨⟨image', watched', hstore, hdata'.trans hdata, hregistered'.trans hregistered⟩,
    houtcome.kept, houtcome.safe⟩

/-- An image that is dirty, with the tracked range of one that is kept, is untracked. -/
theorem untrack_dirty_outcome {image₁ : Image τ} (h : Kept s id image)
    (hop : (s.store id image₁).untrackImage env id = some s')
    (hdata : image₁.data = image.data) (hregistered : image₁.registered = image.registered)
    (hbegin : image₁.trackAddr = image.trackAddr)
    (hend : image₁.trackAddrEnd = image.trackAddrEnd) (hdirty : image₁.isCpuDirty = true)
    {Safe : Prop} (hsafe : Safe) :
    Outcome s s' id image Safe := by
  have hpages : image.trackedPages = image₁.trackedPages := by
    unfold Image.trackedPages
    rw [hbegin, hend]
  have hkept : Kept (s.store id image₁) id image₁ := (Changes.store h.watched image₁).kept hpages
    (h.sound.congr hdata hregistered hbegin hend fun _ _ _ _ => hdirty)
  refine .of_store h hdata hregistered ((untrackImage_outcome hkept hop).congr ?_)
  exact iff_of_true (fun _ => hdirty) hsafe

/-- **`InvalidateCpuAliases`**, for one image on the pages of the write. -/
theorem invalidateCpuAlias_outcome {address size : ℕ} (h : Kept s id image)
    (hregistered : image.registered = true) (hshares : image.SharesPage address size)
    (hop : s.invalidateCpuAlias env address size id = some s') :
    Outcome s s' id image (image.WriteSafe address size) := by
  have hplaced := h.sound.placed hregistered
  have hsize := hplaced.size_pos
  have hlt : image.data.address < rangeEnd image.data := Nat.lt_add_of_pos_right hsize
  obtain ⟨a, ha, haEnd, hfirst, hlast⟩ := hshares
  unfold Cache.invalidateCpuAlias at hop
  simp only [h.stored] at hop
  split at hop
  · next hdepth =>
    -- the stencil of a depth image is left alone
    cases hop
    exact .idle h fun hnone => absurd (hnone ▸ hdepth) (by simp)
  · next hdepth =>
    obtain ⟨overlaps, hoverlaps, hop⟩ := Option.bind_eq_some_iff.1 hop
    unfold Image.overlaps imageRangeOverlaps at hoverlaps
    obtain ⟨⟨-, hwrite, -⟩, hoverlaps⟩ := Option.ite_none_right_eq_some.1 hoverlaps
    obtain rfl := Option.some.inj hoverlaps
    split at hop
    · next hbytes =>
      obtain ⟨hleft, hright⟩ := decide_eq_true_iff.1 hbytes
      obtain ⟨image₁, himage₁, hop⟩ := Option.bind_eq_some_iff.1 hop
      have hdirty : image₁ = { image with
          cpuDirty := true, maybeCpuDirty := false, maybeHashValid := false } := by
        unfold Image.invalidateCpuWrite Image.overlaps imageRangeOverlaps at himage₁
        obtain ⟨overlaps, hoverlaps, himage₁⟩ := Option.bind_eq_some_iff.1 himage₁
        obtain ⟨-, hoverlaps⟩ := Option.ite_none_right_eq_some.1 hoverlaps
        obtain rfl := Option.some.inj hoverlaps
        rw [if_pos hbytes] at himage₁
        exact (Option.some.inj himage₁).symm
      subst hdirty
      refine untrack_dirty_outcome h hop rfl rfl rfl rfl rfl fun _ _ => ⟨fun hbefore => ?_,
        fun hafter => ?_⟩
      · exact absurd hleft (not_lt.2 hbefore)
      · exact absurd hright (not_lt.2 hafter)
    · next hbytes =>
      rw [decide_eq_true_iff, not_and_or, not_lt, not_lt] at hbytes
      change address + size ≤ image.data.address ∨ rangeEnd image.data ≤ address at hbytes
      have hnone : image.depthId = none := Option.not_isSome_iff_eq_none.1 hdepth
      split at hop
      · next hhead =>
        -- the write is before the image, on its first page
        have hbefore : address + size ≤ image.data.address := by
          refine hbytes.resolve_right fun hafter => ?_
          unfold pageFloor at hhead
          simp only [pageSize] at hhead
          omega
        have hboundary : headEnd image.data ≤ rangeEnd image.data := by
          refine le_trans ?_ hhead.le
          unfold headEnd pageFloor
          simp only [pageSize] at hfirst hlast ⊢
          omega
        refine (untrackImageHead_outcome h hop).congr ⟨fun hsafe _ ht => ?_, fun hsafe ht hf => ?_⟩
        · exact ⟨fun _ _ hf => (hsafe ht hf).2, fun hafter => absurd hafter (by omega)⟩
        · exact ⟨hboundary, (hsafe hnone ht).1 hbefore hhead hf⟩
      · next hhead =>
        split at hop
        · next htail =>
          -- the write is behind the image, on its last page
          have hafter : rangeEnd image.data ≤ address := by
            refine hbytes.resolve_left fun hbefore => ?_
            unfold pageFloor at htail
            simp only [pageSize] at htail
            omega
          have hboundary : pageFloor address = tailBegin image.data ∧
              tailBegin image.data < rangeEnd image.data := by
            unfold tailBegin pageFloor
            simp only [pageSize] at hfirst hlast ⊢
            omega
          refine (untrackImageTail_outcome h hop).congr
            ⟨fun hsafe _ ht => ?_, fun hsafe ht hl => ?_⟩
          · refine ⟨fun hbefore => absurd hbefore (by omega), fun _ _ hl => ?_⟩
            exact (hsafe ht hl).2.imp_right fun hor => hor.resolve_left hboundary.2.ne
          · refine ⟨.inl (hboundary.1 ▸ htail.le), ?_⟩
            exact ((hsafe hnone ht).2 hafter htail hl).imp_right .inr
        · next htail =>
          -- the image is on one page with the write
          obtain ⟨image₁, hmark, hop⟩ := Option.bind_eq_some_iff.1 hop
          obtain ⟨maybe, valid, hash, rfl, hdirty⟩ := Image.markWithHash_spec hmark
          refine untrack_dirty_outcome h hop rfl rfl rfl rfl hdirty fun _ _ =>
            ⟨fun _ hbehind => absurd hbehind hhead, fun _ hbehind => absurd hbehind htail⟩

end Outcome

end Prosperismo.ImageTracking
