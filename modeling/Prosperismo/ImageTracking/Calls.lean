import Prosperismo.ImageTracking.Images

/-!
# The calls that track and untrack

One specification for each call, for an image that is `Kept` when the call is made. The ranges that
the calls cut off are whole pages of the tracked range (`head_pages`, `tail_pages`), so the watched
pages are those of the range that is left, whatever becomes of its ends.
-/

namespace Prosperismo.ImageTracking

open PageManager (pageSize pagesOf)

variable {τ : Type*}

/-! ### Ranges that are cut -/

namespace Image

variable {image : Image τ}

/-- The first page of the tracked range. -/
theorem head_subset (hlt : image.data.address < image.trackAddrEnd)
    (hfirst : image.trackAddr = image.data.address) :
    pagesIn image.data.address (headEnd image.data) ⊆ image.trackedPages := by
  obtain ⟨-, hlast, -⟩ := headEnd_bounds image.data
  intro q hq
  rw [mem_pagesIn, hlast] at hq
  rw [trackedPages, mem_pagesIn, hfirst]
  simp only [pageSize] at hq ⊢
  omega

/-- The last page of the tracked range. -/
theorem tail_subset (hlt : image.trackAddr < image.trackAddrEnd)
    (hlast : image.trackAddrEnd = rangeEnd image.data) :
    pagesIn (tailBegin image.data) (rangeEnd image.data) ⊆ image.trackedPages := by
  obtain ⟨hle, hend, hmod⟩ := tailBegin_bounds image.data
  intro q hq
  rw [mem_pagesIn] at hq
  rw [trackedPages, mem_pagesIn, hlast]
  simp only [pageSize] at hq hle hend hmod ⊢
  omega

/-- The range of an image without tracked range ends at `0`. -/
theorem Sound.trackAddrEnd_eq (h : image.Sound) (htracked : image.isTracked = false) :
    image.trackAddrEnd = 0 := by
  by_contra hend
  have hzero : image.trackAddr = 0 := by
    by_contra haddr
    rw [isTracked_iff.2 ⟨haddr, hend⟩] at htracked
    cases htracked
  have hempty : image.trackAddr / pageSize ∈ image.trackedPages :=
    ⟨image.trackAddr, le_rfl, by omega, rfl⟩
  rw [h.empty htracked] at hempty
  exact hempty

/-- What `MarkMaybeCpuDirty` and the hash leave alone. -/
theorem markWithHash_spec {env : Env} {image' : Image τ} (h : image.markWithHash env = some image') :
    ∃ maybe valid hash, image' = { image with
      maybeCpuDirty := maybe, maybeHashValid := valid, maybeCpuHash := hash } ∧
      image'.isCpuDirty = true := by
  have hdirty : image.markMaybeCpuDirty.isCpuDirty = true := by
    unfold markMaybeCpuDirty isCpuDirty
    cases hdirty : image.cpuDirty <;> simp [hdirty]
  have hmark : ∃ maybe, image.markMaybeCpuDirty = { image with maybeCpuDirty := maybe } := by
    unfold markMaybeCpuDirty
    split
    · exact ⟨true, rfl⟩
    · exact ⟨image.maybeCpuDirty, rfl⟩
  obtain ⟨maybe, hmark⟩ := hmark
  unfold markWithHash at h
  dsimp only at h
  split at h
  · obtain ⟨hash, -, hset⟩ := Option.bind_eq_some_iff.1 h
    unfold setMaybeCpuHash at hset
    obtain ⟨-, hset⟩ := Option.ite_none_right_eq_some.1 hset
    cases hset
    refine ⟨maybe, true, hash, ?_, hdirty⟩
    rw [hmark]
  · cases h
    exact ⟨maybe, image.maybeHashValid, image.maybeCpuHash, hmark, hdirty⟩

/-- The tracked range is gone. -/
def dropped (image : Image τ) : Image τ := { image with trackAddr := 0, trackAddrEnd := 0 }

end Image

variable [DecidableEq τ] {env : Env} {s s' : Cache τ} {id : τ} {image : Image τ}

/-- An image that the change leaves sound is kept. -/
theorem Changes.kept {image' : Image τ} {watched' : Set ℕ} (h : Changes s s' id image' watched')
    (hwatched : watched' = image'.trackedPages) (hsound : image'.Sound) : Kept s' id image' where
  stored := h.stored
  sound := hsound
  watched := hwatched ▸ h.watched

/-! ### Untracking -/

/-- **`UntrackImage`** takes all watchers away. -/
theorem untrackImage_spec (h : Kept s id image) (hop : s.untrackImage env id = some s') :
    Changes s s' id (if image.isTracked then image.dropped else image) ∅ := by
  unfold Cache.untrackImage at hop
  rw [h.stored, Option.bind_some] at hop
  cases htracked : image.isTracked with
  | false =>
    rw [htracked] at hop
    cases hop
    have hwatched := h.watched
    rw [h.sound.empty htracked] at hwatched
    exact .refl h.stored hwatched
  | true =>
    rw [htracked, Bool.not_true, if_neg Bool.false_ne_true] at hop
    dsimp only at hop
    have hshape := h.sound.shaped htracked
    have hplaced := h.sound.placed (h.sound.registered htracked)
    have hlt := hshape.lt
    have hend := hshape.inside.2.trans hplaced.end_le
    -- the difference does not wrap
    have hsize : sub64 image.trackAddrEnd image.trackAddr =
        image.trackAddrEnd - image.trackAddr := by
      unfold sub64
      omega
    rw [hsize, if_pos (by omega)] at hop
    have hpages : pagesOf image.trackAddr (image.trackAddrEnd - image.trackAddr) =
        image.trackedPages := by
      rw [pagesOf_eq (by omega), Nat.add_sub_cancel' hlt.le]
      rfl
    have hstore := Changes.store h.watched image.dropped
    have huntrack := Changes.untrack hstore.stored hstore.watched
      (fun q hq => by rwa [hpages] at hq) hop
    rw [hpages, Set.diff_self] at huntrack
    exact hstore.trans huntrack

/-- `UntrackImage`, where the tracked range has no bytes left. -/
theorem untrackImage_emptied (himage : s.images id = some image)
    (htracked : image.isTracked = true) (hempty : image.trackAddr = image.trackAddrEnd) :
    s.untrackImage env id = some (s.store id image.dropped) := by
  unfold Cache.untrackImage
  have hsize : sub64 image.trackAddrEnd image.trackAddr = 0 := by
    rw [hempty, sub64, Nat.add_sub_cancel_left]
  rw [himage, Option.bind_some, htracked, Bool.not_true, if_neg Bool.false_ne_true]
  dsimp only
  rw [hsize, if_neg (by simp)]
  rfl

/-- What remains of an image when its first or its last page is cut off: if there is another page,
the range `cut`; else the image is marked, and not tracked. -/
def Cut (s s' : Cache τ) (id : τ) (cut : Image τ) (watched' : Set ℕ) : Prop :=
  if cut.trackAddr = cut.trackAddrEnd then
    ∃ maybe valid hash, (cut.cpuDirty || maybe) = true ∧
      Changes s s' id ({ cut with
        maybeCpuDirty := maybe, maybeHashValid := valid, maybeCpuHash := hash }).dropped watched'
  else Changes s s' id cut watched'

/-- The part that `UntrackImageHead` and `UntrackImageTail` have in common. -/
theorem Cut.spec (cut : Image τ) {watched : Set ℕ} (address size : ℕ) (hw : Watched s id watched)
    (htracked : cut.trackAddr = cut.trackAddrEnd → cut.isTracked = true)
    (hheld : size ≠ 0 → ∀ q ∈ pagesOf address size, q ∈ watched)
    (hop : (if cut.trackAddr = cut.trackAddrEnd then
        (cut.markWithHash env).bind fun image => (s.store id image).untrackImage env id
      else some (s.store id cut)).bind (fun s =>
        if size ≠ 0 then s.updatePageWatchers env false id address size else some s) = some s') :
    Cut s s' id cut (watched \ pagesIn address (address + size)) := by
  -- the watchers are taken away at the end, in either case
  have hlast : ∀ {s₁ : Cache τ} {image₁ : Image τ}, Changes s s₁ id image₁ watched →
      (if size ≠ 0 then s₁.updatePageWatchers env false id address size else some s₁) = some s' →
      Changes s s' id image₁ (watched \ pagesIn address (address + size)) := by
    intro s₁ image₁ h₁ hop
    split at hop
    · next hsize =>
      rw [← pagesOf_eq (Nat.pos_of_ne_zero hsize)]
      exact h₁.trans (.untrack h₁.stored h₁.watched (hheld hsize) hop)
    · next hsize =>
      cases hop
      rw [pagesIn_empty (by omega), Set.diff_empty]
      exact h₁
  unfold Cut
  split
  · next hempty =>
    rw [if_pos hempty] at hop
    obtain ⟨s₁, hmark, hop⟩ := Option.bind_eq_some_iff.1 hop
    obtain ⟨marked, hmarked, hs₁⟩ := Option.bind_eq_some_iff.1 hmark
    obtain ⟨maybe, valid, hash, rfl, hdirty⟩ := Image.markWithHash_spec hmarked
    have hstore := Changes.store hw { cut with
      maybeCpuDirty := maybe, maybeHashValid := valid, maybeCpuHash := hash }
    rw [untrackImage_emptied hstore.stored (htracked hempty) hempty] at hs₁
    cases hs₁
    exact ⟨maybe, valid, hash, hdirty, hlast (hstore.trans (.store hstore.watched _)) hop⟩
  · next hleft =>
    rw [if_neg hleft, Option.bind_some] at hop
    exact hlast (.store hw cut) hop

/-- **`UntrackImageHead`** takes the watcher of the first page away. -/
theorem untrackImageHead_spec (h : Kept s id image) (htracked : image.isTracked = true)
    (hfirst : image.trackAddr = image.data.address)
    (hop : s.untrackImageHead env id = some s') :
    Cut s s' id { image with trackAddr := headEnd image.data }
      (pagesIn (headEnd image.data) image.trackAddrEnd) := by
  unfold Cache.untrackImageHead at hop
  rw [h.stored, Option.bind_some] at hop
  dsimp only at hop
  rw [htracked, if_neg (by rw [hfirst]; simp)] at hop
  obtain ⟨hlt, -, -⟩ := headEnd_bounds image.data
  have hend := (h.sound.shaped htracked).lt
  have hsum : image.data.address + (headEnd image.data - image.data.address) = headEnd image.data :=
    Nat.add_sub_cancel' hlt.le
  have hcut := Cut.spec { image with trackAddr := headEnd image.data } image.data.address
    (headEnd image.data - image.data.address) h.watched
    (fun hempty => Image.isTracked_iff.2
      ⟨by dsimp only; omega, (Image.isTracked_iff.1 htracked).2⟩)
    (fun hsize q hq => by
      rw [pagesOf_eq (Nat.pos_of_ne_zero hsize), hsum] at hq
      exact Image.head_subset (by omega) hfirst hq) hop
  rwa [hsum, Image.trackedPages, hfirst, head_pages] at hcut

/-- `UntrackImageHead`, where the first page is not tracked. -/
theorem untrackImageHead_idle (himage : s.images id = some image)
    (hidle : image.isTracked = false ∨ image.data.address < image.trackAddr) :
    s.untrackImageHead env id = some s := by
  unfold Cache.untrackImageHead
  rw [himage, Option.bind_some]
  dsimp only
  rw [if_pos]
  exact hidle.imp (fun h => by rw [h]; rfl) fun h => h

/-- **`UntrackImageTail`** takes the watcher of the last page away, unless the image ends with a
page. -/
theorem untrackImageTail_spec (h : Kept s id image) (htracked : image.isTracked = true)
    (hlast : image.trackAddrEnd = rangeEnd image.data)
    (hop : s.untrackImageTail env id = some s') :
    Cut s s' id { image with trackAddrEnd := tailBegin image.data }
      (pagesIn image.trackAddr (tailBegin image.data)) := by
  unfold Cache.untrackImageTail at hop
  rw [h.stored, Option.bind_some] at hop
  dsimp only at hop
  rw [htracked, if_neg (by rw [hlast]; simp)] at hop
  obtain ⟨hle, -, -⟩ := tailBegin_bounds image.data
  have hlt := (h.sound.shaped htracked).lt
  have hsum : tailBegin image.data + (rangeEnd image.data - tailBegin image.data) =
      rangeEnd image.data :=
    Nat.add_sub_cancel' hle
  have hpos := (Image.isTracked_iff.1 htracked).1
  have hcut := Cut.spec { image with trackAddrEnd := tailBegin image.data } (tailBegin image.data)
    (rangeEnd image.data - tailBegin image.data) h.watched
    (fun hempty => Image.isTracked_iff.2 ⟨hpos, fun hzero => hpos (hempty.trans hzero)⟩)
    (fun hsize q hq => by
      rw [pagesOf_eq (Nat.pos_of_ne_zero hsize), hsum] at hq
      exact Image.tail_subset hlt hlast hq) hop
  rwa [hsum, Image.trackedPages, hlast, tail_pages] at hcut

/-- `UntrackImageTail`, where the last page is not tracked. -/
theorem untrackImageTail_idle (himage : s.images id = some image)
    (hidle : image.isTracked = false ∨ image.trackAddrEnd < rangeEnd image.data) :
    s.untrackImageTail env id = some s := by
  unfold Cache.untrackImageTail
  rw [himage, Option.bind_some]
  dsimp only
  rw [if_pos]
  exact hidle.imp (fun h => by rw [h]; rfl) fun h => h

/-! ### Tracking -/

/-- The tracked range begins with the image. -/
def Image.fromHead (image : Image τ) : Image τ := { image with trackAddr := image.data.address }

/-- The tracked range ends with the image. -/
def Image.toTail (image : Image τ) : Image τ :=
  { image with trackAddrEnd := rangeEnd image.data }

/-- **`TrackImageHead`** puts a watcher on the first page, if it has none. -/
theorem trackImageHead_spec (h : Kept s id image) (hregistered : image.registered = true)
    (hop : s.trackImageHead env id = some s') :
    Changes s s' id image.fromHead image.fromHead.trackedPages := by
  unfold Cache.trackImageHead at hop
  rw [h.stored, Option.bind_some, if_neg (by rw [hregistered]; simp)] at hop
  dsimp only at hop
  split at hop
  · next hsame =>
    cases hop
    have hhead : image.fromHead = image := by
      unfold Image.fromHead
      rw [hsame]
    rw [hhead]
    exact .refl h.stored h.watched
  · next hne =>
    split at hop
    · cases hop
    · next hok =>
      simp only [Bool.not_eq_true', not_or, Bool.not_eq_false, not_lt] at hok
      have hshape := h.sound.shaped hok.1
      obtain ⟨hlt, hlast, hnext⟩ := headEnd_bounds image.data
      have hbegins : image.trackAddr = headEnd image.data :=
        hshape.begins.resolve_left fun heq => hne heq.symm
      have hpages : pagesOf image.data.address (image.trackAddr - image.data.address) =
          pagesIn image.data.address (headEnd image.data) := by
        rw [pagesOf_eq (by omega), Nat.add_sub_cancel' hok.2, hbegins]
      have hstore := Changes.store h.watched image.fromHead
      have htrack := Changes.track hstore.stored hstore.watched (fun q hq => ?_) hop
      · rw [hpages] at htrack
        have hunion : image.trackedPages ∪ pagesIn image.data.address (headEnd image.data) =
            image.fromHead.trackedPages := by
          rw [Image.trackedPages, hbegins, ← head_pages image.data, Set.diff_union_of_subset]
          · rfl
          · have hlt := hshape.lt
            exact @Image.head_subset _ image.fromHead
              (show image.data.address < image.trackAddrEnd by omega) rfl
        rw [hunion] at htrack
        exact hstore.trans htrack
      · -- the tracked range begins with the second page
        rw [hpages] at hq
        rw [Image.trackedPages, hbegins, ← head_pages image.data]
        exact fun hmem => hmem.2 hq

/-- **`TrackImageTail`** puts a watcher on the last page, if it has none. -/
theorem trackImageTail_spec (h : Kept s id image) (hregistered : image.registered = true)
    (hop : s.trackImageTail env id = some s') :
    Changes s s' id image.toTail image.toTail.trackedPages := by
  unfold Cache.trackImageTail at hop
  rw [h.stored, Option.bind_some, if_neg (by rw [hregistered]; simp)] at hop
  dsimp only at hop
  split at hop
  · next hsame =>
    cases hop
    have htail : image.toTail = image := by
      unfold Image.toTail
      rw [hsame]
    rw [htail]
    exact .refl h.stored h.watched
  · next hne =>
    split at hop
    · cases hop
    · next hok =>
      simp only [Bool.not_eq_true', not_or, Bool.not_eq_false, not_lt] at hok
      have hshape := h.sound.shaped hok.1
      have hends : image.trackAddrEnd = tailBegin image.data :=
        hshape.ends.resolve_left fun heq => hne heq.symm
      have hpages : pagesOf image.trackAddrEnd (rangeEnd image.data - image.trackAddrEnd) =
          pagesIn (tailBegin image.data) (rangeEnd image.data) := by
        rw [pagesOf_eq (by omega), Nat.add_sub_cancel' hok.2, hends]
      have hstore := Changes.store h.watched image.toTail
      have htrack := Changes.track hstore.stored hstore.watched (fun q hq => ?_) hop
      · rw [hpages] at htrack
        have hunion : image.trackedPages ∪ pagesIn (tailBegin image.data) (rangeEnd image.data) =
            image.toTail.trackedPages := by
          rw [Image.trackedPages, hends, ← tail_pages image.data, Set.diff_union_of_subset]
          · rfl
          · have hlt := hshape.lt
            exact @Image.tail_subset _ image.toTail
              (show image.trackAddr < rangeEnd image.data by omega) rfl
        rw [hunion] at htrack
        exact hstore.trans htrack
      · -- the tracked range ends before the last page
        rw [hpages] at hq
        rw [Image.trackedPages, hends, ← tail_pages image.data]
        exact fun hmem => hmem.2 hq

/-- The rest of the image is watched as before when the first page is tracked again. -/
theorem Image.Sound.fromHead (h : image.Sound) (hregistered : image.registered = true) :
    image.fromHead.Sound := by
  obtain ⟨hhead, -, -⟩ := headEnd_bounds image.data
  have hplaced := h.placed hregistered
  refine { shaped := fun ht => ?_, empty := fun ht => ?_, registered := fun _ => hregistered
           placed := fun _ => ⟨hplaced.1, hplaced.2, hplaced.3⟩, dirty := fun _ q hq hq' => ?_ }
  · -- it has been tracked before: an end that is not `0` is there for no other image
    have htracked : image.isTracked = true := by
      by_contra hnot
      rw [Bool.not_eq_true] at hnot
      exact (Image.isTracked_iff.1 ht).2 (h.trackAddrEnd_eq hnot)
    have hshape := h.shaped htracked
    have hinside := hshape.inside
    have hlt := hshape.lt
    exact ⟨.inl rfl, hshape.ends, show image.data.address < image.trackAddrEnd by omega⟩
  · have hend : image.trackAddrEnd = 0 := by
      by_contra hend
      have htracked : image.fromHead.isTracked = true :=
        Image.isTracked_iff.2 ⟨hplaced.1.ne', hend⟩
      rw [htracked] at ht
      cases ht
    refine pagesIn_empty ?_
    show image.trackAddrEnd ≤ image.data.address
    omega
  · refine h.dirty hregistered q hq fun hmem => hq' ?_
    obtain ⟨a, ha, hlt, rfl⟩ := hmem
    refine ⟨a, ?_, hlt, rfl⟩
    show image.data.address ≤ a
    cases htracked : image.isTracked with
    | true => exact (h.shaped htracked).inside.1.trans ha
    | false => rw [h.trackAddrEnd_eq htracked] at hlt; omega

/-- The rest of the image is watched as before when the last page is tracked again; the image is
tracked already. -/
theorem Image.Sound.toTail (h : image.Sound) (htracked : image.isTracked = true) :
    image.toTail.Sound := by
  have hshape := h.shaped htracked
  have hregistered := h.registered htracked
  have hplaced := h.placed hregistered
  obtain ⟨hbegin, hend⟩ := hshape.inside
  have hlt := hshape.lt
  refine { shaped := fun _ => ⟨hshape.begins, .inl rfl, ?_⟩, empty := fun ht => ?_
           registered := fun _ => hregistered
           placed := fun _ => ⟨hplaced.1, hplaced.2, hplaced.3⟩, dirty := fun _ q hq hq' => ?_ }
  · show image.trackAddr < rangeEnd image.data
    omega
  · -- the end of the image is an address
    have hpos := (Image.isTracked_iff.1 htracked).1
    have hyes : image.toTail.isTracked = true :=
      Image.isTracked_iff.2 ⟨hpos, show rangeEnd image.data ≠ 0 by omega⟩
    rw [hyes] at ht
    cases ht
  · refine h.dirty hregistered q hq fun hmem => hq' ?_
    obtain ⟨a, ha, hlt, rfl⟩ := hmem
    exact ⟨a, ha, show a < rangeEnd image.data by omega, rfl⟩

/-- All of the image is tracked. -/
def Image.full (image : Image τ) : Image τ :=
  { image with trackAddr := image.data.address, trackAddrEnd := rangeEnd image.data }

/-- **`TrackImage`** puts watchers on all pages of the image. -/
theorem trackImage_spec (h : Kept s id image) (hregistered : image.registered = true)
    (hop : s.trackImage env id = some s') : Changes s s' id image.full image.pages := by
  have hplaced := h.sound.placed hregistered
  unfold Cache.trackImage at hop
  rw [h.stored, Option.bind_some, if_neg (by rw [hregistered]; simp)] at hop
  dsimp only at hop
  split at hop
  · next hsame =>
    cases hop
    have hfull : image.full = image := by
      unfold Image.full
      rw [hsame.1, hsame.2]
    have hpages : image.pages = image.trackedPages := by
      rw [Image.pages, hsame.1, hsame.2, Image.trackedPages]
    rw [hfull, hpages]
    exact .refl h.stored h.watched
  · split at hop
    · next huntracked =>
      -- no page has a watcher
      rw [Bool.not_eq_true'] at huntracked
      have hempty := h.sound.empty huntracked
      have hstore := Changes.store h.watched image.full
      have htrack := Changes.track hstore.stored hstore.watched
        (fun q _ => by rw [hempty]; exact Set.notMem_empty q) hop
      rw [hempty, Set.empty_union, pagesOf_eq hplaced.size_pos] at htrack
      exact hstore.trans htrack
    · next htracked =>
      rw [Bool.not_eq_true', Bool.not_eq_false] at htracked
      obtain ⟨s₁, hhead, hop⟩ := Option.bind_eq_some_iff.1 hop
      -- the head, where it is missing
      have hfirst : Changes s s₁ id image.fromHead image.fromHead.trackedPages := by
        split at hhead
        · exact trackImageHead_spec h hregistered hhead
        · next hge =>
          cases hhead
          have hle := (h.sound.shaped htracked).inside.1
          have hsame : image.fromHead = image := by
            unfold Image.fromHead
            rw [le_antisymm hle (not_lt.1 hge)]
          rw [hsame]
          exact .refl h.stored h.watched
      have hkept : Kept s₁ id image.fromHead := hfirst.kept rfl (h.sound.fromHead hregistered)
      rw [hkept.stored, Option.bind_some] at hop
      -- then the tail
      have hsecond : Changes s₁ s' id image.full image.pages := by
        split at hop
        · exact trackImageTail_spec hkept hregistered hop
        · next hge =>
          cases hop
          have hle := (h.sound.shaped htracked).inside.2
          have hend : image.trackAddrEnd = rangeEnd image.data :=
            le_antisymm hle (not_lt.1 hge)
          have hfull : image.full = image.fromHead := by
            unfold Image.full Image.fromHead
            rw [hend]
          have hpages : image.pages = image.fromHead.trackedPages := by
            rw [Image.pages, ← hend]
            rfl
          rw [hfull, hpages]
          exact .refl hkept.stored hkept.watched
      exact hfirst.trans hsecond

/-- `TrackImage` leaves alone what is not registered. -/
theorem trackImage_idle (himage : s.images id = some image) (h : image.registered = false) :
    s.trackImage env id = some s := by
  unfold Cache.trackImage
  rw [himage, Option.bind_some, h, Bool.not_false, if_pos rfl]

end Prosperismo.ImageTracking
