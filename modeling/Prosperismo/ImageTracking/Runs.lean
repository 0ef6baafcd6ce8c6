import Prosperismo.Base.Run
import Prosperismo.ImageTracking.Exact
import Prosperismo.PageManager.Masked

/-!
# The watchers along a run

`Inv` is the invariant of the cache: every image is `Kept`, nobody else holds watchers in the name
of an image, the page manager's counters are those of images and others, and the owner index has
the ranges of the registered images. The last makes `InvalidateCpuAliases` go through the images
that have a byte on a page of the write.

`Careful` is the condition on a call. `Inv.step` is the step lemma, in both directions: a call that
meets the condition keeps the invariant, and a call after which all watchers are exact meets it.
-/

namespace Prosperismo.ImageTracking

open PageManager (Call Coherent Manager callDelta pageSize)
open PageOwnerIndex (Book ByteRange Denotes Valid)

variable {τ : Type*} [DecidableEq τ]

/-! ### The invariant -/

/-- The ranges of the registered images. -/
def Cache.book (s : Cache τ) : Book τ := fun id =>
  (s.images id).bind fun image => if image.registered then some [image.data] else none

/-- A slot: its image is kept, and no image has no watchers. -/
structure SlotOk (s : Cache τ) (id : τ) : Prop where
  kept : ∀ image, s.images id = some image → Kept s id image
  absent : s.images id = none → Watched s id ∅

/-- The invariant of the cache. -/
structure Inv (s : Cache τ) : Prop where
  slots : ∀ id, SlotOk s id
  tied : Tied s
  denotes : Denotes s.imageOwnerIndex s.book

/-- All images have exact watchers. -/
def ExactAll (s : Cache τ) : Prop := ∀ id, ExactAt s id

variable {env : Env} {s s' : Cache τ} {id : τ} {image : Image τ}

/-- One slot of the book. -/
theorem book_update {slot : Option (Image τ)} (h : s'.images = Function.update s.images id slot) :
    s'.book = Function.update s.book id
      (slot.bind fun image => if image.registered then some [image.data] else none) := by
  ext o : 1
  unfold Cache.book
  rw [h, Function.update_apply, Function.update_apply]
  split <;> rfl

/-- The invariant holds of a cache without images. -/
theorem Inv.new : Inv (Cache.new : Cache τ) where
  slots := fun _ => ⟨fun _ himage => (nomatch himage), fun _ => ⟨fun _ hq => hq.elim, fun _ _ => rfl⟩⟩
  tied := ⟨.initial, fun _ => rfl⟩
  denotes := { sound := .new, acceptable := fun _ _ hlist => (nomatch hlist), ranges := fun _ => rfl }

/-- The images of a sound cache have exact watchers. -/
theorem Inv.exact (h : Inv s) : ExactAll s := fun id image himage =>
  ((h.slots id).kept image himage).exact image himage

/-- A slot is as it was. -/
structure Same (s s' : Cache τ) (id : τ) : Prop where
  images : s'.images id = s.images id
  counts : ∀ q, (s'.held q).count id = (s.held q).count id

/-- What is said about a slot that is as it was. -/
theorem Same.kept (h : Same s s' id) (hkept : Kept s id image) : Kept s' id image where
  stored := h.images.trans hkept.stored
  sound := hkept.sound
  watched := ⟨fun q hq => (h.counts q).trans (hkept.watched.on q hq),
    fun q hq => (h.counts q).trans (hkept.watched.off q hq)⟩

theorem Same.slotOk (h : Same s s' id) (hslot : SlotOk s id) : SlotOk s' id where
  kept := fun image himage => h.kept (hslot.kept image (h.images ▸ himage))
  absent := fun hnone => by
    have hwatched := hslot.absent (h.images ▸ hnone)
    exact ⟨fun _ hq => hq.elim, fun q hq => (h.counts q).trans (hwatched.off q hq)⟩

theorem Same.exactAt (h : Same s s' id) (hexact : ExactAt s' id) : ExactAt s id := by
  intro image himage
  have hgood := hexact image (h.images.trans himage)
  simpa only [h.counts] using hgood

theorem Same.trans {s'' : Cache τ} (h : Same s s' id) (h' : Same s' s'' id) : Same s s'' id :=
  ⟨h'.images.trans h.images, fun q => (h'.counts q).trans (h.counts q)⟩

/-- A slot that holds a kept image. -/
theorem Kept.slotOk (h : Kept s id image) : SlotOk s id where
  kept := fun image' himage => by
    obtain rfl := Option.some.inj (h.stored.symm.trans himage)
    exact h
  absent := fun hnone => absurd (h.stored.symm.trans hnone) (by simp)

/-! ### One image -/

/-- A call on one image leaves the other slots alone. -/
theorem Changes.same {image' : Image τ} {watched' : Set ℕ} (h : Changes s s' id image' watched')
    {o : τ} (ho : o ≠ id) : Same s s' o := ⟨h.images o ho, h.counts o ho⟩

/-- The registered images and their ranges are the same. -/
theorem Changes.book {image' : Image τ} {watched' : Set ℕ} (h : Changes s s' id image' watched')
    (himage : s.images id = some image) (hdata : image'.data = image.data)
    (hregistered : image'.registered = image.registered) : s'.book = s.book := by
  ext o : 1
  unfold Cache.book
  by_cases ho : o = id
  · subst ho
    rw [h.stored, himage, Option.bind_some, Option.bind_some, hdata, hregistered]
  · rw [h.images o ho]

/-- A call on one image keeps the invariant if it may be made. -/
theorem Inv.of_outcome (h : Inv s) {Safe : Prop} (himage : s.images id = some image)
    (houtcome : Outcome s s' id image Safe) : (Safe → Inv s') ∧ (ExactAll s' → Safe) := by
  obtain ⟨image', watched', hchanges, hdata, hregistered⟩ := houtcome.changes
  refine ⟨fun hsafe => ?_, fun hexact => houtcome.safe (hexact id)⟩
  refine ⟨fun o => ?_, hchanges.tied h.tied, ?_⟩
  · by_cases ho : o = id
    · subst ho
      obtain ⟨image₁, hkept⟩ := houtcome.kept hsafe
      exact hkept.slotOk
    · exact (hchanges.same ho).slotOk (h.slots o)
  · rw [hchanges.index, hchanges.book himage hdata hregistered]
    exact h.denotes

/-! ### `InvalidateCpuAliases` -/

/-- **`FindImagesInRegion`** finds registered images with bytes on the pages of the range. -/
theorem Inv.findImagesInRegion (h : Inv s) (address size : ℕ) :
    (s.findImagesInRegion address size).Nodup ∧ ∀ id ∈ s.findImagesInRegion address size,
      ∃ image, s.images id = some image ∧ image.registered = true ∧
        image.SharesPage address size := by
  unfold Cache.findImagesInRegion PageOwnerIndex.Index.queryCandidates
  by_cases hvalid : Valid address size
  · obtain ⟨hnodup, hmem⟩ := h.denotes.queryImpl_spec hvalid false fun _ => true
    refine ⟨hnodup, fun id hid => ?_⟩
    obtain ⟨-, ranges, hbook, hhits⟩ := (hmem id).1 hid
    obtain ⟨image, himage, hranges⟩ := Option.bind_eq_some_iff.1 hbook
    obtain ⟨hregistered, hranges⟩ := Option.ite_none_right_eq_some.1 hranges
    obtain rfl := Option.some.inj hranges
    refine ⟨image, himage, hregistered, ?_⟩
    -- a hit is a byte of the image on a page of the range
    obtain ⟨a, ⟨range, hrange, hcovers⟩, hfirst, hlast⟩ := hhits
    obtain rfl := List.mem_singleton.1 hrange
    exact ⟨a, hcovers.1, hcovers.2, hfirst, hlast⟩
  · rw [PageOwnerIndex.queryImpl_of_not_valid _ hvalid]
    exact ⟨List.nodup_nil, fun _ hid => absurd hid List.not_mem_nil⟩

/-- The loop over images that are there once each. -/
structure Loop (s s' : Cache τ) (ids : List τ) (Safe : Image τ → Prop) : Prop where
  same : ∀ o ∉ ids, Same s s' o
  index : s'.imageOwnerIndex = s.imageOwnerIndex
  tied : Tied s → Tied s'
  data : ∀ id ∈ ids, ∀ image, s.images id = some image → ∃ image', s'.images id = some image' ∧
    image'.data = image.data ∧ image'.registered = image.registered
  kept : ∀ id ∈ ids, ∀ image, s.images id = some image → Safe image → SlotOk s' id
  safe : ∀ id ∈ ids, ∀ image, s.images id = some image → ExactAt s' id → Safe image

/-- **The loop of `InvalidateCpuAliases`**: each image is dealt with by itself. -/
theorem invalidateCpuAliases_loop {address size : ℕ} {ids : List τ} (hnodup : ids.Nodup)
    (hids : ∀ id ∈ ids, ∃ image, Kept s id image ∧ image.registered = true ∧
      image.SharesPage address size)
    (hop : ids.foldlM (Cache.invalidateCpuAlias env address size) s = some s') :
    Loop s s' ids (Image.WriteSafe · address size) := by
  induction ids generalizing s with
  | nil =>
    cases hop
    exact {
      same := fun _ _ => ⟨rfl, fun _ => rfl⟩
      index := rfl
      tied := fun ht => ht
      data := fun _ hid => absurd hid List.not_mem_nil
      kept := fun _ hid => absurd hid List.not_mem_nil
      safe := fun _ hid => absurd hid List.not_mem_nil }
  | cons id ids ih =>
    rw [List.foldlM_cons] at hop
    obtain ⟨s₁, hfirst, hop⟩ := Option.bind_eq_some_iff.1 hop
    obtain ⟨image, hkept, hregistered, hshares⟩ := hids id List.mem_cons_self
    obtain ⟨hnotin, hrest⟩ := List.nodup_cons.1 hnodup
    have houtcome := invalidateCpuAlias_outcome hkept hregistered hshares hfirst
    obtain ⟨image', watched', hchanges, hdata, hregistered'⟩ := houtcome.changes
    have hne : ∀ o ∈ ids, o ≠ id := fun o ho heq => hnotin (heq ▸ ho)
    have hloop := ih hrest (fun o ho => by
      obtain ⟨image, hkept, hok⟩ := hids o (List.mem_cons_of_mem _ ho)
      exact ⟨image, (hchanges.same (hne o ho)).kept hkept, hok⟩) hop
    have hlater := hloop.same id hnotin
    refine {
      same := fun o ho => ?_
      index := hloop.index.trans hchanges.index
      tied := fun ht => hloop.tied (hchanges.tied ht)
      data := fun o ho image₁ himage₁ => ?_
      kept := fun o ho image₁ himage₁ hsafe => ?_
      safe := fun o ho image₁ himage₁ hexact => ?_ }
    · rw [List.mem_cons, not_or] at ho
      exact (hchanges.same ho.1).trans (hloop.same o ho.2)
    · obtain rfl | ho := List.mem_cons.1 ho
      · obtain rfl := Option.some.inj (hkept.stored.symm.trans himage₁)
        exact ⟨image', hlater.images.trans hchanges.stored, hdata, hregistered'⟩
      · exact hloop.data o ho image₁ ((hchanges.images o (hne o ho)).trans himage₁)
    · obtain rfl | ho := List.mem_cons.1 ho
      · obtain rfl := Option.some.inj (hkept.stored.symm.trans himage₁)
        obtain ⟨image₂, hkept₂⟩ := houtcome.kept hsafe
        exact (hlater.kept hkept₂).slotOk
      · exact hloop.kept o ho image₁ ((hchanges.images o (hne o ho)).trans himage₁) hsafe
    · obtain rfl | ho := List.mem_cons.1 ho
      · obtain rfl := Option.some.inj (hkept.stored.symm.trans himage₁)
        exact houtcome.safe (hlater.exactAt hexact)
      · exact hloop.safe o ho image₁ ((hchanges.images o (hne o ho)).trans himage₁) hexact

/-- `InvalidateCpuAliases` keeps the invariant if it may be called for each image it finds. -/
theorem Inv.invalidateCpuAliases (h : Inv s) {address size : ℕ}
    (hop : s.invalidateCpuAliases env address size = some s') :
    ((∀ id ∈ s.findImagesInRegion address size, ∀ image, s.images id = some image →
      image.WriteSafe address size) → Inv s') ∧
    (ExactAll s' → ∀ id ∈ s.findImagesInRegion address size, ∀ image, s.images id = some image →
      image.WriteSafe address size) := by
  obtain ⟨hnodup, hfound⟩ := h.findImagesInRegion address size
  have hloop := invalidateCpuAliases_loop hnodup (fun id hid => by
    obtain ⟨image, himage, hok⟩ := hfound id hid
    exact ⟨image, (h.slots id).kept image himage, hok⟩) hop
  refine ⟨fun hsafe => ⟨fun o => ?_, hloop.tied h.tied, ?_⟩,
    fun hexact id hid image himage => hloop.safe id hid image himage (hexact id)⟩
  · by_cases ho : o ∈ s.findImagesInRegion address size
    · obtain ⟨image, himage, -⟩ := hfound o ho
      exact hloop.kept o ho image himage (hsafe o ho image himage)
    · exact (hloop.same o ho).slotOk (h.slots o)
  · -- no image is registered or unregistered
    have hbook : s'.book = s.book := by
      ext o : 1
      unfold Cache.book
      by_cases ho : o ∈ s.findImagesInRegion address size
      · obtain ⟨image, himage, -⟩ := hfound o ho
        obtain ⟨image', himage', hdata, hregistered⟩ := hloop.data o ho image himage
        rw [himage, himage', Option.bind_some, Option.bind_some, hdata, hregistered]
      · rw [(hloop.same o ho).images]
    rw [hloop.index, hbook]
    exact h.denotes

/-! ### Tracking and refreshing -/

/-- The image is sound, and if it is registered, all of its pages have watchers. -/
structure Refreshed (s s' : Cache τ) (id : τ) (image image' : Image τ) : Prop where
  changes : Changes s s' id image' image'.trackedPages
  data : image'.data = image.data
  registered : image'.registered = image.registered
  sound : image'.Sound
  full : image'.registered = true → ∀ q ∈ image'.pages, q ∈ image'.trackedPages

theorem Refreshed.kept {image' : Image τ} (h : Refreshed s s' id image image') :
    Kept s' id image' := h.changes.kept rfl h.sound

theorem Refreshed.trans {s'' : Cache τ} {image' image'' : Image τ}
    (h : Refreshed s s' id image image') (h' : Refreshed s' s'' id image' image'') :
    Refreshed s s'' id image image'' :=
  ⟨h.changes.trans h'.changes, h'.data.trans h.data, h'.registered.trans h.registered, h'.sound,
    h'.full⟩

/-- After a refresh, the flags of the image may be anything. -/
theorem Refreshed.store {image' : Image τ} (h : Refreshed s s' id image image')
    (cpu maybe valid : Bool) (hash : UInt64) :
    Refreshed s (s'.store id { image' with
        cpuDirty := cpu, maybeCpuDirty := maybe, maybeHashValid := valid, maybeCpuHash := hash })
      id image { image' with
        cpuDirty := cpu, maybeCpuDirty := maybe, maybeHashValid := valid, maybeCpuHash := hash } where
  changes := h.changes.trans (.store h.changes.watched _)
  data := h.data
  registered := h.registered
  sound := h.sound.congr rfl rfl rfl rfl fun hr q hq hq' => absurd (h.full hr q hq) hq'
  full := h.full

/-- **`TrackImage`**. -/
theorem trackImage_refreshed (h : Kept s id image) (hop : s.trackImage env id = some s') :
    ∃ image', Refreshed s s' id image image' := by
  cases hregistered : image.registered with
  | true =>
    have hchanges := trackImage_spec h hregistered hop
    exact ⟨image.full, hchanges, rfl, rfl, h.sound.full hregistered, fun _ _ hq => hq⟩
  | false =>
    rw [trackImage_idle h.stored hregistered] at hop
    cases hop
    exact ⟨image, .refl h.stored h.watched, rfl, rfl, h.sound,
      fun hyes => absurd (hyes.symm.trans hregistered) (by simp)⟩

/-- `RefreshComplete`, after the image has been tracked. -/
theorem Refreshed.completeRefresh {s₁ : Cache τ} {image₁ : Image τ}
    (h : Refreshed s s₁ id image image₁) (hop : s₁.completeRefresh id = some s') :
    ∃ image', Refreshed s s' id image image' := by
  unfold Cache.completeRefresh at hop
  rw [h.kept.stored, Option.bind_some] at hop
  split at hop
  · next hdirty =>
    obtain ⟨image', himage', rfl⟩ := Option.map_eq_some_iff.1 hop
    unfold Image.refreshComplete at himage'
    rw [if_pos hdirty] at himage'
    obtain rfl := Option.some.inj himage'
    exact ⟨_, h.store false false false image₁.maybeCpuHash⟩
  · cases hop
    exact ⟨image₁, h⟩

/-- **`InitializeImage`**. -/
theorem initializeImage_refreshed (h : Kept s id image)
    (hop : s.initializeImage env id = some s') : ∃ image', Refreshed s s' id image image' := by
  unfold Cache.initializeImage at hop
  rw [h.stored, Option.bind_some] at hop
  split at hop
  · next hempty =>
    -- a registered image has bytes
    cases hop
    refine ⟨image, .refl h.stored h.watched, rfl, rfl, h.sound, fun hr => ?_⟩
    have hplaced := h.sound.placed hr
    obtain hzero | hzero := decide_eq_true_iff.1 hempty
    · exact absurd hzero hplaced.address_pos.ne'
    · exact absurd hzero hplaced.size_pos.ne'
  · obtain ⟨s₁, htrack, hop⟩ := Option.bind_eq_some_iff.1 hop
    obtain ⟨image₁, h₁⟩ := trackImage_refreshed h htrack
    split at hop
    · exact h₁.completeRefresh hop
    · split at hop
      · cases hop
        exact ⟨image₁, h₁⟩
      · exact h₁.completeRefresh hop

/-- The end of `RefreshImage`. -/
theorem Refreshed.finishRefresh {s₁ : Cache τ} {image₁ : Image τ} {bufferModified : Bool}
    (h : Refreshed s s₁ id image image₁)
    (hop : s₁.finishRefresh env id bufferModified = some s') :
    ∃ image', Refreshed s s' id image image' := by
  unfold Cache.finishRefresh at hop
  rw [h.kept.stored, Option.bind_some] at hop
  dsimp only at hop
  split at hop
  · split at hop
    · cases hop
    · cases hop
      exact ⟨image₁, h⟩
  · split at hop
    · cases hop
      exact ⟨image₁, h⟩
    · obtain ⟨image', h'⟩ := initializeImage_refreshed h.kept hop
      exact ⟨image', h.trans h'⟩

/-- **`RefreshImage`**. -/
theorem refreshImage_refreshed {bufferModified : Bool} (h : Kept s id image)
    (hop : s.refreshImage env id bufferModified = some s') :
    ∃ image', Refreshed s s' id image image' := by
  unfold Cache.refreshImage at hop
  obtain ⟨s₁, htrack, hop⟩ := Option.bind_eq_some_iff.1 hop
  obtain ⟨image₁, h₁⟩ := trackImage_refreshed h htrack
  rw [h₁.kept.stored, Option.bind_some] at hop
  split at hop
  · obtain ⟨hash, -, hop⟩ := Option.bind_eq_some_iff.1 hop
    split at hop
    · next hneeds =>
      -- the first hash after the image was marked
      obtain ⟨image₂, himage₂, rfl⟩ := Option.map_eq_some_iff.1 hop
      unfold Image.setMaybeCpuHash at himage₂
      rw [if_pos hneeds] at himage₂
      obtain rfl := Option.some.inj himage₂
      exact ⟨_, h₁.store image₁.cpuDirty image₁.maybeCpuDirty true hash⟩
    · -- the hash says whether the edges have been written
      obtain ⟨image₂, himage₂, hop⟩ := Option.bind_eq_some_iff.1 hop
      unfold Image.resolveMaybeCpuHash at himage₂
      obtain ⟨-, himage₂⟩ := Option.ite_none_left_eq_some.1 himage₂
      obtain rfl := Option.some.inj himage₂
      exact (h₁.store _ false false image₁.maybeCpuHash).finishRefresh hop
  · exact h₁.finishRefresh hop

/-- **`MarkGpuWritten`**. -/
theorem markGpuWritten_refreshed (h : Kept s id image)
    (hop : s.markGpuWritten env id = some s') : ∃ image', Refreshed s s' id image image' := by
  unfold Cache.markGpuWritten at hop
  rw [h.stored, Option.bind_some] at hop
  obtain ⟨-, hop⟩ := Option.ite_none_left_eq_some.1 hop
  obtain ⟨s₁, htrack, hop⟩ := Option.bind_eq_some_iff.1 hop
  obtain ⟨image₁, h₁⟩ := trackImage_refreshed h htrack
  exact h₁.completeRefresh hop

/-- A refresh keeps the invariant. -/
theorem Inv.of_refreshed (h : Inv s) {image' : Image τ} (himage : s.images id = some image)
    (hrefreshed : Refreshed s s' id image image') : Inv s' :=
  (h.of_outcome himage (.of_sound hrefreshed.changes hrefreshed.data hrefreshed.registered rfl
    hrefreshed.sound trivial)).1 trivial

/-- `TrackImageHead` and `TrackImageTail` by themselves. -/
theorem trackImageHead_outcome (h : Kept s id image) (hop : s.trackImageHead env id = some s') :
    Outcome s s' id image True := by
  cases hregistered : image.registered with
  | true =>
    exact .of_sound (trackImageHead_spec h hregistered hop) rfl rfl rfl
      (h.sound.fromHead hregistered) trivial
  | false =>
    unfold Cache.trackImageHead at hop
    rw [h.stored, Option.bind_some, hregistered, Bool.not_false, if_pos rfl] at hop
    cases hop
    exact .idle h trivial

theorem trackImageTail_outcome (h : Kept s id image) (hop : s.trackImageTail env id = some s') :
    Outcome s s' id image True := by
  cases hregistered : image.registered with
  | true =>
    have hspec := trackImageTail_spec h hregistered hop
    have hplaced := h.sound.placed hregistered
    have htracked : image.isTracked = true := by
      by_contra hno
      rw [Bool.not_eq_true] at hno
      -- the end of the image is not `0`: the call does not return
      have hend : rangeEnd image.data ≠ image.trackAddrEnd := by
        rw [h.sound.trackAddrEnd_eq hno]
        exact (Nat.add_pos_left hplaced.address_pos _).ne'
      unfold Cache.trackImageTail at hop
      rw [h.stored, Option.bind_some, if_neg (by rw [hregistered]; simp), if_neg hend,
        if_pos (.inl (by rw [hno]; rfl))] at hop
      cases hop
    exact .of_sound hspec rfl rfl rfl (h.sound.toTail htracked) trivial
  | false =>
    unfold Cache.trackImageTail at hop
    rw [h.stored, Option.bind_some, hregistered, Bool.not_false, if_pos rfl] at hop
    cases hop
    exact .idle h trivial

/-! ### Images come and go -/

/-- **`RegisterImage`**, of an image that has no watchers. -/
theorem Inv.registerImage (h : Inv s) (himage : s.images id = some image)
    (huntracked : image.trackAddr = 0 ∧ image.trackAddrEnd = 0) (hdirty : image.isCpuDirty = true)
    (hnode : ∀ item ∈ s.imageOwnerIndex.registrations, item.1 ≠ env.node)
    (hop : s.registerImage env id = some s') : Inv s' := by
  unfold Cache.registerImage at hop
  rw [himage, Option.bind_some] at hop
  obtain ⟨hok, hop⟩ := Option.ite_none_left_eq_some.1 hop
  obtain ⟨⟨index, ok⟩, hregister, hop⟩ := Option.bind_eq_some_iff.1 hop
  obtain ⟨rfl, hop⟩ := Option.ite_none_right_eq_some.1 hop
  obtain rfl := Option.some.inj hop
  have hdenotes := h.denotes.step (.register env.node hnode hregister)
  have hwatched := ((h.slots id).kept image himage).watched
  have hstore := Changes.store hwatched { image with registered := true }
  -- the index has taken the range, so it ends in the address space
  have hvalid := (hdenotes.acceptable id [image.data] (Function.update_self ..)).2 image.data
    (List.mem_singleton_self _)
  simp only [Bool.or_eq_true, not_or, Bool.not_eq_true, rangeEmpty, decide_eq_false_iff_not] at hok
  have hsound : ({ image with registered := true } : Image τ).Sound := by
    refine Image.sound_of_untracked (fun _ => ⟨?_, hvalid.1, hvalid.2⟩) ?_ ?_ fun _ => hdirty
    · exact Nat.pos_of_ne_zero hok.2.1
    · exact decide_eq_false fun hboth => hboth.1 huntracked.1
    · exact pagesIn_empty (show image.trackAddrEnd ≤ image.trackAddr by
        rw [huntracked.1, huntracked.2])
  refine ⟨fun o => ?_, ⟨h.tied.coherent, h.tied.count⟩, ?_⟩
  · by_cases ho : o = id
    · subst ho
      exact Kept.slotOk ⟨hstore.stored, hsound, ⟨hwatched.on, hwatched.off⟩⟩
    · exact (Same.slotOk ⟨hstore.images o ho, fun _ => rfl⟩ (h.slots o))
  · rw [@book_update _ _ s _ id (some { image with registered := true }) rfl]
    exact hdenotes

/-- **`InsertImage`**. -/
theorem Inv.insertImage (h : Inv s) {data : ByteRange} {compressed : Bool} {samples : ℕ}
    (hnode : ∀ item ∈ s.imageOwnerIndex.registrations, item.1 ≠ env.node)
    (hop : s.insertImage env id data compressed samples = some s') : Inv s' := by
  unfold Cache.insertImage at hop
  obtain ⟨hfree, hop⟩ := Option.ite_none_left_eq_some.1 hop
  have hnone : s.images id = none := Option.not_isSome_iff_eq_none.1 hfree
  dsimp only at hop
  -- the image is not registered yet
  generalize himage : ({ data := data, compressed := compressed, samples := samples
                         registered := false, depthId := none, trackAddr := 0, trackAddrEnd := 0
                         cpuDirty := !rangeEmpty data, maybeCpuDirty := false
                         maybeHashValid := false, maybeCpuHash := 0 } : Image τ) = image at hop
  have hfields : image.registered = false ∧ (image.trackAddr = 0 ∧ image.trackAddrEnd = 0) ∧
      image.isCpuDirty = !rangeEmpty data := by
    subst himage
    exact ⟨rfl, ⟨rfl, rfl⟩, Bool.or_false _⟩
  have hwatched := (h.slots id).absent hnone
  have hstore := Changes.store hwatched image
  have hempty : image.trackedPages = ∅ := pagesIn_empty (by rw [hfields.2.1.1, hfields.2.1.2])
  have hsound : image.Sound := by
    refine Image.sound_of_untracked (fun hr => ?_) ?_ hempty fun hr => ?_
    · exact absurd (hr.symm.trans hfields.1) (by simp)
    · exact decide_eq_false fun hboth => hboth.1 hfields.2.1.1
    · exact absurd (hr.symm.trans hfields.1) (by simp)
  have hinv : Inv (s.store id image) := by
    refine ⟨fun o => ?_, ⟨h.tied.coherent, h.tied.count⟩, ?_⟩
    · by_cases ho : o = id
      · subst ho
        exact (hstore.kept hempty.symm hsound).slotOk
      · exact (hstore.same ho).slotOk (h.slots o)
    · -- the book has no entry for it, as before
      rw [@book_update _ _ s _ id (some image) rfl, Option.bind_some, hfields.1,
        if_neg Bool.false_ne_true]
      have hbook : s.book id = none := by
        unfold Cache.book
        rw [hnone, Option.bind_none]
      rw [← hbook, Function.update_eq_self]
      exact h.denotes
  split at hop
  · next hbytes =>
    exact hinv.registerImage hstore.stored hfields.2.1 (hfields.2.2.trans hbytes) hnode hop
  · cases hop
    exact hinv

/-- **`UnregisterImage`**. -/
theorem Inv.unregisterImage (h : Inv s) (himage : s.images id = some image)
    (hop : s.unregisterImage env id = some s') : Inv s' := by
  have hkept := (h.slots id).kept image himage
  unfold Cache.unregisterImage at hop
  rw [himage, Option.bind_some] at hop
  split at hop
  · cases hop
    exact h
  · obtain ⟨s₁, huntrack, hop⟩ := Option.bind_eq_some_iff.1 hop
    have hspec := untrackImage_spec hkept huntrack
    generalize himage₁ : (if image.isTracked then image.dropped else image) = image₁ at hspec
    have hfields : image₁.isTracked = false ∧ image₁.trackedPages = ∅ := by
      subst himage₁
      cases htracked : image.isTracked with
      | true => exact ⟨rfl, pagesIn_empty le_rfl⟩
      | false => exact ⟨htracked, hkept.sound.empty htracked⟩
    rw [hspec.stored] at hop
    dsimp only at hop
    rw [Option.bind_some] at hop
    obtain ⟨hok, hop⟩ := Option.ite_none_right_eq_some.1 hop
    obtain rfl := Option.some.inj hop
    have hstore := Changes.store hspec.watched { image₁ with registered := false }
    have hsound : ({ image₁ with registered := false } : Image τ).Sound :=
      Image.sound_of_untracked (fun hr => (nomatch hr)) hfields.1 hfields.2 fun hr => (nomatch hr)
    have htied := hspec.tied h.tied
    refine ⟨fun o => ?_, ⟨htied.coherent, htied.count⟩, ?_⟩
    · by_cases ho : o = id
      · subst ho
        refine Kept.slotOk ⟨hstore.stored, hsound, ?_⟩
        have hwatched := hspec.watched
        rw [← hfields.2] at hwatched
        exact ⟨hwatched.on, hwatched.off⟩
      · refine Same.slotOk ⟨?_, fun q => hspec.counts o ho q⟩ (h.slots o)
        exact (hstore.images o ho).trans (hspec.images o ho)
    · have hstep := h.denotes.step (.unregister id)
      rw [← hspec.index, hok] at hstep
      rw [@book_update _ _ s₁ _ id (some { image₁ with registered := false }) rfl]
      have hbook : s₁.book = Function.update s.book id (s₁.book id) := by
        ext o : 1
        rw [Function.update_apply]
        split
        · next ho => rw [ho]
        · next ho =>
          unfold Cache.book
          rw [hspec.images o ho]
      rw [hbook, Function.update_idem]
      exact hstep

/-- The slot of an image that is not registered is emptied. -/
theorem Inv.eraseSlot (h : Inv s) (himage : s.images id = some image)
    (hop : s.eraseSlot id = some s') : Inv s' := by
  have hkept := (h.slots id).kept image himage
  unfold Cache.eraseSlot at hop
  rw [himage, Option.bind_some] at hop
  obtain ⟨hunregistered, hop⟩ := Option.ite_none_left_eq_some.1 hop
  obtain rfl := Option.some.inj hop
  have hempty : image.trackedPages = ∅ := by
    refine hkept.sound.empty ?_
    rw [Bool.eq_false_iff]
    exact fun htracked => hunregistered (hkept.sound.registered htracked)
  have hwatched := hkept.watched
  rw [hempty] at hwatched
  refine ⟨fun o => ?_, ⟨h.tied.coherent, h.tied.count⟩, ?_⟩
  · by_cases ho : o = id
    · subst ho
      refine ⟨fun image' himage' => ?_, fun _ => ⟨hwatched.on, hwatched.off⟩⟩
      exact absurd (himage'.symm.trans (Function.update_self ..)) (by simp)
    · exact Same.slotOk ⟨Function.update_of_ne ho .., fun _ => rfl⟩ (h.slots o)
  · rw [@book_update _ _ s _ id none rfl, Option.bind_none]
    have hbook : s.book id = none := by
      unfold Cache.book
      rw [himage, Option.bind_some, if_neg hunregistered]
    rw [← hbook, Function.update_eq_self]
    exact h.denotes

/-- **`AssociateDepth`**. -/
theorem associateDepth_outcome {depthId : τ} (h : Kept s id image)
    (hop : s.associateDepth id depthId = some s') : Outcome s s' id image True := by
  unfold Cache.associateDepth at hop
  rw [h.stored, Option.map_some] at hop
  obtain rfl := Option.some.inj hop
  refine .of_sound (.store h.watched _) rfl rfl rfl ?_ trivial
  exact h.sound.congr rfl rfl rfl rfl h.sound.dirty

/-- A call for another part of the renderer. -/
theorem Inv.otherCall (h : Inv s) {call : Call} (hop : s.otherCall env call = some s') :
    Inv s' := by
  unfold Cache.otherCall at hop
  split at hop
  · next manager hmanager =>
    obtain rfl := Option.some.inj hop
    obtain ⟨span, -, hupdate⟩ := PageManager.Call.exec_ok h.tied.coherent hmanager
    have hsame : ∀ o, Same s { s with
        pageManager := manager
        others := fun page => s.others page +
          if call.isRead = false ∧ page ∈ call.pages then callDelta call.track else 0 } o :=
      fun _ => ⟨rfl, fun _ => rfl⟩
    refine ⟨fun o => (hsame o).slotOk (h.slots o), ⟨hupdate.coherent, fun q => ?_⟩, h.denotes⟩
    dsimp only
    rw [hupdate.count false q, h.tied.count q]
    by_cases hpage : call.isRead = false ∧ q ∈ call.pages
    · rw [if_pos hpage, if_pos ⟨hpage.1.symm, hpage.2⟩]
      omega
    · rw [if_neg hpage, if_neg fun hc => hpage ⟨hc.1.symm, hc.2⟩]
      omega
  · cases hop

/-! ### Steps -/

/-- The condition on a call, in the state before it. -/
def Careful (s : Cache τ) : Event τ → Prop
  | .untrackImage id => ∀ image, s.images id = some image → image.UntrackSafe
  | .untrackImageHead id => ∀ image, s.images id = some image → image.HeadSafe
  | .untrackImageTail id => ∀ image, s.images id = some image → image.TailSafe
  | .invalidateCpuAliases address size => ∀ id ∈ s.findImagesInRegion address size,
      ∀ image, s.images id = some image → image.WriteSafe address size
  | _ => True

omit [DecidableEq τ] in
/-- A call on a slot that is empty does not return. -/
theorem exists_image {f : Image τ → Option (Cache τ)}
    (hop : (s.images id).bind f = some s') : ∃ image, s.images id = some image := by
  obtain ⟨image, himage, -⟩ := Option.bind_eq_some_iff.1 hop
  exact ⟨image, himage⟩

/-- **The step lemma.** A careful call keeps the invariant, and a call after which all watchers
are exact is careful. -/
theorem Inv.step (h : Inv s) {e : Event τ} (hstep : Step s e s') :
    (Careful s e → Inv s') ∧ (ExactAll s' → Careful s e) := by
  obtain ⟨env, hnode, hop⟩ := hstep
  cases e with
  | trackImage id =>
    obtain ⟨image, himage⟩ := exists_image hop
    obtain ⟨image', hrefreshed⟩ := trackImage_refreshed ((h.slots id).kept image himage) hop
    exact ⟨fun _ => h.of_refreshed himage hrefreshed, fun _ => trivial⟩
  | trackImageHead id =>
    obtain ⟨image, himage⟩ := exists_image hop
    exact h.of_outcome himage (trackImageHead_outcome ((h.slots id).kept image himage) hop)
  | trackImageTail id =>
    obtain ⟨image, himage⟩ := exists_image hop
    exact h.of_outcome himage (trackImageTail_outcome ((h.slots id).kept image himage) hop)
  | untrackImage id =>
    obtain ⟨image, himage⟩ := exists_image hop
    refine h.of_outcome himage
      ((untrackImage_outcome ((h.slots id).kept image himage) hop).congr ?_)
    exact ⟨fun hsafe _ himage' => Option.some.inj (himage.symm.trans himage') ▸ hsafe,
      fun hall => hall image himage⟩
  | untrackImageHead id =>
    obtain ⟨image, himage⟩ := exists_image hop
    refine h.of_outcome himage
      ((untrackImageHead_outcome ((h.slots id).kept image himage) hop).congr ?_)
    exact ⟨fun hsafe _ himage' => Option.some.inj (himage.symm.trans himage') ▸ hsafe,
      fun hall => hall image himage⟩
  | untrackImageTail id =>
    obtain ⟨image, himage⟩ := exists_image hop
    refine h.of_outcome himage
      ((untrackImageTail_outcome ((h.slots id).kept image himage) hop).congr ?_)
    exact ⟨fun hsafe _ himage' => Option.some.inj (himage.symm.trans himage') ▸ hsafe,
      fun hall => hall image himage⟩
  | invalidateCpuAliases address size => exact h.invalidateCpuAliases hop
  | insertImage id data compressed samples =>
    exact ⟨fun _ => h.insertImage hnode hop, fun _ => trivial⟩
  | unregisterImage id =>
    obtain ⟨image, himage⟩ := exists_image hop
    exact ⟨fun _ => h.unregisterImage himage hop, fun _ => trivial⟩
  | eraseSlot id =>
    obtain ⟨image, himage⟩ := exists_image hop
    exact ⟨fun _ => h.eraseSlot himage hop, fun _ => trivial⟩
  | associateDepth id depthId =>
    obtain ⟨image, himage, -⟩ := Option.map_eq_some_iff.1 hop
    exact h.of_outcome himage (associateDepth_outcome ((h.slots id).kept image himage) hop)
  | initializeImage id =>
    obtain ⟨image, himage⟩ := exists_image hop
    obtain ⟨image', hrefreshed⟩ := initializeImage_refreshed ((h.slots id).kept image himage) hop
    exact ⟨fun _ => h.of_refreshed himage hrefreshed, fun _ => trivial⟩
  | refreshImage id bufferModified =>
    have htrack : ∃ s₁, s.trackImage env id = some s₁ := by
      obtain ⟨s₁, htrack, -⟩ := Option.bind_eq_some_iff.1 hop
      exact ⟨s₁, htrack⟩
    obtain ⟨s₁, htrack⟩ := htrack
    obtain ⟨image, himage⟩ := exists_image htrack
    obtain ⟨image', hrefreshed⟩ := refreshImage_refreshed ((h.slots id).kept image himage) hop
    exact ⟨fun _ => h.of_refreshed himage hrefreshed, fun _ => trivial⟩
  | markGpuWritten id =>
    obtain ⟨image, himage⟩ := exists_image hop
    obtain ⟨image', hrefreshed⟩ := markGpuWritten_refreshed ((h.slots id).kept image himage) hop
    exact ⟨fun _ => h.of_refreshed himage hrefreshed, fun _ => trivial⟩
  | otherCall call => exact ⟨fun _ => h.otherCall hop, fun _ => trivial⟩

/-- A step that is careful. -/
def CarefulStep (s : Cache τ) (e : Event τ) (s' : Cache τ) : Prop := Step s e s' ∧ Careful s e

/-- The invariant along a run of careful steps. -/
theorem Inv.run {events : List (Event τ)} (hrun : Run CarefulStep .new events s) : Inv s :=
  hrun.invariant .new fun _ _ _ h hstep => (h.step hstep.1).1 hstep.2

/-- **The watchers of images are exact** along every run of careful calls, and a call that is not
careful is one after which they are not. The counters of the page manager are those of images and
of others. -/
theorem watchers_exact {events : List (Event τ)} (hrun : Run CarefulStep .new events s) :
    ExactAll s ∧
    (∀ q, ((s.pageManager.page q).count false : ℤ) = s.others q + (s.held q).length) ∧
    ∀ e s', Step s e s' → (ExactAll s' ↔ Careful s e) := by
  have hinv := Inv.run hrun
  refine ⟨hinv.exact, hinv.tied.count, fun e s' hstep => ?_⟩
  obtain ⟨hkeeps, hneeds⟩ := hinv.step hstep
  exact ⟨hneeds, fun hcareful => (hkeeps hcareful).exact⟩

/-! ### A run -/

/-- A host that accepts all, a backing that nobody reads, and a node for a registration. -/
def quietEnv (node : ℕ) : Env := ⟨PageManager.acceptAll, fun _ _ => none, fun _ => 0, node⟩

/-- An image on the pages `1` to `3`, with an edge on the first and the last. -/
def tripleRange : ByteRange := ⟨0x1800, 0x2000⟩

/-- The node is not in use. -/
def freshNode (node : ℕ) (s : Cache ℕ) : Bool :=
  s.imageOwnerIndex.registrations.all fun item => item.1 != node

/-- The node of the next registration. -/
theorem freshNode_spec {node : ℕ} {s : Cache ℕ} (h : freshNode node s = true) :
    ∀ item ∈ s.imageOwnerIndex.registrations, item.1 ≠ node := fun item hitem =>
  bne_iff_ne.1 (List.all_eq_true.1 h item hitem)

/-- The calls that make the image clean, and a write before it on its first page, evaluated. -/
theorem triple_eval : ∃ s₁ s₂ s₃ : Cache ℕ,
    (Event.insertImage 0 tripleRange false 1).exec (quietEnv 0) .new = some s₁ ∧
    (Event.initializeImage 0).exec (quietEnv 1) s₁ = some s₂ ∧
    (Event.invalidateCpuAliases 0x1000 8).exec (quietEnv 1) s₂ = some s₃ ∧
    freshNode 1 s₁ = true ∧ freshNode 1 s₂ = true ∧
    (s₃.images 0).any (fun image => image.registered && !image.isCpuDirty &&
      decide (image.data = tripleRange)) = true ∧ (s₃.held 1).count 0 = 0 := by
  obtain ⟨⟨s₁, s₂, s₃⟩, hrun, hp⟩ := (Option.any_eq_true _ _).1
    (show Option.any (fun r : Cache ℕ × Cache ℕ × Cache ℕ =>
        freshNode 1 r.1 && freshNode 1 r.2.1 &&
        (r.2.2.images 0).any (fun image => image.registered && !image.isCpuDirty &&
          decide (image.data = tripleRange)) && decide ((r.2.2.held 1).count 0 = 0))
      (((Event.insertImage 0 tripleRange false 1).exec (quietEnv 0) .new).bind fun s₁ =>
        ((Event.initializeImage 0).exec (quietEnv 1) s₁).bind fun s₂ =>
          ((Event.invalidateCpuAliases 0x1000 8).exec (quietEnv 1) s₂).map fun s₃ => (s₁, s₂, s₃))
      = true by decide +kernel)
  obtain ⟨_, h₁, hrun⟩ := Option.bind_eq_some_iff.1 hrun
  obtain ⟨_, h₂, hrun⟩ := Option.bind_eq_some_iff.1 hrun
  obtain ⟨_, h₃, hrun⟩ := Option.map_eq_some_iff.1 hrun
  obtain ⟨rfl, rfl, rfl⟩ : _ ∧ _ ∧ _ := by
    simpa only [Prod.mk.injEq] using hrun
  rw [Bool.and_eq_true, Bool.and_eq_true, Bool.and_eq_true, decide_eq_true_iff] at hp
  obtain ⟨⟨⟨hfresh₁, hfresh₂⟩, himage⟩, hheld⟩ := hp
  exact ⟨_, _, _, h₁, h₂, h₃, hfresh₁, hfresh₂, himage, hheld⟩

/-- The result at the image that is clean and has all its watchers: no write next to it is
careful. -/
theorem watchers_exact_triple : ∃ s : Cache ℕ,
    Run CarefulStep .new [.insertImage 0 tripleRange false 1, .initializeImage 0] s ∧
    ExactAll s ∧ ¬ Careful s (.invalidateCpuAliases 0x1000 8) := by
  obtain ⟨s₁, s₂, s₃, h₁, h₂, h₃, hfresh₁, hfresh₂, himage, hheld⟩ := triple_eval
  have hrun : Run CarefulStep .new [.insertImage 0 tripleRange false 1, .initializeImage 0] s₂ :=
    .snoc (.snoc (.nil _) ⟨⟨_, freshNode_spec rfl, h₁⟩, trivial⟩)
      ⟨⟨_, freshNode_spec hfresh₁, h₂⟩, trivial⟩
  obtain ⟨hexact, -, hiff⟩ := watchers_exact hrun
  refine ⟨s₂, hrun, hexact, fun hcareful => ?_⟩
  have hexact₃ := (hiff _ s₃ ⟨_, freshNode_spec hfresh₂, h₃⟩).2 hcareful
  -- page `1` has bytes of the image, which is clean, and no watcher
  obtain ⟨image, hstored, hok⟩ := (Option.any_eq_true _ _).1 himage
  simp only [Bool.and_eq_true, Bool.not_eq_true', decide_eq_true_eq] at hok
  have hpage : 1 ∈ image.pages := by
    rw [Image.pages, mem_pagesIn, hok.2]
    decide
  have hdirty := (hexact₃ 0 image hstored).dirty hok.1.1 1 hpage hheld
  exact absurd (hok.1.2.symm.trans hdirty) (by simp)

/-- **A write next to an image takes the watcher of its first page, and the image stays clean.** -/
theorem clean_page_unwatched : ∃ s s' : Cache ℕ,
    Run Step .new [.insertImage 0 tripleRange false 1, .initializeImage 0] s ∧
    Step s (.invalidateCpuAliases 0x1000 8) s' ∧ ∃ image, s'.images 0 = some image ∧
      image.registered = true ∧ 1 ∈ image.pages ∧ (s'.held 1).count 0 = 0 ∧
        image.isCpuDirty = false := by
  obtain ⟨s₁, s₂, s₃, h₁, h₂, h₃, hfresh₁, hfresh₂, himage, hheld⟩ := triple_eval
  obtain ⟨image, hstored, hok⟩ := (Option.any_eq_true _ _).1 himage
  simp only [Bool.and_eq_true, Bool.not_eq_true', decide_eq_true_eq] at hok
  refine ⟨s₂, s₃, .snoc (.snoc (.nil _) ⟨_, freshNode_spec rfl, h₁⟩)
    ⟨_, freshNode_spec hfresh₁, h₂⟩, ⟨_, freshNode_spec hfresh₂, h₃⟩, image, hstored, hok.1.1, ?_,
    hheld, hok.1.2⟩
  rw [Image.pages, mem_pagesIn, hok.2]
  decide

end Prosperismo.ImageTracking
