import Prosperismo.ImageTracking.Model

/-!
# What a call does to one image

`Kept` is what holds of an image between calls: the shape of its tracked range, that it is dirty
where a page of it is not watched (`Image.Sound`), and that its watchers are on the pages of the
tracked range (`Watched`). A call changes one image at a time, and `Changes` says to which image and
to which watched pages.

The specifications do not ask that the rest of the cache is in order, and they say what a call does
to an image that becomes clean without its watchers, too: `untrackImage_spec`,
`untrackImageHead_spec`, `untrackImageTail_spec` and `trackImage_spec`.
-/

namespace Prosperismo.ImageTracking

open PageManager (Manager Call Coherent callDelta pageSize pagesOf)
open PageOwnerIndex (ByteRange Index)

variable {τ : Type*}

/-! ### Pages -/

/-- The pages of a byte range. -/
def pagesIn (first last : ℕ) : Set ℕ := {q | ∃ a, first ≤ a ∧ a < last ∧ a / pageSize = q}

/-- The pages of a range are those from its first byte to its last. -/
theorem mem_pagesIn {first last q : ℕ} :
    q ∈ pagesIn first last ↔ first < last ∧ first / pageSize ≤ q ∧ q ≤ (last - 1) / pageSize := by
  constructor
  · rintro ⟨a, hfirst, hlast, rfl⟩
    exact ⟨by omega, Nat.div_le_div_right hfirst, Nat.div_le_div_right (by omega)⟩
  · rintro ⟨hlt, hle, hge⟩
    -- the first byte of the page, or of the range where that is behind it
    refine ⟨max first (q * pageSize), le_max_left _ _, ?_, ?_⟩ <;>
      simp only [pageSize] at hle hge ⊢ <;> omega

/-- The pages of a call. -/
theorem pagesOf_eq {address size : ℕ} (hpos : 0 < size) :
    pagesOf address size = pagesIn address (address + size) := by
  ext q
  rw [mem_pagesIn]
  exact ⟨fun h => ⟨by omega, h⟩, fun h => h.2⟩

/-- The pages of a range without bytes. -/
theorem pagesIn_empty {first last : ℕ} (h : last ≤ first) : pagesIn first last = ∅ := by
  ext q
  rw [mem_pagesIn]
  exact iff_of_false (by omega) (Set.notMem_empty q)

/-- The page boundary behind the first byte. -/
def headEnd (range : ByteRange) : ℕ := pageFloor (range.address + pageSize)

/-- The page boundary at or before the end. -/
def tailBegin (range : ByteRange) : ℕ := pageFloor (rangeEnd range)

/-- The head that `UntrackImageHead` takes off is one page. -/
theorem headEnd_bounds (range : ByteRange) : range.address < headEnd range ∧
    (headEnd range - 1) / pageSize = range.address / pageSize ∧
    headEnd range / pageSize = range.address / pageSize + 1 := by
  unfold headEnd pageFloor
  simp only [pageSize]
  omega

/-- The tail that `UntrackImageTail` takes off is at most one page. -/
theorem tailBegin_bounds (range : ByteRange) : tailBegin range ≤ rangeEnd range ∧
    rangeEnd range < tailBegin range + pageSize ∧ tailBegin range % pageSize = 0 := by
  unfold tailBegin pageFloor
  simp only [pageSize]
  omega

/-- A page boundary up to the end is one up to the last. -/
theorem headEnd_le_tailBegin {range : ByteRange} (h : headEnd range ≤ rangeEnd range) :
    headEnd range ≤ tailBegin range := by
  unfold headEnd tailBegin pageFloor at *
  exact Nat.mul_le_mul_right _ ((Nat.le_div_iff_mul_le (by decide)).2 h)

/-- Without the first page, the pages of a range are those from the second page on. -/
theorem head_pages (range : ByteRange) (last : ℕ) :
    pagesIn range.address last \ pagesIn range.address (headEnd range) =
      pagesIn (headEnd range) last := by
  obtain ⟨hlt, hlast, hnext⟩ := headEnd_bounds range
  ext q
  rw [Set.mem_diff, mem_pagesIn, mem_pagesIn, mem_pagesIn, hlast, hnext]
  simp only [pageSize] at hnext hlast ⊢
  omega

/-- Without the last page, the pages of a range are those up to that page. -/
theorem tail_pages (range : ByteRange) (first : ℕ) :
    pagesIn first (rangeEnd range) \ pagesIn (tailBegin range) (rangeEnd range) =
      pagesIn first (tailBegin range) := by
  obtain ⟨hle, hlt, hmod⟩ := tailBegin_bounds range
  ext q
  rw [Set.mem_diff, mem_pagesIn, mem_pagesIn, mem_pagesIn]
  simp only [pageSize] at hle hlt hmod ⊢
  omega

namespace Image

variable (image : Image τ)

/-- The pages of the tracked range. -/
def trackedPages : Set ℕ := pagesIn image.trackAddr image.trackAddrEnd

/-- The pages that have bytes of the image. -/
def pages : Set ℕ := pagesIn image.data.address (rangeEnd image.data)

/-- A range of the address space. -/
structure Placed : Prop where
  address_pos : 0 < image.data.address
  size_pos : 0 < image.data.size
  end_le : rangeEnd image.data ≤ 0x10000000000

/-- The tracked range begins with the image or with its second page, and ends with the image or
before its last page. -/
structure Shaped : Prop where
  begins : image.trackAddr = image.data.address ∨ image.trackAddr = headEnd image.data
  ends : image.trackAddrEnd = rangeEnd image.data ∨ image.trackAddrEnd = tailBegin image.data
  lt : image.trackAddr < image.trackAddrEnd

/-- What holds of an image between calls. -/
structure Sound : Prop where
  shaped : image.isTracked = true → image.Shaped
  empty : image.isTracked = false → image.trackedPages = ∅
  registered : image.isTracked = true → image.registered = true
  placed : image.registered = true → image.Placed
  /-- A page without watcher is a dirty image's. -/
  dirty : image.registered = true → ∀ q ∈ image.pages, q ∉ image.trackedPages →
    image.isCpuDirty = true

variable {image}

/-- Both ends of a tracked range are addresses. -/
theorem isTracked_iff : image.isTracked = true ↔ image.trackAddr ≠ 0 ∧ image.trackAddrEnd ≠ 0 :=
  decide_eq_true_iff

/-- The tracked range is a part of the image. -/
theorem Shaped.inside (h : image.Shaped) :
    image.data.address ≤ image.trackAddr ∧ image.trackAddrEnd ≤ rangeEnd image.data := by
  obtain ⟨hhead, -, -⟩ := headEnd_bounds image.data
  obtain ⟨htail, -, -⟩ := tailBegin_bounds image.data
  constructor
  · obtain h | h := h.begins <;> omega
  · obtain h | h := h.ends <;> omega

end Image

/-! ### Watchers -/

section Watchers

variable [DecidableEq τ] {s s' s'' : Cache τ} {id : τ}

/-- The image has one watcher on each of these pages, and no other. -/
structure Watched (s : Cache τ) (id : τ) (watched : Set ℕ) : Prop where
  on : ∀ q ∈ watched, (s.held q).count id = 1
  off : ∀ q ∉ watched, (s.held q).count id = 0

/-- The page manager counts the watchers of images and of others. -/
structure Tied (s : Cache τ) : Prop where
  coherent : Coherent s.pageManager
  count : ∀ q, ((s.pageManager.page q).count false : ℤ) = s.others q + (s.held q).length

/-- An image with its watchers. -/
structure Kept (s : Cache τ) (id : τ) (image : Image τ) : Prop where
  stored : s.images id = some image
  sound : image.Sound
  watched : Watched s id image.trackedPages

/-- A call changes this image and the pages it watches. -/
structure Changes (s s' : Cache τ) (id : τ) (image' : Image τ) (watched' : Set ℕ) : Prop where
  stored : s'.images id = some image'
  watched : Watched s' id watched'
  images : ∀ o ≠ id, s'.images o = s.images o
  counts : ∀ o ≠ id, ∀ q, (s'.held q).count o = (s.held q).count o
  index : s'.imageOwnerIndex = s.imageOwnerIndex
  tied : Tied s → Tied s'

/-- One change after another. -/
theorem Changes.trans {image' image'' : Image τ} {watched' watched'' : Set ℕ}
    (h : Changes s s' id image' watched') (h' : Changes s' s'' id image'' watched'') :
    Changes s s'' id image'' watched'' where
  stored := h'.stored
  watched := h'.watched
  images := fun o ho => (h'.images o ho).trans (h.images o ho)
  counts := fun o ho q => (h'.counts o ho q).trans (h.counts o ho q)
  index := h'.index.trans h.index
  tied := fun ht => h'.tied (h.tied ht)

/-- The fields of an image change. -/
theorem Changes.store {watched : Set ℕ} (h : Watched s id watched) (image' : Image τ) :
    Changes s (s.store id image') id image' watched where
  stored := Function.update_self ..
  watched := ⟨h.on, h.off⟩
  images := fun _ ho => Function.update_of_ne ho ..
  counts := fun _ _ _ => rfl
  index := rfl
  tied := fun ht => ⟨ht.coherent, ht.count⟩

/-- Nothing changes. -/
theorem Changes.refl {image : Image τ} {watched : Set ℕ} (himage : s.images id = some image)
    (h : Watched s id watched) : Changes s s id image watched where
  stored := himage
  watched := h
  images := fun _ _ => rfl
  counts := fun _ _ _ => rfl
  index := rfl
  tied := fun ht => ht

/-- What a call of the page manager does to it. -/
theorem updatePageWatchers_update {accepts : ℕ → ℕ → PageManager.Protection → Bool} {track : Bool}
    {m m' : Manager} {address size : ℕ} (hm : Coherent m)
    (h : PageManager.updatePageWatchers accepts track m address size = .ok m') :
    PageManager.Update track false (pagesOf address size) (pagesOf address size) m m' := by
  unfold PageManager.updatePageWatchers at h
  refine @PageManager.implUpdatePageWatchers_ok accepts _ _ _ _ _ _ hm ?_
  cases track with
  | true =>
    obtain ⟨_, -, h⟩ := bind_ok.1 h
    exact h
  | false => exact h

/-- Watchers are put on pages that have none of the image. -/
theorem Changes.track {env : Env} {image : Image τ} {watched : Set ℕ} {address size : ℕ}
    (himage : s.images id = some image) (hw : Watched s id watched)
    (hfree : ∀ q ∈ pagesOf address size, q ∉ watched)
    (h : s.updatePageWatchers env true id address size = some s') :
    Changes s s' id image (watched ∪ pagesOf address size) := by
  unfold Cache.updatePageWatchers at h
  split at h
  · next manager hmanager =>
    cases h
    refine ⟨himage, ⟨fun q hq => ?_, fun q hq => ?_⟩, fun _ _ => rfl, fun o ho q => ?_, rfl,
      fun ht => ?_⟩
    · dsimp only
      by_cases hpage : q ∈ pagesOf address size
      · rw [if_pos hpage, if_pos rfl, List.count_cons_self, hw.off q (hfree q hpage)]
      · rw [if_neg hpage]
        exact hw.on q (hq.resolve_right hpage)
    · rw [Set.mem_union, not_or] at hq
      dsimp only
      rw [if_neg hq.2]
      exact hw.off q hq.1
    · dsimp only
      split
      · rw [if_pos rfl, List.count_cons_of_ne (Ne.symm ho)]
      · rfl
    · have hupdate := updatePageWatchers_update ht.coherent hmanager
      refine ⟨hupdate.coherent, fun q => ?_⟩
      dsimp only
      rw [hupdate.count false q, ht.count q]
      by_cases hpage : q ∈ pagesOf address size
      · rw [if_pos ⟨rfl, hpage⟩, if_pos hpage, if_pos rfl, List.length_cons]
        simp only [callDelta, if_true]
        omega
      · rw [if_neg (fun hc => hpage hc.2), if_neg hpage, add_zero]
  · cases h

/-- Watchers are taken from pages that have one of the image. -/
theorem Changes.untrack {env : Env} {image : Image τ} {watched : Set ℕ} {address size : ℕ}
    (himage : s.images id = some image) (hw : Watched s id watched)
    (hheld : ∀ q ∈ pagesOf address size, q ∈ watched)
    (h : s.updatePageWatchers env false id address size = some s') :
    Changes s s' id image (watched \ pagesOf address size) := by
  unfold Cache.updatePageWatchers at h
  split at h
  · next manager hmanager =>
    cases h
    refine ⟨himage, ⟨fun q hq => ?_, fun q hq => ?_⟩, fun _ _ => rfl, fun o ho q => ?_, rfl,
      fun ht => ?_⟩
    · dsimp only
      rw [if_neg hq.2]
      exact hw.on q hq.1
    · dsimp only
      by_cases hpage : q ∈ pagesOf address size
      · rw [if_pos hpage, if_neg Bool.false_ne_true, List.count_erase_self,
          hw.on q (hheld q hpage)]
      · rw [if_neg hpage]
        exact hw.off q fun hq' => hq ⟨hq', hpage⟩
    · dsimp only
      split
      · rw [if_neg Bool.false_ne_true, List.count_erase_of_ne ho]
      · rfl
    · have hupdate := updatePageWatchers_update ht.coherent hmanager
      refine ⟨hupdate.coherent, fun q => ?_⟩
      dsimp only
      rw [hupdate.count false q, ht.count q]
      by_cases hpage : q ∈ pagesOf address size
      · have hmem : id ∈ s.held q := by
          rw [← List.count_pos_iff, hw.on q (hheld q hpage)]
          exact Nat.one_pos
        have hlength := List.length_pos_of_mem hmem
        rw [if_pos ⟨rfl, hpage⟩, if_pos hpage, if_neg Bool.false_ne_true,
          List.length_erase_of_mem hmem]
        simp only [callDelta, Bool.false_eq_true, if_false]
        omega
      · rw [if_neg (fun hc => hpage hc.2), if_neg hpage, add_zero]
  · cases h

end Watchers

end Prosperismo.ImageTracking
