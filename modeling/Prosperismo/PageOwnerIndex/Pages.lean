import Prosperismo.PageOwnerIndex.Model

/-!
# Ranges and pages

What the pure parts of the index compute, as sets of bytes and of pages.

* `normalize_spec`: the normalised ranges are the maximal intervals of the bytes of the given
  ranges; there are none if a range is not valid.
* `mem_collectPages`: the pages of a list of ranges are those of its bytes. They come in order
  and without repeats (`collectPages_lt`), so an owner becomes a member of a page once.
* `coalesceTrackingPages_spec`: the maximal intervals of the bytes of a list of pages.
-/

namespace Prosperismo.PageOwnerIndex

open Extent

/-! ### Pages -/

theorem pageSize_tracking : pageSize 12 = 0x1000 := rfl

/-- The page sizes of the two tables. -/
structure Paging (pageBits : ℕ) : Prop where
  pos : 0 < pageSize pageBits
  dvd : pageSize pageBits ∣ addressSpaceSize

theorem paging_coarse : Paging 20 := ⟨by decide, ⟨0x100000, rfl⟩⟩

theorem paging_tracking : Paging 12 := ⟨by decide, ⟨0x10000000, rfl⟩⟩

/-- A page of a byte of the address space is valid. -/
theorem Paging.isValidPage {pageBits a : ℕ} (h : Paging pageBits) (ha : a < addressSpaceSize) :
    isValidPage pageBits (a / pageSize pageBits) = true := by
  unfold PageOwnerIndex.isValidPage
  obtain ⟨n, hn⟩ := h.dvd
  rw [decide_eq_true_iff, hn, Nat.mul_div_cancel_left n h.pos, Nat.div_lt_iff_lt_mul h.pos,
    Nat.mul_comm, ← hn]
  exact ha

/-- A range that is not empty and ends in the address space. -/
def Valid (address size : ℕ) : Prop := 0 < size ∧ address + size ≤ addressSpaceSize

instance (address size : ℕ) : Decidable (Valid address size) := inferInstanceAs (Decidable (_ ∧ _))

/-- **`TryGetPageRange`**. -/
theorem tryGetPageRange_eq (pageBits address size : ℕ) :
    tryGetPageRange pageBits address size = if Valid address size then
      some (address / pageSize pageBits, (address + size - 1) / pageSize pageBits + 1) else none := by
  unfold tryGetPageRange
  split
  · next hnot =>
    refine (if_neg fun hvalid => ?_).symm
    unfold Valid at hvalid
    omega
  · next hnot =>
    refine (if_pos ?_).symm
    unfold Valid
    omega

/-- Some byte of the list is on the page. -/
def Touches (pageBits : ℕ) (ranges : List ByteRange) (page : ℕ) : Prop :=
  ∃ a, extent.Covered ranges a ∧ a / pageSize pageBits = page

/-- The pages from the first to the last byte are the pages of the bytes in between. -/
theorem page_between {size first last : ℕ} (hsize : 0 < size) (hle : first ≤ last) (page : ℕ) :
    first / size ≤ page ∧ page ≤ last / size ↔ ∃ a, first ≤ a ∧ a ≤ last ∧ a / size = page := by
  constructor
  · rintro ⟨hfirst, hlast⟩
    -- the first byte of the page, unless the page begins before the range
    rw [Nat.le_div_iff_mul_le hsize] at hlast
    refine ⟨max first (page * size), le_max_left _ _, max_le hle hlast, ?_⟩
    refine Nat.le_antisymm ?_ ?_
    · rcases max_choice first (page * size) with hmax | hmax
      · exact (congrArg (· / size) hmax).trans_le hfirst
      · exact (congrArg (· / size) hmax).trans_le (Nat.mul_div_cancel page hsize).le
    · exact (Nat.le_div_iff_mul_le hsize).2 (le_max_right _ _)
  · rintro ⟨a, hfirst, hlast, rfl⟩
    exact ⟨Nat.div_le_div_right hfirst, Nat.div_le_div_right hlast⟩

/-- **`CollectPages`** collects the pages of the bytes. -/
theorem mem_collectPages {pageBits : ℕ} (hpaging : Paging pageBits) {ranges : List ByteRange}
    (hsize : ∀ range ∈ ranges, 0 < range.size) {page : ℕ} :
    page ∈ collectPages pageBits ranges ↔ Touches pageBits ranges page := by
  unfold collectPages Touches Covered
  rw [mem_dropRepeats, List.mem_insertionSort, List.mem_flatMap]
  have hbetween : ∀ range ∈ ranges, page ∈ List.range' (range.address / pageSize pageBits)
      ((range.address + range.size - 1) / pageSize pageBits + 1 - range.address / pageSize pageBits) ↔
        ∃ a, range.address ≤ a ∧ a ≤ range.address + range.size - 1 ∧ a / pageSize pageBits = page := by
    intro range hrange
    have hpos := hsize range hrange
    rw [← page_between hpaging.pos (by omega) page, List.mem_range'_1]
    omega
  constructor
  · rintro ⟨range, hrange, hpage⟩
    obtain ⟨a, hfirst, hlast, hpage⟩ := (hbetween range hrange).1 hpage
    have hpos := hsize range hrange
    exact ⟨a, ⟨range, hrange, hfirst, show a < range.address + range.size by omega⟩, hpage⟩
  · rintro ⟨a, ⟨range, hrange, hfirst, hlast⟩, hpage⟩
    exact ⟨range, hrange, (hbetween range hrange).2 ⟨a, hfirst, Nat.le_sub_one_of_lt hlast, hpage⟩⟩

theorem collectPages_lt (pageBits : ℕ) (ranges : List ByteRange) :
    (collectPages pageBits ranges).Pairwise (· < ·) :=
  dropRepeats_lt (List.pairwise_insertionSort _ _)

theorem collectPages_nodup (pageBits : ℕ) (ranges : List ByteRange) :
    (collectPages pageBits ranges).Nodup :=
  (collectPages_lt pageBits ranges).imp fun hlt => ne_of_lt hlt

/-! ### Normalised ranges -/

/-- `join` joins. -/
theorem joining : Joining extent join where
  lo _ _ _ := rfl
  hi left right hle := by
    have hle : left.address ≤ right.address := hle
    show left.address + (max (left.address + left.size) (right.address + right.size) -
      left.address) = max (left.address + left.size) (right.address + right.size)
    omega

/-- What a registration keeps: the maximal intervals of a set of bytes of the address space. -/
structure Normal (ranges : List ByteRange) : Prop where
  ne_nil : ranges ≠ []
  apart : extent.Apart ranges
  bounded : ∀ range ∈ ranges, range.address + range.size ≤ addressSpaceSize

/-- The ranges may be registered. -/
def Acceptable (ranges : List ByteRange) : Prop :=
  ranges ≠ [] ∧ ∀ range ∈ ranges, Valid range.address range.size

instance (ranges : List ByteRange) : Decidable (Acceptable ranges) :=
  inferInstanceAs (Decidable (_ ∧ _))

theorem Normal.size_pos {ranges : List ByteRange} (h : Normal ranges) :
    ∀ range ∈ ranges, 0 < range.size := by
  intro range hrange
  have hproper : range.address < range.address + range.size := h.apart.proper range hrange
  omega

theorem Normal.lt_addressSpaceSize {ranges : List ByteRange} (h : Normal ranges) {a : ℕ}
    (ha : extent.Covered ranges a) : a < addressSpaceSize := by
  obtain ⟨range, hrange, -, hlt⟩ := ha
  exact lt_of_lt_of_le hlt (h.bounded range hrange)

/-- **`Normalize`** keeps the bytes of acceptable ranges. -/
theorem normalize_spec {ranges : List ByteRange} (h : Acceptable ranges) :
    Normal (normalize ranges) ∧ ∀ a, extent.Covered (normalize ranges) a ↔ extent.Covered ranges a := by
  obtain ⟨hne, hvalid⟩ := h
  have hall : (ranges.all fun range => (tryGetPageRange 20 range.address range.size).isSome) =
      true := by
    rw [List.all_eq_true]
    intro range hrange
    rw [tryGetPageRange_eq, if_pos (hvalid range hrange)]
    rfl
  unfold normalize
  rw [if_pos hall]
  let sorted := ranges.insertionSort fun left right => left.address ≤ right.address
  have hmem : ∀ range, range ∈ sorted ↔ range ∈ ranges := fun range => List.mem_insertionSort _
  have hproper : ∀ range ∈ sorted, extent.lo range < extent.hi range := fun range hrange => by
    have hpos := (hvalid range ((hmem range).1 hrange)).1
    show range.address < range.address + range.size
    omega
  have hsorted : sorted.Pairwise fun left right => extent.lo left ≤ extent.lo right :=
    List.pairwise_insertionSort (fun left right : ByteRange => left.address ≤ right.address) ranges
  obtain ⟨hapart, hbounds, hcovered⟩ := joinAll_spec joining hproper hsorted
  have hcovers : ∀ a, extent.Covered sorted a ↔ extent.Covered ranges a := fun a =>
    exists_congr fun range => and_congr_left' (hmem range)
  refine ⟨⟨?_, hapart, fun range hrange => ?_⟩, fun a => (hcovered a).trans (hcovers a)⟩
  · -- a byte of the first range
    intro hnil
    obtain ⟨range, rest, rfl⟩ := List.exists_cons_of_ne_nil hne
    have hpos := (hvalid range List.mem_cons_self).1
    have hcover : extent.Covered (range :: rest) range.address :=
      ⟨range, List.mem_cons_self, le_rfl, show range.address < range.address + range.size by omega⟩
    have hfirst := (hcovered range.address).2 ((hcovers range.address).2 hcover)
    rw [hnil] at hfirst
    exact covered_nil extent _ hfirst
  · obtain ⟨-, other, hother, hhi⟩ := hbounds range hrange
    exact le_of_eq_of_le hhi (hvalid other ((hmem other).1 hother)).2

theorem normalize_of_not_acceptable {ranges : List ByteRange} (h : ¬ Acceptable ranges) :
    normalize ranges = [] := by
  unfold normalize
  split
  · next hall =>
    by_cases hnil : ranges = []
    · subst hnil
      rfl
    · refine absurd ⟨hnil, fun range hrange => ?_⟩ h
      have hsome := List.all_eq_true.1 hall range hrange
      rw [tryGetPageRange_eq] at hsome
      by_contra hnot
      rw [if_neg hnot] at hsome
      cases hsome
  · rfl

/-! ### Released pages -/

/-- The bytes of a tracking page. -/
def pageRange (page : ℕ) : ByteRange := ⟨page * pageSize 12, pageSize 12⟩

/-- On increasing pages `CoalesceTrackingPages` joins the ranges of the pages. -/
theorem coalesceFrom_eq {last : ByteRange} {pages : List ℕ}
    (hlast : ∀ page ∈ pages, last.address + last.size ≤ page * pageSize 12)
    (hpages : pages.Pairwise (· < ·)) :
    coalesceFrom last pages = joinFrom extent join last (pages.map pageRange) := by
  induction pages generalizing last with
  | nil => rfl
  | cons page pages ih =>
    obtain ⟨hpage, hrest⟩ := List.forall_mem_cons.1 hlast
    obtain ⟨hhead, hpages⟩ := List.pairwise_cons.1 hpages
    have hnext : ∀ other ∈ pages, page * pageSize 12 + pageSize 12 ≤ other * pageSize 12 := by
      intro other hother
      have hlt := hhead other hother
      rw [pageSize_tracking]
      omega
    rw [coalesceFrom, List.map_cons, joinFrom]
    split
    · next htouch =>
      have hnot : ¬ extent.hi last < extent.lo (pageRange page) := by
        show ¬ last.address + last.size < page * pageSize 12
        omega
      have hjoin : join last (pageRange page) = ⟨last.address, last.size + pageSize 12⟩ := by
        show ByteRange.mk last.address (max (last.address + last.size)
          (page * pageSize 12 + pageSize 12) - last.address) = _
        congr 1
        omega
      rw [if_neg hnot, hjoin]
      refine ih (fun other hother => ?_) hpages
      have hle := hnext other hother
      dsimp only
      omega
    · next hgap =>
      have hlt : extent.hi last < extent.lo (pageRange page) := by
        show last.address + last.size < page * pageSize 12
        omega
      rw [if_pos hlt]
      exact congrArg (last :: ·) (ih hnext hpages)

theorem coalesceTrackingPages_eq {pages : List ℕ} (hpages : pages.Pairwise (· < ·)) :
    coalesceTrackingPages pages = joinAll extent join (pages.map pageRange) := by
  cases pages with
  | nil => rfl
  | cons page pages =>
    obtain ⟨hhead, hpages⟩ := List.pairwise_cons.1 hpages
    refine coalesceFrom_eq (fun other hother => ?_) hpages
    have hlt := hhead other hother
    dsimp only
    rw [pageSize_tracking]
    omega

/-- **`CoalesceTrackingPages`**: whole pages, the maximal intervals of the bytes of the pages. -/
theorem coalesceTrackingPages_spec {pages : List ℕ} (hpages : pages.Pairwise (· < ·)) :
    extent.Apart (coalesceTrackingPages pages) ∧
      (∀ range ∈ coalesceTrackingPages pages,
        pageSize 12 ∣ range.address ∧ pageSize 12 ∣ range.address + range.size) ∧
      ∀ a, extent.Covered (coalesceTrackingPages pages) a ↔ a / pageSize 12 ∈ pages := by
  have hproper : ∀ range ∈ pages.map pageRange, extent.lo range < extent.hi range := by
    intro range hrange
    obtain ⟨page, -, rfl⟩ := List.mem_map.1 hrange
    show page * pageSize 12 < page * pageSize 12 + pageSize 12
    exact Nat.lt_add_of_pos_right paging_tracking.pos
  have hsorted : (pages.map pageRange).Pairwise fun left right => extent.lo left ≤ extent.lo right :=
    List.pairwise_map.2 (hpages.imp fun hlt => Nat.mul_le_mul_right _ hlt.le)
  rw [coalesceTrackingPages_eq hpages]
  obtain ⟨hapart, hbounds, hcovered⟩ := joinAll_spec joining hproper hsorted
  refine ⟨hapart, fun range hrange => ?_, fun a => (hcovered a).trans ?_⟩
  · obtain ⟨⟨first, hfirst, hlo⟩, last, hlast, hhi⟩ := hbounds range hrange
    obtain ⟨page, -, rfl⟩ := List.mem_map.1 hfirst
    obtain ⟨page', -, rfl⟩ := List.mem_map.1 hlast
    have hlo : range.address = page * pageSize 12 := hlo
    have hhi : range.address + range.size = page' * pageSize 12 + pageSize 12 := hhi
    rw [hhi, hlo]
    exact ⟨Nat.dvd_mul_left _ _, Nat.dvd_add (Nat.dvd_mul_left _ _) (Nat.dvd_refl _)⟩
  · constructor
    · rintro ⟨range, hrange, hle, hlt⟩
      obtain ⟨page, hpage, rfl⟩ := List.mem_map.1 hrange
      have hle : page * pageSize 12 ≤ a := hle
      have hlt : a < page * pageSize 12 + pageSize 12 := hlt
      have hdiv : a / pageSize 12 = page := by
        rw [pageSize_tracking] at *
        omega
      exact hdiv ▸ hpage
    · intro hpage
      refine ⟨_, List.mem_map_of_mem hpage, ?_, ?_⟩
      · exact Nat.div_mul_le_self a (pageSize 12)
      · show a < a / pageSize 12 * pageSize 12 + pageSize 12
        exact Nat.lt_div_mul_add paging_tracking.pos

end Prosperismo.PageOwnerIndex
