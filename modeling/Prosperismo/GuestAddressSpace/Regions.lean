import Prosperismo.GuestAddressSpace.Unmap
import Prosperismo.PhysicalMemory.Free

/-!
# Free ranges and mapped regions

The free map and the map of the regions of a guest address space, each by what
it says about an address: `consumeUnlocked_spec` and `addFreeUnlocked_spec` for
the first, `addMapped_spec`, `removeMapped_spec` and `containsMapped_spec` for
the second.
-/

namespace Prosperismo.GuestAddressSpace

open Extent
open OrderedMap (entryAt extent extent_covers Recorded)
open PhysicalMemory (Mode freeExtent free_covers_iff remains within_remains apart_remains
  covered_remains)
open VirtualRanges (uint64Max)

/-! ### Taking from the free map -/

section Consume

variable {free free' : FreeMap} {vaddr size : ℕ}

/-- `SplitUnlocked` makes the range an entry of its own. -/
theorem splitUnlocked_entries {l r : List (ℕ × ℕ)} {it : ℕ × ℕ}
    (h : freeExtent.Tidy free.entries) (hsplit : free.entries = l ++ it :: r)
    (hle : it.1 ≤ vaddr) (hend : vaddr + size ≤ it.1 + it.2) (hsize : 0 < size) :
    ∃ left right, (splitUnlocked free it vaddr size).entries
        = (l ++ left) ++ (vaddr, size) :: (right ++ r) ∧
      left ++ right = remains it vaddr size := by
  have hsorted := free.sorted
  rw [hsplit, List.pairwise_append] at hsorted
  rw [hsplit] at h
  obtain ⟨-, hir, -⟩ := tidy_append.mp h
  obtain ⟨-, -, hafter⟩ := tidy_cons.mp hir
  have hr : ∀ x ∈ r, it.1 + it.2 ≤ x.1 := hafter
  have hl : ∀ x ∈ l, x.1 < it.1 := fun x hx => hsorted.2.2 x hx it List.mem_cons_self
  unfold splitUnlocked remains
  dsimp only
  by_cases hwhole : it.1 = vaddr ∧ it.1 + it.2 = vaddr + size
  · rw [if_pos hwhole]
    refine ⟨[], [], ?_, ?_⟩
    · rw [hsplit, List.append_nil, List.nil_append, ← hwhole.1, show size = it.2 by omega]
    · rw [if_neg (by omega), if_neg (by omega)]
  · rw [if_neg hwhole]
    -- first what lies in front of the range is cut off
    have hfront : ∃ left, (if it.1 ≠ vaddr then
          (OrderedMap.update free it.1 fun _ => vaddr - it.1).emplace vaddr (it.1 + it.2 - vaddr)
          else free).entries = (l ++ left) ++ (vaddr, it.1 + it.2 - vaddr) :: r ∧
        (if it.1 < vaddr then [(it.1, vaddr - it.1)] else []) = left ∧
        ∀ x ∈ l ++ left, x.1 < vaddr := by
      by_cases hbase : it.1 = vaddr
      · rw [if_neg (not_not.mpr hbase), if_neg (by omega)]
        refine ⟨[], ?_, rfl, fun x hx => ?_⟩
        · rw [hsplit, List.append_nil, ← hbase, Nat.add_sub_cancel_left]
        · rw [List.append_nil] at hx
          exact (hl x hx).trans_eq hbase
      · rw [if_pos hbase, if_pos (by omega)]
        have hupdate := OrderedMap.update_of_split (fun _ => vaddr - it.1) hsplit
        rw [List.append_cons] at hupdate
        have hbefore : ∀ x ∈ l ++ [(it.1, vaddr - it.1)], x.1 < vaddr := by
          intro x hx
          obtain hx | hx := List.mem_append.mp hx
          · exact (hl x hx).trans_le hle
          · rw [List.mem_singleton.mp hx]
            show it.1 < vaddr
            omega
        refine ⟨_, ?_, rfl, hbefore⟩
        exact OrderedMap.emplace_of_split _ hupdate hbefore fun x hx => by
          have := hr x hx
          omega
    obtain ⟨left, hentries, hleft, hbefore⟩ := hfront
    rw [hleft]
    generalize (if it.1 ≠ vaddr then
      (OrderedMap.update free it.1 fun _ => vaddr - it.1).emplace vaddr (it.1 + it.2 - vaddr)
      else free) = cut at hentries ⊢
    by_cases hlast : it.1 + it.2 - vaddr = size
    · rw [if_neg (not_not.mpr hlast), if_neg (by omega)]
      refine ⟨left, [], ?_, rfl⟩
      rw [hentries, hlast, List.nil_append]
    · rw [if_pos hlast, if_pos (by omega)]
      have hupdate := OrderedMap.update_of_split (fun _ => size) hentries
      rw [List.append_cons] at hupdate
      refine ⟨left, [(vaddr + size, it.1 + it.2 - vaddr - size)], ?_, ?_⟩
      · rw [OrderedMap.emplace_of_split _ hupdate (fun x hx => ?_) fun x hx => ?_]
        · simp only [List.append_assoc, List.singleton_append]
        · obtain hx | hx := List.mem_append.mp hx
          · have := hbefore x hx
            omega
          · rw [List.mem_singleton.mp hx]
            show vaddr < vaddr + size
            omega
        · have := hr x hx
          omega
      · rfl

/-- **`ConsumeUnlocked`** takes a free range out of the free map, or leaves the
map as it was. -/
theorem consumeUnlocked_spec (h : freeExtent.Tidy free.entries) (hsize : 0 < size) {ok : Bool}
    (hr : consumeUnlocked free vaddr size = (free', ok)) :
    (ok = false → free' = free) ∧
    (ok = true → freeExtent.Tidy free'.entries ∧
      (∀ a, vaddr ≤ a → a < vaddr + size → freeExtent.Covered free.entries a) ∧
      ∀ a, freeExtent.Covered free'.entries a ↔
        freeExtent.Covered free.entries a ∧ ¬ (vaddr ≤ a ∧ a < vaddr + size)) := by
  unfold consumeUnlocked at hr
  split at hr
  · cases hr
    exact ⟨fun _ => rfl, fun hok => absurd hok (by decide)⟩
  · rename_i it hfind
    obtain ⟨hlast, hin⟩ := Option.filter_eq_some_iff.mp hfind
    obtain ⟨hle, hend⟩ := of_decide_eq_true hin
    obtain ⟨l, -, hsplit, -⟩ := OrderedMap.split_of_getLast hlast
    obtain ⟨left, right, hentries, hremains⟩ := splitUnlocked_entries h hsplit hle hend hsize
    have hany : ((splitUnlocked free it vaddr size).entries.any
        fun it => decide (it.1 = vaddr ∧ it.2 = size)) = true := by
      rw [List.any_eq_true]
      refine ⟨(vaddr, size), ?_, by simp⟩
      rw [hentries]
      exact List.mem_append_right _ List.mem_cons_self
    dsimp only at hr
    rw [if_pos hany] at hr
    cases hr
    have herase := OrderedMap.erase_of_split hentries
    have hwithin := within_remains hle hend
    rw [hsplit] at h ⊢
    refine ⟨fun hok => absurd hok (by decide), fun _ => ?_⟩
    have hfinal : ((splitUnlocked free it vaddr size).erase vaddr).entries
        = l ++ (remains it vaddr size ++ free.upperBound vaddr) := by
      rw [herase, ← hremains]
      simp only [List.append_assoc]
    rw [hfinal]
    have hmem : ∀ a, freeExtent.Covers it a →
        freeExtent.Covered (l ++ it :: free.upperBound vaddr) a := fun a ha =>
      ⟨it, List.mem_append_right l List.mem_cons_self, ha⟩
    refine ⟨h.replace (apart_remains hsize).tidy hwithin, fun a hlo hhi =>
      hmem a (free_covers_iff.mpr (by omega)), fun a => ?_⟩
    rw [h.covered_replace hwithin, covered_remains]
    constructor
    · rintro (hleft | ⟨hcovered, hout⟩)
      · exact ⟨hmem a (free_covers_iff.mpr (by omega)), by omega⟩
      · rw [free_covers_iff] at hout
        exact ⟨hcovered, by omega⟩
    · rintro ⟨hcovered, hout⟩
      by_cases hit : freeExtent.Covers it a
      · rw [free_covers_iff] at hit
        exact Or.inl (by omega)
      · exact Or.inr ⟨hcovered, hit⟩

end Consume

/-! ### Giving back to the free map -/

section AddFree

variable {free : FreeMap} {vaddr size : ℕ}

/-- The neighbours in front that touch what has been gathered. -/
theorem touching_back : ∀ (list : List (ℕ × ℕ)) (base : ℕ), freeExtent.Tidy list.reverse →
    (∀ x ∈ list, x.1 + x.2 ≤ base) → ∃ rest, list = (touching reachBack list base).1 ++ rest ∧
      (touching reachBack list base).2 ≤ base ∧
      (∀ a, freeExtent.Covered (touching reachBack list base).1 a ↔
        (touching reachBack list base).2 ≤ a ∧ a < base) ∧
      ∀ x ∈ rest, x.1 + x.2 ≤ (touching reachBack list base).2
  | [], base, _, _ => by
    refine ⟨[], rfl, le_rfl, fun a => ?_, fun x hx => absurd hx List.not_mem_nil⟩
    simp only [touching, covered_nil, false_iff]
    omega
  | it :: list, base, htidy, hends => by
    rw [List.reverse_cons, tidy_append] at htidy
    obtain ⟨hlist, hone, hbefore⟩ := htidy
    have hpos : it.1 < it.1 + it.2 := hone.proper it (List.mem_singleton.mpr rfl)
    unfold touching reachBack
    by_cases htouch : it.1 + it.2 ≠ base
    · rw [if_pos htouch]
      refine ⟨it :: list, rfl, le_rfl, fun a => ?_, hends⟩
      simp only [covered_nil, false_iff]
      omega
    · rw [if_neg htouch]
      have hall : ∀ x ∈ list, x.1 + x.2 ≤ it.1 := fun x hx =>
        hbefore x (List.mem_reverse.mpr hx) it (List.mem_singleton.mpr rfl)
      obtain ⟨rest, hrest, hle, hcovered, hout⟩ := touching_back list it.1 hlist hall
      refine ⟨rest, ?_, by show (touching reachBack list it.1).2 ≤ base; omega, fun a => ?_, hout⟩
      · exact congrArg (it :: ·) hrest
      · show freeExtent.Covered (it :: (touching reachBack list it.1).1) a ↔ _
        rw [covered_cons, hcovered a, free_covers_iff]
        show _ ↔ (touching reachBack list it.1).2 ≤ a ∧ a < base
        omega

/-- The neighbours behind that touch what has been gathered. -/
theorem touching_on : ∀ (list : List (ℕ × ℕ)) (last : ℕ), freeExtent.Tidy list →
    (∀ x ∈ list, last ≤ x.1) → ∃ rest, list = (touching reachOn list last).1 ++ rest ∧
      last ≤ (touching reachOn list last).2 ∧
      (∀ a, freeExtent.Covered (touching reachOn list last).1 a ↔
        last ≤ a ∧ a < (touching reachOn list last).2) ∧
      ∀ x ∈ rest, (touching reachOn list last).2 ≤ x.1
  | [], last, _, _ => by
    refine ⟨[], rfl, le_rfl, fun a => ?_, fun x hx => absurd hx List.not_mem_nil⟩
    simp only [touching, covered_nil, false_iff]
    omega
  | it :: list, last, htidy, hstarts => by
    obtain ⟨hpos, hlist, hafter⟩ := tidy_cons.mp htidy
    have hpos : it.1 < it.1 + it.2 := hpos
    unfold touching reachOn
    by_cases htouch : last = it.1
    · rw [if_pos htouch]
      obtain ⟨rest, hrest, hle, hcovered, hout⟩ := touching_on list (it.1 + it.2) hlist hafter
      have hle : it.1 + it.2 ≤ (touching reachOn list (it.1 + it.2)).2 := hle
      have hcovered : ∀ a, freeExtent.Covered (touching reachOn list (it.1 + it.2)).1 a ↔
        it.1 + it.2 ≤ a ∧ a < (touching reachOn list (it.1 + it.2)).2 := hcovered
      refine ⟨rest, congrArg (it :: ·) hrest, ?_, fun a => ?_, hout⟩
      · show last ≤ (touching reachOn list (it.1 + it.2)).2
        omega
      · show freeExtent.Covered (it :: (touching reachOn list (it.1 + it.2)).1) a ↔ _
        rw [covered_cons, hcovered a, free_covers_iff]
        show _ ↔ last ≤ a ∧ a < (touching reachOn list (it.1 + it.2)).2
        omega
    · rw [if_neg htouch]
      refine ⟨it :: list, rfl, le_rfl, fun a => ?_, hstarts⟩
      simp only [covered_nil, false_iff]
      omega

/-- Erasing the last entries of a part of the map, from the last one on. -/
theorem erase_back : ∀ {taken rest r : List (ℕ × ℕ)} {free : FreeMap},
    free.entries = (taken ++ rest).reverse ++ r →
      (taken.foldl (fun free it => free.erase it.1) free).entries = rest.reverse ++ r
  | [], _, _, _, h => h
  | it :: taken, rest, r, free, h => by
    rw [List.foldl_cons]
    refine erase_back ?_
    rw [List.cons_append, List.reverse_cons, List.append_assoc, List.singleton_append] at h
    exact OrderedMap.erase_of_split h

/-- Erasing the first entries of a part of the map. -/
theorem erase_front : ∀ (taken : List (ℕ × ℕ)) {l r : List (ℕ × ℕ)} {free : FreeMap},
    free.entries = l ++ (taken ++ r) →
      (taken.foldl (fun free it => free.erase it.1) free).entries = l ++ r
  | [], _, _, _, h => h
  | it :: taken, l, r, free, h => by
    rw [List.foldl_cons]
    exact erase_front taken (OrderedMap.erase_of_split h)

/-- **`AddFreeUnlocked`** adds a range that is not free to the free map. -/
theorem addFreeUnlocked_spec (h : freeExtent.Tidy free.entries) (vaddr : ℕ) (hsize : 0 < size)
    (hnew : ∀ a, vaddr ≤ a → a < vaddr + size → ¬ freeExtent.Covered free.entries a) :
    freeExtent.Tidy (addFreeUnlocked free vaddr size).entries ∧
      ∀ a, freeExtent.Covered (addFreeUnlocked free vaddr size).entries a ↔
        freeExtent.Covered free.entries a ∨ (vaddr ≠ 0 ∧ vaddr ≤ a ∧ a < vaddr + size) := by
  unfold addFreeUnlocked
  by_cases hzero : vaddr = 0 ∨ size = 0
  · rw [if_pos hzero]
    refine ⟨h, fun a => ⟨Or.inl, ?_⟩⟩
    rintro (hcovered | ⟨hne, -⟩)
    · exact hcovered
    · omega
  · rw [if_neg hzero]
    have hkey : ∀ x ∈ free.entries, x.1 ≠ vaddr := by
      rintro x hx rfl
      have hpos : x.1 < x.1 + x.2 := h.proper x hx
      exact hnew x.1 le_rfl (by omega) ⟨x, hx, le_rfl, hpos⟩
    -- no entry starts at the new range, so the two ways to split the map agree
    have hsplit : free.entries = free.below vaddr ++ free.upperBound vaddr := by
      have hupper := (OrderedMap.upTo_of_split (free.below_append_lowerBound vaddr).symm
        (fun x hx => (OrderedMap.lt_of_mem_below hx).le) fun x hx =>
          (OrderedMap.le_of_mem_lowerBound hx).lt_of_ne (hkey x (by
            rw [← free.below_append_lowerBound vaddr]
            exact List.mem_append_right _ hx)).symm).2
      rw [hupper, free.below_append_lowerBound]
    have hall := h
    rw [hsplit] at hall
    obtain ⟨hl, hr, hlr⟩ := tidy_append.mp hall
    have hbefore : ∀ x ∈ free.below vaddr, x.1 + x.2 ≤ vaddr := by
      intro x hx
      by_contra hlt
      have hle : x.1 < vaddr := OrderedMap.lt_of_mem_below hx
      exact hnew vaddr le_rfl (by omega)
        ⟨x, hsplit ▸ List.mem_append_left _ hx, hle.le, not_le.mp hlt⟩
    have hafter : ∀ x ∈ free.upperBound vaddr, vaddr + size ≤ x.1 := by
      intro x hx
      by_contra hlt
      have hgt : vaddr < x.1 := OrderedMap.lt_of_mem_upperBound hx
      have hpos : x.1 < x.1 + x.2 := hr.proper x hx
      exact hnew x.1 hgt.le (not_le.mp hlt)
        ⟨x, hsplit ▸ List.mem_append_right _ hx, le_rfl, hpos⟩
    have hcontains : free.contains vaddr = false := OrderedMap.not_contains_iff.mpr hkey
    have hadded := OrderedMap.emplace_of_split size hsplit
      (fun x hx => OrderedMap.lt_of_mem_below hx) fun x hx => OrderedMap.lt_of_mem_upperBound hx
    have hbelow' : (free.emplace vaddr size).below vaddr = free.below vaddr := by
      refine OrderedMap.below_of_split hadded (fun x hx => OrderedMap.lt_of_mem_below hx)
        fun x hx => ?_
      obtain rfl | hx := List.mem_cons.mp hx
      · exact le_rfl
      · exact (OrderedMap.lt_of_mem_upperBound hx).le
    have hupper' : (free.emplace vaddr size).upperBound vaddr = free.upperBound vaddr := by
      rw [List.append_cons] at hadded
      refine (OrderedMap.upTo_of_split hadded (fun x hx => ?_)
        fun x hx => OrderedMap.lt_of_mem_upperBound hx).2
      obtain hx | hx := List.mem_append.mp hx
      · exact (OrderedMap.lt_of_mem_below hx).le
      · rw [List.mem_singleton.mp hx]
    have hone : freeExtent.Covers (vaddr, size) = fun a => vaddr ≤ a ∧ a < vaddr + size := rfl
    dsimp only
    rw [hcontains, if_neg Bool.false_ne_true, hbelow', hupper']
    clear hbelow' hupper'
    obtain ⟨restBack, hback, hbase, hcoveredBack, houtBack⟩ := touching_back
      (free.below vaddr).reverse vaddr (by rwa [List.reverse_reverse])
      fun x hx => hbefore x (List.mem_reverse.mp hx)
    obtain ⟨restOn, hon, hlast, hcoveredOn, houtOn⟩ := touching_on
      (free.upperBound vaddr) (vaddr + size) hr hafter
    generalize touching reachBack (free.below vaddr).reverse vaddr = back at *
    generalize touching reachOn (free.upperBound vaddr) (vaddr + size) = on at *
    have hbelow : free.below vaddr = (back.1 ++ restBack).reverse := by
      rw [← hback, List.reverse_reverse]
    by_cases hgrown : back.2 ≠ vaddr ∨ on.2 ≠ vaddr + size
    · rw [if_pos hgrown]
      -- the neighbours and the new entry are erased, and one entry takes their place
      have herased : ((back.1 ++ (vaddr, size) :: on.1).foldl (fun free it => free.erase it.1)
          (free.emplace vaddr size)).entries = restBack.reverse ++ restOn := by
        rw [List.foldl_append]
        refine erase_front ((vaddr, size) :: on.1) ?_
        refine erase_back ?_
        rw [hadded, hbelow]
        conv_lhs => rw [hon]
        rfl
      rw [hbelow] at hl
      rw [hon] at hr
      rw [List.reverse_append] at hl hbelow
      have hmerged : freeExtent.Covers (back.2, on.2 - back.2)
          = fun a => back.2 ≤ a ∧ a < on.2 := by
        funext a
        show (back.2 ≤ a ∧ a < back.2 + (on.2 - back.2)) = _
        rw [Nat.add_sub_cancel' (by omega)]
      have hbeforeBase : ∀ x ∈ restBack.reverse, x.1 + x.2 ≤ back.2 := fun x hx =>
        houtBack x (List.mem_reverse.mp hx)
      have hentries := OrderedMap.emplace_of_split (on.2 - back.2) herased
        (fun x hx => by
          have hle := hbeforeBase x hx
          have hpos : x.1 < x.1 + x.2 := (tidy_append.mp hl).1.proper x hx
          show x.1 < back.2
          omega)
        (fun x hx => by
          have hle := houtOn x hx
          show back.2 < x.1
          omega)
      rw [hentries]
      constructor
      · refine tidy_append.mpr ⟨(tidy_append.mp hl).1, tidy_cons.mpr ⟨?_, (tidy_append.mp hr).2.1,
          fun x hx => ?_⟩, fun x hx y hy => ?_⟩
        · show back.2 < back.2 + (on.2 - back.2)
          omega
        · show back.2 + (on.2 - back.2) ≤ x.1
          have := houtOn x hx
          omega
        · have hle : x.1 + x.2 ≤ back.2 := hbeforeBase x hx
          show x.1 + x.2 ≤ y.1
          obtain rfl | hy := List.mem_cons.mp hy
          · exact hle
          · have := houtOn y hy
            omega
      · intro a
        rw [covered_append, covered_cons, hmerged, hsplit, hbelow, covered_append, covered_append]
        conv_rhs => rw [hon, covered_append]
        have hrev : freeExtent.Covered back.1.reverse a ↔ freeExtent.Covered back.1 a :=
          exists_congr fun x => by rw [List.mem_reverse]
        rw [hrev, hcoveredBack, hcoveredOn]
        constructor
        · rintro (hrest | hin | hrest)
          · exact Or.inl (Or.inl (Or.inl hrest))
          · by_cases hfront : a < vaddr
            · exact Or.inl (Or.inl (Or.inr ⟨hin.1, hfront⟩))
            · by_cases hmiddle : a < vaddr + size
              · exact Or.inr ⟨by omega, by omega, hmiddle⟩
              · exact Or.inl (Or.inr (Or.inl ⟨by omega, hin.2⟩))
          · exact Or.inl (Or.inr (Or.inr hrest))
        · rintro (((hrest | hin) | hin | hrest) | hin)
          · exact Or.inl hrest
          · exact Or.inr (Or.inl (by omega))
          · exact Or.inr (Or.inl (by omega))
          · exact Or.inr (Or.inr hrest)
          · exact Or.inr (Or.inl (by omega))
    · rw [if_neg hgrown, hadded]
      constructor
      · refine tidy_append.mpr ⟨hl, tidy_cons.mpr ⟨Nat.lt_add_of_pos_right hsize, hr, hafter⟩,
          fun x hx y hy => ?_⟩
        obtain rfl | hy := List.mem_cons.mp hy
        · exact hbefore x hx
        · exact hlr x hx y hy
      · intro a
        rw [covered_append, covered_cons, hsplit, covered_append, hone]
        constructor
        · rintro (hleft | hin | hright)
          · exact Or.inl (Or.inl hleft)
          · exact Or.inr ⟨by omega, hin⟩
          · exact Or.inl (Or.inr hright)
        · rintro ((hleft | hright) | ⟨-, hin⟩)
          · exact Or.inl hleft
          · exact Or.inr (Or.inr hright)
          · exact Or.inr (Or.inl hin)

end AddFree

/-! ### The regions -/

/-- The type of the region that contains an address. -/
def typeAt (mapped : MappedRegions) (a : ℕ) : Option MappingType :=
  (entryAt MappedRegion.size mapped a).map fun it => it.2.type

/-- The regions are disjoint intervals, each from its own address on. -/
abbrev DisjointRegions (mapped : MappedRegions) : Prop :=
  Recorded MappedRegion.vaddr MappedRegion.size uint64Max mapped

section Mapped

variable {mapped mapped' : MappedRegions} (h : DisjointRegions mapped) {vaddr size : ℕ}
  {type : MappingType}
include h

/-- **`ContainsMappedUnlocked`**: every address of the range is in a region of the
type. -/
theorem containsMapped_iff (hsize : 0 < size) :
    containsMappedUnlocked mapped vaddr size type ↔ vaddr + size ≤ uint64Max ∧
      ∀ a, vaddr ≤ a → a < vaddr + size → typeAt mapped a = some type := by
  have hwalk := walk_isSome_iff
    (fun a => (findMappedContainingUnlocked mapped a).filter
      fun region => decide (region.type = type))
    (fun region => region.vaddr + region.size) (fun a => typeAt mapped a = some type)
    (fun a hnone hsome => by
      obtain ⟨it, hit, htype⟩ := Option.map_eq_some_iff.mp hsome
      have hkey := h.keys it (h.entryAt_iff.mp hit).1
      have hfind : findMappedContainingUnlocked mapped a = some it.2 :=
        h.find_iff.mpr (by rw [hkey]; exact hit)
      rw [hfind, Option.filter_some, if_pos (decide_eq_true htype)] at hnone
      cases hnone)
    (fun a region hfind => by
      obtain ⟨hfind, htype⟩ := Option.filter_eq_some_iff.mp hfind
      obtain ⟨hit, hle, hlt⟩ := h.entryAt_iff.mp (h.find_iff.mp hfind)
      refine ⟨hlt, fun b hb hlast => ?_⟩
      rw [typeAt, h.entryAt_iff.mpr ⟨hit, hle.trans hb, hlast⟩]
      exact congrArg some (of_decide_eq_true htype)) (vaddr + size) vaddr
  rw [containsMappedUnlocked, Bool.and_eq_true, decide_eq_true_eq, hwalk]
  refine and_congr_left fun hall => ⟨fun hbound => ?_, fun hbound => ⟨by omega, by omega⟩⟩
  -- the last address is in a region, so the difference does not fall below 0
  obtain ⟨it, hit, -⟩ := Option.map_eq_some_iff.mp (hall (vaddr + size - 1) (by omega) (by omega))
  obtain ⟨hmem, hcovers⟩ := h.entryAt_iff.mp hit
  rw [extent_covers] at hcovers
  have := h.bounded it hmem
  omega

/-- **`AddMappedUnlocked`** adds a region where there is none. -/
theorem addMapped_spec (hr : addMappedUnlocked mapped vaddr size type = some mapped') :
    DisjointRegions mapped' ∧ 0 < size ∧
      entryAt MappedRegion.size mapped' = fill (entryAt MappedRegion.size mapped) vaddr
        (vaddr + size) fun _ _ => some (vaddr, ⟨vaddr, size, type⟩) := by
  unfold addMappedUnlocked at hr
  split at hr
  · cases hr
  · rename_i hbound
    split at hr
    · cases hr
    · rename_i hnext
      split at hr
      · cases hr
      · rename_i hprevious
        split at hr
        · cases hr
        · cases hr
          obtain ⟨hadded, hentries⟩ := h.emplace (v := ⟨vaddr, size, type⟩)
            (show 0 < size by omega) (show vaddr + size ≤ uint64Max by omega) fun a hle hlt => by
              dsimp only at hle hlt
              rw [OrderedMap.entryAt_eq_none]
              refine OrderedMap.not_covered_between h.tidy (fun x hx => ?_) (fun x hx => ?_) hle hlt
              · have hmem : x ∈ mapped.entries :=
                  (List.takeWhile_sublist _).subset (List.mem_of_getLast? hx)
                rw [hx, Option.any_some, decide_eq_true_eq, h.keys x hmem] at hprevious
                omega
              · have hmem : x ∈ mapped.entries :=
                  (List.dropWhile_sublist _).subset (List.mem_of_head? hx)
                rw [hx, Option.any_some, decide_eq_true_eq, h.keys x hmem] at hnext
                exact not_lt.mp hnext
          exact ⟨hadded, by omega, hentries⟩

/-- What adding a region does to the types. -/
theorem typeAt_addMapped (hr : addMappedUnlocked mapped vaddr size type = some mapped') :
    typeAt mapped' = fill (typeAt mapped) vaddr (vaddr + size) fun _ _ => some type := by
  funext a
  rw [typeAt, (addMapped_spec h hr).2.2]
  by_cases ha : vaddr ≤ a ∧ a < vaddr + size
  · rw [fill_of_mem ha, fill_of_mem ha]
    rfl
  · rw [fill_of_not_mem ha, fill_of_not_mem ha]
    rfl

/-- **The loop of `RemoveMappedUnlocked`.** -/
theorem removeMappedFrom_spec {last current : ℕ}
    (hr : removeMappedFrom mapped last current = some mapped') : DisjointRegions mapped' ∧
      typeAt mapped' = fill (typeAt mapped) current last fun _ _ => none := by
  induction mapped, current using removeMappedFrom.induct last with
  | case1 mapped current hlt ih =>
    rw [removeMappedFrom, if_pos hlt] at hr
    obtain ⟨original, hfind, hr⟩ := Option.bind_eq_some_iff.mp hr
    dsimp only at hr
    split at hr
    · rename_i hstop
      obtain ⟨left, hleft, hrest'⟩ := Option.bind_eq_some_iff.mp hr
      obtain ⟨right, hright, hlater⟩ := Option.bind_eq_some_iff.mp hrest'
      obtain ⟨hit, hcovers⟩ := h.entryAt_iff.mp (h.find_iff.mp hfind)
      rw [extent_covers] at hcovers
      dsimp only at hcovers
      obtain ⟨herased, hentries⟩ := h.erase hit
      have htype : ∀ a, original.vaddr ≤ a → a < original.vaddr + original.size →
          typeAt mapped a = some original.type := fun a hle hlt => by
        rw [typeAt, h.entryAt_iff.mpr ⟨hit, hle, hlt⟩]
        rfl
      have hrest : typeAt (mapped.erase original.vaddr)
          = fill (typeAt mapped) original.vaddr (original.vaddr + original.size)
            fun _ _ => none := by
        funext a
        rw [typeAt, hentries]
        by_cases ha : original.vaddr ≤ a ∧ a < original.vaddr + original.size
        · rw [fill_of_mem ha, fill_of_mem ha]
          rfl
        · rw [fill_of_not_mem ha, fill_of_not_mem ha]
          rfl
      -- what lies in front of the range is added again
      have hfront : DisjointRegions left ∧ typeAt left
          = fill (typeAt mapped) current (original.vaddr + original.size) fun _ _ => none := by
        split at hleft
        · refine ⟨(addMapped_spec herased hleft).1, ?_⟩
          funext a
          rw [typeAt_addMapped herased hleft, hrest]
          by_cases hin : original.vaddr ≤ a ∧ a < current
          · rw [fill_of_mem (by omega), fill_of_not_mem (by omega), htype a hin.1 (by omega)]
          · rw [fill_of_not_mem (by omega)]
            by_cases hbehind : current ≤ a ∧ a < original.vaddr + original.size
            · rw [fill_of_mem (by omega), fill_of_mem hbehind]
            · rw [fill_of_not_mem (by omega), fill_of_not_mem hbehind]
        · cases hleft
          refine ⟨herased, ?_⟩
          rw [hrest, show current = original.vaddr by omega]
      -- and so is what lies behind it
      have hboth : DisjointRegions right ∧ typeAt right = fill (typeAt mapped) current
          (min last (original.vaddr + original.size)) fun _ _ => none := by
        split at hright
        · refine ⟨(addMapped_spec hfront.1 hright).1, ?_⟩
          funext a
          rw [typeAt_addMapped hfront.1 hright, hfront.2]
          by_cases hin : min last (original.vaddr + original.size) ≤ a ∧
              a < original.vaddr + original.size
          · rw [fill_of_mem (by omega), fill_of_not_mem (by omega), htype a (by omega) hin.2]
          · rw [fill_of_not_mem (by omega)]
            by_cases hcut : current ≤ a ∧ a < min last (original.vaddr + original.size)
            · rw [fill_of_mem (by omega), fill_of_mem hcut]
            · rw [fill_of_not_mem (by omega), fill_of_not_mem hcut]
        · cases hright
          refine ⟨hfront.1, ?_⟩
          rw [hfront.2, show min last (original.vaddr + original.size)
            = original.vaddr + original.size by omega]
      obtain ⟨hdisjoint, htypes⟩ := ih original hstop right hboth.1 hlater
      refine ⟨hdisjoint, ?_⟩
      funext a
      rw [htypes, hboth.2]
      by_cases hin : current ≤ a ∧ a < last
      · rw [fill_of_mem hin]
        by_cases hbehind : min last (original.vaddr + original.size) ≤ a
        · exact fill_of_mem ⟨hbehind, hin.2⟩
        · rw [fill_of_not_mem (by omega), fill_of_mem (by omega)]
      · rw [fill_of_not_mem (by omega), fill_of_not_mem (by omega), fill_of_not_mem hin]
    · cases hr
  | case2 mapped current hlt =>
    rw [removeMappedFrom, if_neg hlt] at hr
    cases hr
    exact ⟨h, (fill_eq fun a hle ha => by omega).symm⟩

/-- **`RemoveMappedUnlocked`** takes the range out of the regions. -/
theorem removeMapped_spec (hr : removeMappedUnlocked mapped vaddr size type = some mapped') :
    DisjointRegions mapped' ∧
      typeAt mapped' = fill (typeAt mapped) vaddr (vaddr + size) fun _ _ => none := by
  unfold removeMappedUnlocked at hr
  split at hr
  · exact removeMappedFrom_spec h hr
  · cases hr

end Mapped

end Prosperismo.GuestAddressSpace
