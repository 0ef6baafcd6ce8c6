import Prosperismo.PageOwnerIndex.Tables

/-!
# The index denotes its registrations

The abstract state is a `Book`: the ranges that each owner has registered with, as they were
given. `Sound` is the invariant of the index; what the index has for an owner are the normalised
ranges (`rangesOf`), and `Denotes` says that these are the ranges of the book.

* `Sound.register` and `Sound.unregister`: what a call answers and leaves, from any index with the
  invariant. Nodes of registrations that are gone may come back, as no page still has them.
* `Sound.mem_query`, `Sound.mem_queryCandidates`: the two queries.
* `index_denotes` is the main result, for every run.
-/

namespace Prosperismo.PageOwnerIndex

open Extent MultiLevelPageTable

variable {τ : Type*} [DecidableEq τ]

/-! ### The invariant -/

/-- The invariant of the index. -/
structure Sound (index : Index τ) : Prop where
  nodes : (index.registrations.map Prod.fst).Nodup
  owners : (index.registrations.map fun item => item.2.owner).Nodup
  normal : ∀ item ∈ index.registrations, Normal item.2.ranges
  coarse : Lists index.coarsePages index.registrations
  tracking : Lists index.trackingPages index.registrations

omit [DecidableEq τ] in
theorem Sound.new : Sound (.new : Index τ) where
  nodes := List.nodup_nil
  owners := List.nodup_nil
  normal _ hitem := absurd hitem List.not_mem_nil
  coarse := .empty
  tracking := .empty

/-- The ranges that the index has for an owner. -/
def Index.rangesOf (index : Index τ) (owner : τ) : Option (List ByteRange) :=
  (index.findRegistration owner).map fun item => item.2.ranges

/-- The registration of an owner. -/
theorem Sound.findRegistration_iff {index : Index τ} (h : Sound index) {owner : τ}
    {item : Node × Registration τ} :
    index.findRegistration owner = some item ↔ item ∈ index.registrations ∧ item.2.owner = owner := by
  constructor
  · intro hfind
    exact ⟨List.mem_of_find?_eq_some hfind, of_decide_eq_true (List.find?_eq_some_iff_append.1 hfind).1⟩
  · rintro ⟨hitem, howner⟩
    cases hfind : index.findRegistration owner with
    | none =>
      have hnot := List.find?_eq_none.1 hfind item hitem
      exact absurd (decide_eq_true howner) hnot
    | some other =>
      have hother : other ∈ index.registrations := List.mem_of_find?_eq_some hfind
      have hsame : other.2.owner = owner := of_decide_eq_true (List.find?_eq_some_iff_append.1 hfind).1
      rw [List.inj_on_of_nodup_map h.owners hother hitem (hsame.trans howner.symm)]

theorem findRegistration_none {index : Index τ} {owner : τ} :
    index.findRegistration owner = none ↔ ∀ item ∈ index.registrations, item.2.owner ≠ owner := by
  refine List.find?_eq_none.trans (forall₂_congr fun item _ => ?_)
  rw [decide_eq_true_iff]

theorem Sound.rangesOf_iff {index : Index τ} (h : Sound index) {owner : τ}
    {ranges : List ByteRange} : index.rangesOf owner = some ranges ↔
      ∃ item ∈ index.registrations, item.2.owner = owner ∧ item.2.ranges = ranges := by
  unfold Index.rangesOf
  rw [Option.map_eq_some_iff]
  constructor
  · rintro ⟨item, hfind, heq⟩
    obtain ⟨hitem, howner⟩ := h.findRegistration_iff.1 hfind
    exact ⟨item, hitem, howner, heq⟩
  · rintro ⟨item, hitem, howner, heq⟩
    exact ⟨item, h.findRegistration_iff.2 ⟨hitem, howner⟩, heq⟩

/-! ### `Register` -/

/-- What a `Register` does: it is accepted if the owner is new and the ranges are acceptable. -/
structure Registered (index index' : Index τ) (owner : τ) (ranges : List ByteRange) (ok : Bool) :
    Prop where
  sound : Sound index'
  ok_iff : ok = true ↔ index.rangesOf owner = none ∧ Acceptable ranges
  unchanged : ok = false → index' = index
  ranges : ok = true → ∀ o, index'.rangesOf o =
    if o = owner then some (normalize ranges) else index.rangesOf o

/-- **`Register`** with a node that no registration has. -/
theorem Sound.register {index : Index τ} (h : Sound index) {node : Node}
    (hfresh : ∀ item ∈ index.registrations, item.1 ≠ node) (owner : τ) (ranges : List ByteRange) :
    ∃ index' ok, index.register node owner ranges = some (index', ok) ∧
      Registered index index' owner ranges ok := by
  unfold Index.register
  by_cases hfind : index.findRegistration owner = none
  · rw [hfind]
    by_cases hacceptable : Acceptable ranges
    · obtain ⟨hnormal, -⟩ := normalize_spec hacceptable
      have hne : (normalize ranges).isEmpty = false := by
        rw [Bool.eq_false_iff]
        exact fun hempty => hnormal.ne_nil (List.isEmpty_iff.1 hempty)
      have hnormal' : Normal (Registration.mk owner (normalize ranges)).ranges := hnormal
      obtain ⟨coarse, hcoarse, hlists⟩ := h.coarse.push paging_coarse hfresh hnormal'
      obtain ⟨tracking, htracking, hlists'⟩ := h.tracking.push paging_tracking hfresh hnormal'
      have hnew := findRegistration_none.1 hfind
      dsimp only at hcoarse htracking ⊢
      rw [hne, hcoarse, Option.bind_some, htracking, Option.map_some]
      refine ⟨_, true, rfl, ?_⟩
      have hsound : Sound (Index.mk coarse tracking
          (index.registrations ++ [(node, ⟨owner, normalize ranges⟩)])) :=
        { nodes := by
            rw [List.map_append, List.nodup_append']
            refine ⟨h.nodes, List.nodup_singleton node, List.disjoint_singleton.2 fun hmem => ?_⟩
            obtain ⟨item, hitem, heq⟩ := List.mem_map.1 hmem
            exact hfresh item hitem heq
          owners := by
            rw [List.map_append, List.nodup_append']
            refine ⟨h.owners, List.nodup_singleton owner, List.disjoint_singleton.2 fun hmem => ?_⟩
            obtain ⟨item, hitem, heq⟩ := List.mem_map.1 hmem
            exact hnew item hitem heq
          normal := List.forall_mem_append.2 ⟨h.normal, List.forall_mem_singleton.2 hnormal'⟩
          coarse := hlists
          tracking := hlists' }
      exact
        { sound := hsound
          ok_iff := iff_of_true rfl ⟨congrArg (Option.map _) hfind, hacceptable⟩
          unchanged := fun hok => nomatch hok
          ranges := fun _ o => by
            unfold Index.rangesOf Index.findRegistration
            rw [List.find?_append]
            split
            · next hsame =>
              -- the owner is not in front of its new registration
              subst hsame
              have hnone : (index.registrations.find? fun item => item.2.owner = o) = none := hfind
              rw [hnone]
              simp
            · next hne =>
              cases index.registrations.find? fun item => item.2.owner = o with
              | none => simp [Ne.symm hne]
              | some item => rfl }
    · rw [normalize_of_not_acceptable hacceptable]
      exact ⟨index, false, rfl, h, iff_of_false Bool.false_ne_true fun hand => hacceptable hand.2,
        fun _ => rfl, fun hok => nomatch hok⟩
  · obtain ⟨item, hitem⟩ := Option.ne_none_iff_exists'.1 hfind
    rw [hitem]
    refine ⟨index, false, rfl, h, iff_of_false Bool.false_ne_true fun hand => ?_, fun _ => rfl,
      fun hok => nomatch hok⟩
    exact hfind (Option.map_eq_none_iff.1 hand.1)

/-! ### `Unregister` -/

/-- What an `Unregister` does: the pages that no other owner touches are released. -/
structure Unregistered (index index' : Index τ) (owner : τ) (ok : Bool)
    (finalReleases : List ByteRange) : Prop where
  sound : Sound index'
  ok_iff : ok = true ↔ index.rangesOf owner ≠ none
  unchanged : ok = false → index' = index ∧ finalReleases = []
  ranges : ok = true → ∀ o, index'.rangesOf o = if o = owner then none else index.rangesOf o
  apart : extent.Apart finalReleases
  pages : ∀ range ∈ finalReleases,
    pageSize 12 ∣ range.address ∧ pageSize 12 ∣ range.address + range.size
  released : ∀ a, extent.Covered finalReleases a ↔
    (∃ ranges, index.rangesOf owner = some ranges ∧ Touches 12 ranges (a / pageSize 12)) ∧
      ∀ o ranges, o ≠ owner → index.rangesOf o = some ranges →
        ¬ Touches 12 ranges (a / pageSize 12)

/-- **`Unregister`**. -/
theorem Sound.unregister {index : Index τ} (h : Sound index) (owner : τ) :
    Unregistered index (index.unregister owner).1 owner (index.unregister owner).2.1
      (index.unregister owner).2.2 := by
  unfold Index.unregister
  cases hfind : index.findRegistration owner with
  | none =>
    have hnone : index.rangesOf owner = none := congrArg (Option.map _) hfind
    exact
      { sound := h
        ok_iff := iff_of_false Bool.false_ne_true fun hne => hne hnone
        unchanged := fun _ => ⟨rfl, rfl⟩
        ranges := fun hok => nomatch hok
        apart := .nil
        pages := fun range hrange => absurd hrange List.not_mem_nil
        released := fun a => by
          refine iff_of_false (covered_nil extent a) ?_
          rintro ⟨⟨ranges, hsome, -⟩, -⟩
          rw [hnone] at hsome
          cases hsome }
  | some item =>
    obtain ⟨node, registration⟩ := item
    obtain ⟨hitem, howner⟩ := h.findRegistration_iff.1 hfind
    have hnormal := h.normal _ hitem
    have hsome : index.rangesOf owner = some registration.ranges := congrArg (Option.map _) hfind
    have hmemberships := And.intro (h.coarse.hasAllMemberships paging_coarse hitem hnormal)
      (h.tracking.hasAllMemberships paging_tracking hitem hnormal)
    obtain ⟨hvalid, hpages⟩ := hnormal.pages paging_tracking
    have hfinal := (eraseAll_spec node (collectPages_nodup 12 registration.ranges) hvalid
      index.trackingPages).2
    dsimp only
    rw [if_pos hmemberships]
    -- nodes and owners name the same registrations
    have hother : ∀ item ∈ index.registrations, item.1 ≠ node ↔ item.2.owner ≠ owner := by
      refine fun item hitem' => not_congr ⟨fun heq => ?_, fun heq => ?_⟩
      · rw [List.inj_on_of_nodup_map h.nodes hitem' hitem heq, howner]
      · rw [List.inj_on_of_nodup_map h.owners hitem' hitem (heq.trans howner.symm)]
    have hpairs : (collectPages 12 registration.ranges).filter (fun page =>
        decide ((index.trackingPages.members page).length = 1)) =
          (index.trackingPages.eraseAll node (collectPages 12 registration.ranges)).2 := hfinal.symm
    have hlt : ((index.trackingPages.eraseAll node
        (collectPages 12 registration.ranges)).2).Pairwise (· < ·) :=
      hpairs ▸ (collectPages_lt 12 registration.ranges).filter _
    obtain ⟨hapart, hwhole, hcovered⟩ := coalesceTrackingPages_spec hlt
    have hsound : Sound (Index.mk (index.coarsePages.eraseAll node
        (collectPages 20 registration.ranges)).1 (index.trackingPages.eraseAll node
          (collectPages 12 registration.ranges)).1
        (index.registrations.filter fun item => item.1 ≠ node)) :=
      { nodes := h.nodes.sublist (List.filter_sublist.map _)
        owners := h.owners.sublist (List.filter_sublist.map _)
        normal := fun item hitem' => h.normal item (List.mem_of_mem_filter hitem')
        coarse := h.coarse.erase paging_coarse h.nodes hitem hnormal
        tracking := h.tracking.erase paging_tracking h.nodes hitem hnormal }
    exact
      { sound := hsound
        ok_iff := iff_of_true rfl (hsome ▸ Option.some_ne_none _)
        unchanged := fun hok => nomatch hok
        ranges := fun _ o => by
          refine Option.ext fun ranges => ?_
          rw [hsound.rangesOf_iff]
          dsimp only
          split
          · next hsame =>
            subst hsame
            refine iff_of_false ?_ (Option.some_ne_none ranges).symm
            rintro ⟨item, hitem', howner', -⟩
            obtain ⟨hitem', hne⟩ := List.mem_filter.1 hitem'
            exact (hother item hitem').1 (of_decide_eq_true hne) howner'
          · next hne =>
            rw [h.rangesOf_iff]
            refine exists_congr fun item => ?_
            constructor
            · rintro ⟨hitem', hrest⟩
              exact ⟨List.mem_of_mem_filter hitem', hrest⟩
            · rintro ⟨hitem', howner', hrest⟩
              refine ⟨List.mem_filter.2 ⟨hitem', decide_eq_true ?_⟩, howner', hrest⟩
              exact (hother item hitem').2 (howner' ▸ hne)
        apart := hapart
        pages := hwhole
        released := fun a => by
          rw [hcovered, ← hpairs, List.mem_filter, hpages, decide_eq_true_iff]
          constructor
          · rintro ⟨htouches, hone⟩
            refine ⟨⟨_, hsome, htouches⟩, fun o ranges hne hranges => ?_⟩
            obtain ⟨item, hitem', rfl, rfl⟩ := h.rangesOf_iff.1 hranges
            have hmem := (h.tracking.mem _ _).2 ⟨_, hitem, rfl, htouches⟩
            exact (h.tracking.length_eq_one hmem).1 hone item hitem' ((hother item hitem').2 hne)
          · rintro ⟨⟨ranges, hranges, htouches⟩, hothers⟩
            obtain rfl := Option.some.inj (hsome.symm.trans hranges)
            have hmem := (h.tracking.mem _ _).2 ⟨_, hitem, rfl, htouches⟩
            refine ⟨htouches, (h.tracking.length_eq_one hmem).2 fun item hitem' hne => ?_⟩
            exact hothers _ _ ((hother item hitem').1 hne) (h.rangesOf_iff.2 ⟨item, hitem', rfl, rfl⟩) }

/-! ### The queries -/

omit [DecidableEq τ] in
/-- The range of a query and a list of ranges have a byte in common. -/
theorem overlaps_iff {ranges : List ByteRange} (hsize : ∀ range ∈ ranges, 0 < range.size)
    {address size : ℕ} (hpos : 0 < size) : overlaps ranges address size = true ↔
      ∃ a, address ≤ a ∧ a < address + size ∧ extent.Covered ranges a := by
  unfold overlaps Covered
  rw [List.any_eq_true]
  constructor
  · rintro ⟨range, hrange, h⟩
    obtain ⟨hleft, hright⟩ := of_decide_eq_true h
    have hproper := hsize range hrange
    -- the later one of the two beginnings
    refine ⟨max address range.address, le_max_left _ _, max_lt (by omega) hleft, range, hrange,
      le_max_right _ _, ?_⟩
    exact max_lt hright (show range.address < range.address + range.size by omega)
  · rintro ⟨a, hle, hlt, range, hrange, hlo, hhi⟩
    have hlo : range.address ≤ a := hlo
    have hhi : a < range.address + range.size := hhi
    exact ⟨range, hrange, decide_eq_true ⟨by omega, by omega⟩⟩

/-- `AppendUnique` adds what is not there yet. -/
theorem appendUnique_spec {destination : List Node} (source : List Node) (h : destination.Nodup) :
    (Index.appendUnique destination source).Nodup ∧
      ∀ node, node ∈ Index.appendUnique destination source ↔
        node ∈ destination ∨ node ∈ source := by
  unfold Index.appendUnique
  induction source generalizing destination with
  | nil => exact ⟨h, fun node => (or_iff_left List.not_mem_nil).symm⟩
  | cons first source ih =>
    rw [List.foldl_cons]
    split
    · next hcontains =>
      have hmem := List.contains_iff_mem.1 hcontains
      obtain ⟨hrest, hmemrest⟩ := ih h
      refine ⟨hrest, fun node => (hmemrest node).trans ?_⟩
      rw [List.mem_cons]
      constructor
      · exact Or.imp_right Or.inr
      · rintro (hnode | rfl | hnode)
        · exact Or.inl hnode
        · exact Or.inl hmem
        · exact Or.inr hnode
    · next hcontains =>
      have hnot : first ∉ destination := fun hmem => hcontains (List.contains_iff_mem.2 hmem)
      have hnodup : (destination ++ [first]).Nodup :=
        List.nodup_append'.2 ⟨h, List.nodup_singleton first, List.disjoint_singleton.2 hnot⟩
      obtain ⟨hrest, hmemrest⟩ := ih hnodup
      refine ⟨hrest, fun node => (hmemrest node).trans ?_⟩
      rw [List.mem_append, List.mem_singleton, List.mem_cons, or_assoc]

/-- The candidates are the members of the pages, each of them once. -/
theorem candidates_spec (index : Index τ) (first count : ℕ) :
    (index.candidates first count).Nodup ∧ ∀ node, node ∈ index.candidates first count ↔
      ∃ page, first ≤ page ∧ page < first + count ∧ node ∈ index.coarsePages.members page := by
  have hloop : ∀ (pages : List ℕ) (found : List Node), found.Nodup →
      (pages.foldl (fun candidates page => Index.appendUnique candidates
        ((index.coarsePages.find page).getD [])) found).Nodup ∧
      ∀ node, node ∈ pages.foldl (fun candidates page => Index.appendUnique candidates
        ((index.coarsePages.find page).getD [])) found ↔
          node ∈ found ∨ ∃ page ∈ pages, node ∈ index.coarsePages.members page := by
    intro pages
    induction pages with
    | nil => exact fun found hfound => ⟨hfound, fun node => by simp⟩
    | cons page pages ih =>
      intro found hfound
      obtain ⟨hnodup, hmem⟩ :=
        appendUnique_spec ((index.coarsePages.find page).getD []) hfound
      refine ⟨(ih _ hnodup).1, fun node => ((ih _ hnodup).2 node).trans ?_⟩
      rw [hmem, List.exists_mem_cons_iff, or_assoc]
      rfl
  obtain ⟨hnodup, hmem⟩ := hloop (List.range' first count) [] List.nodup_nil
  refine ⟨hnodup, fun node => (hmem node).trans ?_⟩
  simp only [List.not_mem_nil, false_or, List.mem_range'_1, and_assoc]

/-- What a query asks of the ranges of an owner: a byte in its range, or one on a tracking page
that its range touches. -/
def Hits (strictBytes : Bool) (ranges : List ByteRange) (address size : ℕ) : Prop :=
  if strictBytes then ∃ a, address ≤ a ∧ a < address + size ∧ extent.Covered ranges a
  else ∃ a, extent.Covered ranges a ∧ address / pageSize 12 ≤ a / pageSize 12 ∧
    a / pageSize 12 ≤ (address + size - 1) / pageSize 12

/-- Only the bytes of the ranges count. -/
theorem Hits.congr {strictBytes : Bool} {ranges ranges' : List ByteRange} {address size : ℕ}
    (h : ∀ a, extent.Covered ranges a ↔ extent.Covered ranges' a) :
    Hits strictBytes ranges address size ↔ Hits strictBytes ranges' address size := by
  unfold Hits
  simp only [h]

/-- An owner that a query asks for is a member of a coarse page of the range. -/
theorem Hits.touches {strictBytes : Bool} {ranges : List ByteRange} {address size : ℕ}
    (h : Hits strictBytes ranges address size) : ∃ page, address / pageSize 20 ≤ page ∧
      page ≤ (address + size - 1) / pageSize 20 ∧ Touches 20 ranges page := by
  cases strictBytes with
  | true =>
    obtain ⟨a, hle, hlt, ha⟩ := h
    exact ⟨_, Nat.div_le_div_right hle, Nat.div_le_div_right (Nat.le_sub_one_of_lt hlt), a, ha, rfl⟩
  | false =>
    obtain ⟨a, ha, hle, hlt⟩ := h
    -- a coarse page consists of tracking pages
    have hcoarse : ∀ b, b / pageSize 20 = b / pageSize 12 / 256 := fun b => by
      rw [Nat.div_div_eq_div_mul]
      rfl
    refine ⟨a / pageSize 20, ?_, ?_, a, ha, rfl⟩
    · rw [hcoarse, hcoarse]
      exact Nat.div_le_div_right hle
    · rw [hcoarse, hcoarse]
      exact Nat.div_le_div_right hlt

section Query

variable {index : Index τ} (h : Sound index)

include h

/-- What a member points to. -/
theorem Sound.registration_iff {item : Node × Registration τ} :
    index.registration item.1 = some item.2 ↔ item ∈ index.registrations := by
  unfold Index.registration
  rw [Option.map_eq_some_iff]
  constructor
  · rintro ⟨other, hfind, heq⟩
    have hsame := of_decide_eq_true (List.find?_eq_some_iff_append.1 hfind).1
    exact Prod.ext hsame heq ▸ List.mem_of_find?_eq_some hfind
  · intro hitem
    cases hfind : index.registrations.find? fun other => other.1 = item.1 with
    | none =>
      have hnot := List.find?_eq_none.1 hfind item hitem
      exact absurd (decide_eq_true rfl) hnot
    | some other =>
      have hsame := of_decide_eq_true (List.find?_eq_some_iff_append.1 hfind).1
      rw [List.inj_on_of_nodup_map h.nodes (List.mem_of_find?_eq_some hfind) hitem hsame]
      exact ⟨item, rfl, rfl⟩

/-- `HasTrackingMembership`. -/
theorem Sound.hasTrackingMembership_iff {item : Node × Registration τ}
    (hitem : item ∈ index.registrations) (first last : ℕ) :
    index.hasTrackingMembership item.1 (first, last + 1) = true ↔
      ∃ page, first ≤ page ∧ page ≤ last ∧ Touches 12 item.2.ranges page := by
  have hmember : ∀ page, ((index.trackingPages.find page).any fun owners =>
      owners.contains item.1) = true ↔ Touches 12 item.2.ranges page := by
    intro page
    have hmem : item.1 ∈ index.trackingPages.members page ↔ Touches 12 item.2.ranges page := by
      rw [h.tracking.mem]
      constructor
      · rintro ⟨other, hother, heq, htouches⟩
        rwa [← List.inj_on_of_nodup_map h.nodes hother hitem heq]
      · exact fun htouches => ⟨item, hitem, rfl, htouches⟩
    rw [← hmem]
    unfold members
    cases index.trackingPages.find page with
    | none => simp
    | some owners => simp
  unfold Index.hasTrackingMembership
  rw [List.any_eq_true]
  simp only [List.mem_range'_1, hmember]
  refine exists_congr fun page => ?_
  constructor
  · rintro ⟨⟨hfirst, hlast⟩, htouches⟩
    exact ⟨hfirst, by omega, htouches⟩
  · rintro ⟨hfirst, hlast, htouches⟩
    exact ⟨⟨hfirst, by omega⟩, htouches⟩

/-- The test of a query on a candidate. -/
theorem Sound.hits_iff {item : Node × Registration τ} (hitem : item ∈ index.registrations)
    (strictBytes : Bool) {address size : ℕ} (hpos : 0 < size) :
    (if strictBytes then overlaps item.2.ranges address size else index.hasTrackingMembership item.1
      (address / pageSize 12, (address + size - 1) / pageSize 12 + 1)) = true ↔
        Hits strictBytes item.2.ranges address size := by
  unfold Hits
  cases strictBytes with
  | true => exact overlaps_iff (h.normal item hitem).size_pos hpos
  | false =>
    refine (h.hasTrackingMembership_iff hitem _ _).trans ?_
    unfold Touches
    constructor
    · rintro ⟨page, hfirst, hlast, a, ha, rfl⟩
      exact ⟨a, ha, hfirst, hlast⟩
    · rintro ⟨a, ha, hfirst, hlast⟩
      exact ⟨_, hfirst, hlast, a, ha, rfl⟩

/-- **The queries** return every owner that they ask for once, and no other. -/
theorem Sound.queryImpl_spec {address size : ℕ} (hvalid : Valid address size) (strictBytes : Bool)
    (predicate : τ → Bool) :
    (index.queryImpl address size strictBytes predicate).Nodup ∧
      ∀ owner, owner ∈ index.queryImpl address size strictBytes predicate ↔
        predicate owner = true ∧ ∃ ranges, index.rangesOf owner = some ranges ∧
          Hits strictBytes ranges address size := by
  unfold Index.queryImpl
  rw [tryGetPageRange_eq, tryGetPageRange_eq, if_pos hvalid, if_pos hvalid]
  dsimp only
  obtain ⟨hnodup, hcandidates⟩ := candidates_spec index (address / pageSize 20)
    ((address + size - 1) / pageSize 20 + 1 - address / pageSize 20)
  -- what is returned for a node
  let keep (node : Node) : Option τ := (index.registration node).bind fun registration =>
    if (if strictBytes then overlaps registration.ranges address size
        else index.hasTrackingMembership node
          (address / pageSize 12, (address + size - 1) / pageSize 12 + 1)) ∧
      predicate registration.owner then some registration.owner
    else none
  have hkeep : ∀ node owner, keep node = some owner ↔ ∃ item ∈ index.registrations,
      item.1 = node ∧ item.2.owner = owner ∧ predicate owner = true ∧
        Hits strictBytes item.2.ranges address size := by
    intro node owner
    rw [Option.bind_eq_some_iff]
    constructor
    · rintro ⟨registration, hregistration, hsome⟩
      have hitem : (node, registration) ∈ index.registrations := h.registration_iff.1 hregistration
      obtain ⟨hand, heq⟩ := Option.ite_none_right_eq_some.1 hsome
      obtain rfl := Option.some.inj heq
      exact ⟨_, hitem, rfl, rfl, hand.2, (h.hits_iff hitem strictBytes hvalid.1).1 hand.1⟩
    · rintro ⟨item, hitem, rfl, rfl, hpredicate, hhits⟩
      exact ⟨item.2, h.registration_iff.2 hitem,
        if_pos ⟨(h.hits_iff hitem strictBytes hvalid.1).2 hhits, hpredicate⟩⟩
  constructor
  · refine hnodup.filterMap fun node node' owner howner howner' => ?_
    obtain ⟨item, hitem, rfl, rfl, -⟩ := (hkeep node owner).1 howner
    obtain ⟨item', hitem', rfl, hsame, -⟩ := (hkeep node' _).1 howner'
    rw [List.inj_on_of_nodup_map h.owners hitem hitem' hsame.symm]
  · intro owner
    rw [List.mem_filterMap]
    constructor
    · rintro ⟨node, -, howner⟩
      obtain ⟨item, hitem, -, rfl, hpredicate, hhits⟩ := (hkeep node owner).1 howner
      exact ⟨hpredicate, item.2.ranges, h.rangesOf_iff.2 ⟨item, hitem, rfl, rfl⟩, hhits⟩
    · rintro ⟨hpredicate, ranges, hranges, hhits⟩
      obtain ⟨item, hitem, rfl, rfl⟩ := h.rangesOf_iff.1 hranges
      obtain ⟨page, hfirst, hlast, htouches⟩ := hhits.touches
      refine ⟨item.1, (hcandidates item.1).2 ⟨page, hfirst, by omega, ?_⟩,
        (hkeep item.1 _).2 ⟨item, hitem, rfl, rfl, hpredicate, hhits⟩⟩
      exact (h.coarse.mem page item.1).2 ⟨item, hitem, rfl, htouches⟩

omit [DecidableEq τ] h in
/-- A query whose range is empty or leaves the address space returns nothing. -/
theorem queryImpl_of_not_valid (index : Index τ) {address size : ℕ} (hvalid : ¬ Valid address size)
    (strictBytes : Bool) (predicate : τ → Bool) :
    index.queryImpl address size strictBytes predicate = [] := by
  unfold Index.queryImpl
  rw [tryGetPageRange_eq, if_neg hvalid]

end Query

/-! ### Runs -/

/-- What a call shows. -/
inductive Event (τ : Type*)
  | registered (owner : τ) (ranges : List ByteRange) (ok : Bool)
  | unregistered (owner : τ) (ok : Bool) (finalReleases : List ByteRange)

/-- `Step index e index'`: a call returns. The node of a new registration is one that no
registration has. -/
inductive Step : Index τ → Event τ → Index τ → Prop
  | register {index index' : Index τ} {owner : τ} {ranges : List ByteRange} {ok : Bool}
      (node : Node) (hfresh : ∀ item ∈ index.registrations, item.1 ≠ node)
      (h : index.register node owner ranges = some (index', ok)) :
      Step index (.registered owner ranges ok) index'
  | unregister {index : Index τ} (owner : τ) :
      Step index (.unregistered owner (index.unregister owner).2.1 (index.unregister owner).2.2)
        (index.unregister owner).1

/-- The ranges that each owner has registered with, as they were given. -/
abbrev Book (τ : Type*) := τ → Option (List ByteRange)

/-- What a call does to the book. -/
def Book.after (book : Book τ) : Event τ → Book τ
  | .registered owner ranges true => Function.update book owner (some ranges)
  | .unregistered owner true _ => Function.update book owner none
  | _ => book

/-- The book after a list of calls. -/
def Book.of (events : List (Event τ)) : Book τ := events.foldl Book.after fun _ => none

/-- The index has the normalised ranges of the book. -/
structure Denotes (index : Index τ) (book : Book τ) : Prop where
  sound : Sound index
  acceptable : ∀ owner ranges, book owner = some ranges → Acceptable ranges
  ranges : ∀ owner, index.rangesOf owner = (book owner).map normalize

/-- **One step** keeps the index and the book together. -/
theorem Denotes.step {index index' : Index τ} {book : Book τ} {e : Event τ}
    (h : Denotes index book) (hstep : Step index e index') : Denotes index' (book.after e) := by
  cases hstep with
  | @register _ owner ranges ok node hfresh hregister =>
    obtain ⟨index₁, ok₁, hregister₁, hspec⟩ := h.sound.register hfresh owner ranges
    obtain ⟨rfl, rfl⟩ := Prod.mk.inj (Option.some.inj (hregister₁.symm.trans hregister))
    cases ok₁ with
    | false =>
      rw [hspec.unchanged rfl]
      exact h
    | true =>
      refine ⟨hspec.sound, fun o list hlist => ?_, fun o => ?_⟩
      · change Function.update book owner (some ranges) o = some list at hlist
        rw [Function.update_apply] at hlist
        split at hlist
        · exact Option.some.inj hlist ▸ (hspec.ok_iff.1 rfl).2
        · exact h.acceptable o list hlist
      · rw [hspec.ranges rfl o]
        show _ = (Function.update book owner (some ranges) o).map normalize
        rw [Function.update_apply]
        split
        · rfl
        · exact h.ranges o
  | unregister owner =>
    have hspec := h.sound.unregister owner
    cases hok : (index.unregister owner).2.1 with
    | false =>
      rw [(hspec.unchanged hok).1]
      exact h
    | true =>
      refine ⟨hspec.sound, fun o list hlist => ?_, fun o => ?_⟩
      · change Function.update book owner none o = some list at hlist
        rw [Function.update_apply] at hlist
        split at hlist
        · cases hlist
        · exact h.acceptable o list hlist
      · rw [hspec.ranges hok o]
        show _ = (Function.update book owner none o).map normalize
        rw [Function.update_apply]
        split
        · rfl
        · exact h.ranges o

/-- The invariant along a run. -/
theorem Denotes.run {index : Index τ} {events : List (Event τ)}
    (hrun : Run Step .new events index) : Denotes index (Book.of events) := by
  refine hrun.history (I := fun events index => Denotes index (Book.of events)) ?_ ?_
  · exact { sound := .new, acceptable := fun _ _ hlist => (nomatch hlist), ranges := fun _ => rfl }
  · intro events index e index' h hstep
    unfold Book.of at h ⊢
    rw [List.foldl_append]
    exact h.step hstep

/-- The index has ranges for an owner exactly if the book has. -/
theorem Denotes.rangesOf_eq_none {index : Index τ} {book : Book τ} (h : Denotes index book)
    (owner : τ) : index.rangesOf owner = none ↔ book owner = none := by
  rw [h.ranges, Option.map_eq_none_iff]

/-- What is said about the bytes of the ranges of an owner is said about those of the book. -/
theorem Denotes.exists_ranges {index : Index τ} {book : Book τ} (h : Denotes index book)
    {P : List ByteRange → Prop}
    (hP : ∀ ranges ranges', (∀ a, extent.Covered ranges a ↔ extent.Covered ranges' a) →
      (P ranges ↔ P ranges')) (owner : τ) :
    (∃ ranges, index.rangesOf owner = some ranges ∧ P ranges) ↔
      ∃ ranges, book owner = some ranges ∧ P ranges := by
  rw [h.ranges]
  constructor
  · rintro ⟨_, hsome, hp⟩
    obtain ⟨ranges, hranges, rfl⟩ := Option.map_eq_some_iff.1 hsome
    exact ⟨ranges, hranges, (hP _ _ (normalize_spec (h.acceptable owner ranges hranges)).2).1 hp⟩
  · rintro ⟨ranges, hranges, hp⟩
    refine ⟨normalize ranges, by rw [hranges, Option.map_some], ?_⟩
    exact (hP _ _ (normalize_spec (h.acceptable owner ranges hranges)).2).2 hp

theorem touches_congr {ranges ranges' : List ByteRange}
    (h : ∀ a, extent.Covered ranges a ↔ extent.Covered ranges' a) (page : ℕ) :
    Touches 12 ranges page ↔ Touches 12 ranges' page :=
  exists_congr fun a => and_congr_left' (h a)

/-- The queries in terms of the book. -/
theorem Denotes.queryImpl_spec {index : Index τ} {book : Book τ} (h : Denotes index book)
    {address size : ℕ} (hvalid : Valid address size) (strictBytes : Bool) (predicate : τ → Bool) :
    (index.queryImpl address size strictBytes predicate).Nodup ∧
      ∀ owner, owner ∈ index.queryImpl address size strictBytes predicate ↔
        predicate owner = true ∧ ∃ ranges, book owner = some ranges ∧
          Hits strictBytes ranges address size := by
  obtain ⟨hnodup, hmem⟩ := h.sound.queryImpl_spec hvalid strictBytes predicate
  refine ⟨hnodup, fun owner => (hmem owner).trans (and_congr_right fun _ => ?_)⟩
  exact h.exists_ranges (fun _ _ => Hits.congr) owner

/-- The released pages in terms of the book. -/
theorem Denotes.released_iff {index : Index τ} {book : Book τ} (h : Denotes index book)
    (owner : τ) (a : ℕ) : extent.Covered (index.unregister owner).2.2 a ↔
      (∃ ranges, book owner = some ranges ∧ Touches 12 ranges (a / pageSize 12)) ∧
        ¬ ∃ o, o ≠ owner ∧ ∃ ranges, book o = some ranges ∧ Touches 12 ranges (a / pageSize 12) := by
  have hcongr := fun ranges ranges' heq => @touches_congr ranges ranges' heq (a / pageSize 12)
  rw [(h.sound.unregister owner).released, h.exists_ranges hcongr]
  refine and_congr_right fun _ => ?_
  constructor
  · rintro hnone ⟨o, hne, hsome⟩
    obtain ⟨ranges, hranges, htouches⟩ := (h.exists_ranges hcongr o).2 hsome
    exact hnone o ranges hne hranges htouches
  · intro hnone o ranges hne hranges htouches
    exact hnone ⟨o, hne, (h.exists_ranges hcongr o).1 ⟨ranges, hranges, htouches⟩⟩

/-- **The index denotes its registrations.** After every run of calls, with the book of the ranges
as they were given:

* a query for the bytes of a range of the address space returns every registered owner that has a
  byte there, once, and no other; a query for candidates does so for the owners that touch one of
  its pages; a query whose range is empty or leaves the address space returns nothing;
* a registration never stops the program; it is accepted exactly if the owner is not registered
  and there are ranges, all of them of the address space;
* an owner can be unregistered exactly if it is registered, and what is released are the maximal
  ranges of pages that it touches and no other owner does;
* a call that is refused leaves the index as it was. -/
theorem index_denotes {index : Index τ} {events : List (Event τ)}
    (hrun : Run Step .new events index) :
    (∀ address size predicate, Valid address size →
      ((index.query address size predicate).Nodup ∧
        ∀ owner, owner ∈ index.query address size predicate ↔ predicate owner = true ∧
          ∃ ranges, Book.of events owner = some ranges ∧
            ∃ a, address ≤ a ∧ a < address + size ∧ extent.Covered ranges a) ∧
      (index.queryCandidates address size predicate).Nodup ∧
        ∀ owner, owner ∈ index.queryCandidates address size predicate ↔ predicate owner = true ∧
          ∃ ranges, Book.of events owner = some ranges ∧
            ∃ a, extent.Covered ranges a ∧ address / pageSize 12 ≤ a / pageSize 12 ∧
              a / pageSize 12 ≤ (address + size - 1) / pageSize 12) ∧
    (∀ address size predicate, ¬ Valid address size →
      index.query address size predicate = [] ∧ index.queryCandidates address size predicate = []) ∧
    (∀ node owner ranges, (∀ item ∈ index.registrations, item.1 ≠ node) →
      ∃ index' ok, index.register node owner ranges = some (index', ok) ∧
        (ok = true ↔ Book.of events owner = none ∧ Acceptable ranges) ∧
        (ok = false → index' = index)) ∧
    ∀ owner index' ok finalReleases, index.unregister owner = (index', ok, finalReleases) →
      (ok = true ↔ Book.of events owner ≠ none) ∧ (ok = false → index' = index) ∧
      extent.Apart finalReleases ∧
      (∀ range ∈ finalReleases,
        pageSize 12 ∣ range.address ∧ pageSize 12 ∣ range.address + range.size) ∧
      ∀ a, extent.Covered finalReleases a ↔
        (∃ ranges, Book.of events owner = some ranges ∧ Touches 12 ranges (a / pageSize 12)) ∧
          ¬ ∃ o, o ≠ owner ∧
            ∃ ranges, Book.of events o = some ranges ∧ Touches 12 ranges (a / pageSize 12) := by
  have h := Denotes.run hrun
  refine ⟨fun address size predicate hvalid => ⟨?_, ?_⟩, fun address size predicate hvalid => ?_,
    fun node owner ranges hfresh => ?_, fun owner index' ok finalReleases hunregister => ?_⟩
  · exact h.queryImpl_spec hvalid true predicate
  · exact h.queryImpl_spec hvalid false predicate
  · exact ⟨queryImpl_of_not_valid index hvalid true predicate,
      queryImpl_of_not_valid index hvalid false predicate⟩
  · obtain ⟨index', ok, hregister, hspec⟩ := h.sound.register hfresh owner ranges
    exact ⟨index', ok, hregister,
      hspec.ok_iff.trans (and_congr_left' (h.rangesOf_eq_none owner)), hspec.unchanged⟩
  · have hspec := h.sound.unregister owner
    have hreleased := h.released_iff owner
    rw [hunregister] at hspec hreleased
    exact ⟨hspec.ok_iff.trans (not_congr (h.rangesOf_eq_none owner)),
      fun hok => (hspec.unchanged hok).1, hspec.apart, hspec.pages, hreleased⟩

/-- The first registration of an index. -/
theorem run_single (owner : τ) {ranges : List ByteRange} (h : Acceptable ranges) :
    ∃ index, Run Step (.new : Index τ) [.registered owner ranges true] index := by
  have hfresh : ∀ item ∈ (.new : Index τ).registrations, item.1 ≠ 0 :=
    fun item hitem => absurd hitem List.not_mem_nil
  obtain ⟨index, ok, hregister, hspec⟩ := (Sound.new (τ := τ)).register hfresh owner ranges
  obtain rfl : ok = true := hspec.ok_iff.2 ⟨rfl, h⟩
  exact ⟨index, .single (.register 0 hfresh hregister)⟩

/-- Two planes of one image that overlap: the image is returned once, for a range that only the
second plane reaches. -/
theorem index_denotes_planes : ∃ index : Index ℕ,
    Run Step .new [.registered 7 [⟨0x101000, 0x2800⟩, ⟨0x102000, 0x3000⟩] true] index ∧
      7 ∈ index.query 0x104000 0x1000 (fun _ => true) ∧
      (index.query 0x104000 0x1000 fun _ => true).Nodup := by
  have hacceptable : Acceptable [⟨0x101000, 0x2800⟩, ⟨0x102000, 0x3000⟩] := by decide
  obtain ⟨index, hrun⟩ := run_single 7 hacceptable
  obtain ⟨hnodup, hmem⟩ := ((index_denotes hrun).1 0x104000 0x1000 (fun _ => true) (by decide)).1
  refine ⟨index, hrun, (hmem 7).2 ⟨rfl, _, rfl, 0x104000, le_rfl, by decide, ?_⟩, hnodup⟩
  exact ⟨⟨0x102000, 0x3000⟩, by decide, by decide⟩

/-- **A query that leaves the address space** does not see an owner with bytes in its range. -/
theorem query_leaves_address_space : ∃ index : Index ℕ,
    Run Step .new [.registered 7 [⟨0xfffffff000, 0x1000⟩] true] index ∧
      extent.Covers ⟨0xfffffff000, 0x1000⟩ 0xfffffff000 ∧
      index.query 0xfffffff000 0x2000 (fun _ => true) = [] := by
  have hacceptable : Acceptable [⟨0xfffffff000, 0x1000⟩] := by decide
  obtain ⟨index, hrun⟩ := run_single 7 hacceptable
  exact ⟨index, hrun, by decide, queryImpl_of_not_valid index (by decide) true _⟩

end Prosperismo.PageOwnerIndex
