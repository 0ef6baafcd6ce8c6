import Mathlib.Data.List.Nodup
import Prosperismo.PageOwnerIndex.Pages

/-!
# The page tables

What the members of every page are after the loops of `Register` and `Unregister`
(`pushAll_spec`, `eraseAll_spec`), whatever buckets there were before.

`Lists table registrations` says that a table and the registrations belong together: the members
of a page are the registrations that touch it, each of them once. Both tables have it for their
own page size, and the two operations keep it (`Lists.push`, `Lists.erase`).
-/

namespace Prosperismo.PageOwnerIndex

open MultiLevelPageTable

variable {pageBits : ℕ} {τ : Type*}

/-! ### Members -/

/-- The members of a page. -/
def MultiLevelPageTable.members (table : MultiLevelPageTable pageBits) (page : ℕ) : List Node :=
  (table.find page).getD []

/-- An invalid page has no members. -/
theorem members_of_not_valid (table : MultiLevelPageTable pageBits) {page : ℕ}
    (h : isValidPage pageBits page = false) : table.members page = [] := by
  unfold members find
  rw [h]
  rfl

/-- The members of a valid page, by its bucket. -/
theorem members_of_valid (table : MultiLevelPageTable pageBits) {page : ℕ}
    (h : isValidPage pageBits page = true) : table.members page =
      ((table.firstLevel (page / bucketEntries)).getD fun _ => []) (page % bucketEntries) := by
  unfold members find
  rw [if_pos h]
  cases table.firstLevel (page / bucketEntries) with
  | none => rfl
  | some bucket => rfl

/-- Writing the entry of a page, in the bucket that the page has or gets. -/
theorem members_write (table : MultiLevelPageTable pageBits) {page : ℕ}
    (h : isValidPage pageBits page = true) (list : List Node) (other : ℕ) :
    (table.write ((table.firstLevel (page / bucketEntries)).getD fun _ => []) page list).members
      other = if other = page then list else table.members other := by
  by_cases hvalid : isValidPage pageBits other = true
  · rw [members_of_valid _ hvalid, members_of_valid _ hvalid]
    unfold write
    dsimp only
    by_cases hbucket : other / bucketEntries = page / bucketEntries
    · rw [hbucket, Function.update_self, Option.getD_some]
      by_cases hentry : other % bucketEntries = page % bucketEntries
      · have hsame : other = page := by
          rw [← Nat.div_add_mod other bucketEntries, hbucket, hentry, Nat.div_add_mod]
        rw [hentry, Function.update_self, if_pos hsame]
      · have hne : other ≠ page := fun hsame => hentry (congrArg (· % bucketEntries) hsame)
        rw [Function.update_of_ne hentry, if_neg hne]
    · have hne : other ≠ page := fun hsame => hbucket (congrArg (· / bucketEntries) hsame)
      rw [Function.update_of_ne hbucket, if_neg hne]
  · have hne : other ≠ page := fun hsame => hvalid (hsame ▸ h)
    rw [Bool.not_eq_true] at hvalid
    rw [if_neg hne, members_of_not_valid _ hvalid, members_of_not_valid _ hvalid]

/-- **`GetOrCreate` and `push_back`** add a member to a page. -/
theorem pushBack_spec (table : MultiLevelPageTable pageBits) {page : ℕ}
    (h : isValidPage pageBits page = true) (node : Node) :
    ∃ table', table.pushBack page node = some table' ∧ ∀ other, table'.members other =
      if other = page then table.members other ++ [node] else table.members other := by
  refine ⟨_, if_pos h, fun other => ?_⟩
  rw [members_write _ h]
  split
  · next hsame => rw [hsame, members_of_valid _ h]
  · rfl

/-- **`EraseExact`** takes a member from a page. -/
theorem members_eraseExact (table : MultiLevelPageTable pageBits) {page : ℕ}
    (h : isValidPage pageBits page = true) (node : Node) (other : ℕ) :
    (table.eraseExact page node).members other =
      if other = page then (table.members other).erase node else table.members other := by
  have hmembers := members_of_valid table h
  have hwrite := members_write table h
  unfold eraseExact
  cases hbucket : table.firstLevel (page / bucketEntries) with
  | none =>
    -- a page without a bucket has no members
    rw [hbucket] at hmembers
    dsimp only
    split
    · next hsame =>
      rw [hsame, hmembers]
      rfl
    · rfl
  | some bucket =>
    rw [hbucket] at hwrite hmembers
    rw [Option.getD_some] at hwrite
    dsimp only
    rw [hwrite]
    split
    · next hsame =>
      rw [hsame, hmembers]
      rfl
    · rfl

/-- **The loops of `Register`**. -/
theorem pushAll_spec (node : Node) {pages : List ℕ} (hpages : pages.Nodup)
    (hvalid : ∀ page ∈ pages, isValidPage pageBits page = true)
    (table : MultiLevelPageTable pageBits) :
    ∃ table', table.pushAll node pages = some table' ∧ ∀ page, table'.members page =
      if page ∈ pages then table.members page ++ [node] else table.members page := by
  induction pages generalizing table with
  | nil => exact ⟨table, rfl, fun page => (if_neg List.not_mem_nil).symm⟩
  | cons first pages ih =>
    obtain ⟨hfirst, hrest⟩ := List.forall_mem_cons.1 hvalid
    obtain ⟨hnot, hnodup⟩ := List.nodup_cons.1 hpages
    obtain ⟨table₁, hpush, hmembers₁⟩ := pushBack_spec table hfirst node
    obtain ⟨table', hpushAll, hmembers⟩ := ih hnodup hrest table₁
    refine ⟨table', by rw [pushAll, hpush, Option.bind_some, hpushAll], fun page => ?_⟩
    rw [hmembers, hmembers₁]
    by_cases hsame : page = first
    · subst hsame
      rw [if_neg hnot, if_pos rfl, if_pos List.mem_cons_self]
    · rw [if_neg hsame]
      simp only [List.mem_cons, hsame, false_or]

/-- **The loops of `Unregister`**. -/
theorem eraseAll_spec (node : Node) {pages : List ℕ} (hpages : pages.Nodup)
    (hvalid : ∀ page ∈ pages, isValidPage pageBits page = true)
    (table : MultiLevelPageTable pageBits) :
    (∀ page, (table.eraseAll node pages).1.members page =
      if page ∈ pages then (table.members page).erase node else table.members page) ∧
    (table.eraseAll node pages).2 =
      pages.filter fun page => decide ((table.members page).length = 1) := by
  induction pages generalizing table with
  | nil => exact ⟨fun page => (if_neg List.not_mem_nil).symm, rfl⟩
  | cons first pages ih =>
    obtain ⟨hfirst, hrest⟩ := List.forall_mem_cons.1 hvalid
    obtain ⟨hnot, hnodup⟩ := List.nodup_cons.1 hpages
    have herase := members_eraseExact table hfirst node
    obtain ⟨hmembers, hfinal⟩ := ih hnodup hrest (table.eraseExact first node)
    constructor
    · intro page
      show ((table.eraseExact first node).eraseAll node pages).1.members page = _
      rw [hmembers, herase]
      by_cases hsame : page = first
      · subst hsame
        rw [if_neg hnot, if_pos rfl, if_pos List.mem_cons_self]
      · rw [if_neg hsame]
        simp only [List.mem_cons, hsame, false_or]
    · -- erasing from the first page does not change the others
      have hsame : (pages.filter fun page =>
          decide (((table.eraseExact first node).members page).length = 1)) =
            pages.filter fun page => decide ((table.members page).length = 1) := by
        refine List.filter_congr fun page hpage => ?_
        have hne : page ≠ first := fun hsame => hnot (hsame ▸ hpage)
        rw [herase, if_neg hne]
      show (if (table.members first).length = 1 then
          first :: ((table.eraseExact first node).eraseAll node pages).2
        else ((table.eraseExact first node).eraseAll node pages).2) = _
      rw [hfinal, hsame, List.filter_cons]
      simp only [decide_eq_true_eq]

/-! ### Tables and registrations -/

/-- The members of every page are the registrations that touch it, each of them once. -/
structure Lists (table : MultiLevelPageTable pageBits)
    (registrations : List (Node × Registration τ)) : Prop where
  nodup : ∀ page, (table.members page).Nodup
  mem : ∀ page node, node ∈ table.members page ↔
    ∃ item ∈ registrations, item.1 = node ∧ Touches pageBits item.2.ranges page

theorem Lists.empty : Lists (.empty : MultiLevelPageTable pageBits)
    ([] : List (Node × Registration τ)) := by
  have hnone : ∀ page, (.empty : MultiLevelPageTable pageBits).members page = [] := by
    intro page
    unfold members find
    split <;> rfl
  constructor
  · exact fun page => hnone page ▸ List.nodup_nil
  · intro page node
    rw [hnone]
    simp

/-- The pages of normalised ranges are valid, and they are those that the ranges touch. -/
theorem Normal.pages {ranges : List ByteRange} (h : Normal ranges) (hpaging : Paging pageBits) :
    (∀ page ∈ collectPages pageBits ranges, isValidPage pageBits page = true) ∧
      ∀ page, page ∈ collectPages pageBits ranges ↔ Touches pageBits ranges page := by
  have hmem : ∀ page, page ∈ collectPages pageBits ranges ↔ Touches pageBits ranges page :=
    fun page => mem_collectPages hpaging h.size_pos
  refine ⟨fun page hpage => ?_, hmem⟩
  obtain ⟨a, ha, rfl⟩ := (hmem page).1 hpage
  exact hpaging.isValidPage (h.lt_addressSpaceSize ha)

/-- **A registration** becomes a member of the pages it touches. -/
theorem Lists.push {table : MultiLevelPageTable pageBits}
    {registrations : List (Node × Registration τ)} (h : Lists table registrations)
    (hpaging : Paging pageBits) {node : Node} (hfresh : ∀ item ∈ registrations, item.1 ≠ node)
    {registration : Registration τ} (hnormal : Normal registration.ranges) :
    ∃ table', table.pushAll node (collectPages pageBits registration.ranges) = some table' ∧
      Lists table' (registrations ++ [(node, registration)]) := by
  obtain ⟨hvalid, hpages⟩ := hnormal.pages hpaging
  obtain ⟨table', hpush, hmembers⟩ :=
    pushAll_spec node (collectPages_nodup pageBits registration.ranges) hvalid table
  have hnew : ∀ page, node ∉ table.members page := fun page hmem => by
    obtain ⟨item, hitem, heq, -⟩ := (h.mem page node).1 hmem
    exact hfresh item hitem heq
  refine ⟨table', hpush, fun page => ?_, fun page other => ?_⟩
  · rw [hmembers]
    split
    · exact List.nodup_append'.2 ⟨h.nodup page, List.nodup_singleton node,
        List.disjoint_singleton.2 (hnew page)⟩
    · exact h.nodup page
  · have hold : other ∈ table'.members page ↔
        other ∈ table.members page ∨ (node = other ∧ Touches pageBits registration.ranges page) := by
      rw [hmembers, ← hpages]
      split
      · next hpage =>
        rw [List.mem_append, List.mem_singleton, eq_comm (a := other)]
        exact or_congr_right (iff_self_and.2 fun _ => hpage)
      · next hpage => exact (or_iff_left fun hand => hpage hand.2).symm
    rw [hold, h.mem]
    simp only [List.mem_append, List.mem_singleton, or_and_right, exists_or, exists_eq_left]

/-- **A registration that goes** is no member of any page any more. -/
theorem Lists.erase {table : MultiLevelPageTable pageBits}
    {registrations : List (Node × Registration τ)} (h : Lists table registrations)
    (hpaging : Paging pageBits) (hnodes : (registrations.map Prod.fst).Nodup)
    {node : Node} {registration : Registration τ} (hitem : (node, registration) ∈ registrations)
    (hnormal : Normal registration.ranges) :
    Lists (table.eraseAll node (collectPages pageBits registration.ranges)).1
      (registrations.filter fun item => item.1 ≠ node) := by
  obtain ⟨hvalid, hpages⟩ := hnormal.pages hpaging
  have hmembers :=
    (eraseAll_spec node (collectPages_nodup pageBits registration.ranges) hvalid table).1
  -- a page that is not visited does not have the node
  have hsame : ∀ page, (table.eraseAll node (collectPages pageBits registration.ranges)).1.members
      page = (table.members page).erase node := by
    intro page
    rw [hmembers]
    split
    · rfl
    · next hnot =>
      refine (List.erase_of_not_mem fun hmem => hnot ?_).symm
      obtain ⟨item, hitem', heq, htouches⟩ := (h.mem page node).1 hmem
      obtain rfl : item = (node, registration) := List.inj_on_of_nodup_map hnodes hitem' hitem heq
      exact (hpages page).2 htouches
  refine ⟨fun page => ?_, fun page other => ?_⟩
  · rw [hsame]
    exact (h.nodup page).erase node
  · rw [hsame, (h.nodup page).mem_erase_iff, h.mem]
    simp only [List.mem_filter, decide_not, Bool.not_eq_true', decide_eq_false_iff_not]
    constructor
    · rintro ⟨hne, item, hitem', rfl, htouches⟩
      exact ⟨item, ⟨hitem', hne⟩, rfl, htouches⟩
    · rintro ⟨item, ⟨hitem', hne⟩, rfl, htouches⟩
      exact ⟨hne, item, hitem', rfl, htouches⟩

/-- The memberships that `Unregister` looks for are there. -/
theorem Lists.hasAllMemberships {table : MultiLevelPageTable pageBits}
    {registrations : List (Node × Registration τ)} (h : Lists table registrations)
    (hpaging : Paging pageBits) {node : Node} {registration : Registration τ}
    (hitem : (node, registration) ∈ registrations) (hnormal : Normal registration.ranges) :
    table.hasAllMemberships (collectPages pageBits registration.ranges) node = true := by
  unfold MultiLevelPageTable.hasAllMemberships
  rw [List.all_eq_true]
  intro page hpage
  have hmem := (h.mem page node).2
    ⟨_, hitem, rfl, ((hnormal.pages hpaging).2 page).1 hpage⟩
  unfold members at hmem
  cases hfind : table.find page with
  | none =>
    rw [hfind] at hmem
    exact absurd hmem List.not_mem_nil
  | some owners =>
    rw [hfind] at hmem
    exact List.contains_iff_mem.2 hmem

/-- A registration is the only member of a page exactly if no other one touches the page. -/
theorem Lists.length_eq_one {table : MultiLevelPageTable pageBits}
    {registrations : List (Node × Registration τ)} (h : Lists table registrations) {node : Node}
    {page : ℕ} (hmem : node ∈ table.members page) :
    (table.members page).length = 1 ↔ ∀ item ∈ registrations, item.1 ≠ node →
      ¬ Touches pageBits item.2.ranges page := by
  constructor
  · intro hone item hitem hne htouches
    obtain ⟨only, hsingle⟩ := List.length_eq_one_iff.1 hone
    have hother := (h.mem page item.1).2 ⟨item, hitem, rfl, htouches⟩
    rw [hsingle, List.mem_singleton] at hmem hother
    exact hne (hother.trans hmem.symm)
  · intro hnone
    -- every member is the node, and none occurs twice
    refine List.length_eq_one_iff.2 ⟨node, ?_⟩
    refine List.Perm.singleton_eq ((List.perm_ext_iff_of_nodup (List.nodup_singleton node)
      (h.nodup page)).2 fun other => ?_) |>.symm
    rw [List.mem_singleton]
    constructor
    · rintro rfl
      exact hmem
    · intro hother
      by_contra hne
      obtain ⟨item, hitem, rfl, htouches⟩ := (h.mem page other).1 hother
      exact hnone item hitem hne htouches

end Prosperismo.PageOwnerIndex
