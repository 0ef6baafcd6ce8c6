import Prosperismo.Base.DoublyLinked
import Mathlib.Order.Lattice
import Mathlib.Data.List.Pairwise
import Mathlib.Data.List.Perm.Subperm
import Mathlib.Data.Nat.Basic

/-!
# `LeastRecentlyUsedCache`

The cache of `lruCache.h`: items in slots, the slots that are free, and a list through the items
that are in use. The pointers of an item are `Links` between slots. -/

namespace Prosperismo

/-- `LeastRecentlyUsedCache::Item`, without its pointers. -/
structure LruItem (Object Tick : Type) where
  object : Object
  tick : Tick

/-- `LeastRecentlyUsedCache`. -/
structure LruCache (Object Tick : Type) where
  items : List (LruItem Object Tick)
  free : List ℕ
  links : Links ℕ

namespace LruCache

variable {Object Tick : Type}

/-- A cache that is constructed. -/
def empty : LruCache Object Tick := ⟨[], [], ⟨fun _ => none, fun _ => none, none, none⟩⟩

variable [Inhabited Object] [Inhabited Tick]

/-- `Build`. -/
def build (cache : LruCache Object Tick) : ℕ × LruCache Object Tick :=
  match cache.free with
  | [] =>
    let id := cache.items.length
    (id, { cache with
      items := cache.items ++ [⟨default, default⟩]
      links := { cache.links with
        next := Function.update cache.links.next id none
        prev := Function.update cache.links.prev id none } })
  | id :: free => (id, { cache with free := free })

/-- `Insert`. -/
def insert (cache : LruCache Object Tick) (object : Object) (tick : Tick) :
    ℕ × LruCache Object Tick :=
  let (id, cache) := cache.build
  (id, { cache with
    items := cache.items.set id ⟨object, tick⟩
    links := cache.links.attach id })

/-- `Free`. -/
def release (cache : LruCache Object Tick) (id : ℕ) : LruCache Object Tick :=
  let links := cache.links.detach id
  { cache with
    links := { links with
      next := Function.update links.next id none
      prev := Function.update links.prev id none }
    free := cache.free ++ [id] }

variable [LinearOrder Tick]

/-- `Touch`. -/
def touch (cache : LruCache Object Tick) (id : ℕ) (tick : Tick) : LruCache Object Tick :=
  match cache.items[id]? with
  | none => cache
  | some item =>
    if tick ≤ item.tick then cache
    else
      let cache := { cache with items := cache.items.set id { item with tick := tick } }
      if cache.links.last ≠ some id then
        { cache with links := (cache.links.detach id).attach id }
      else cache

/-- What the function given to `ForEachItemBelow` does with an item: its own state, whether it frees
the item, and whether it returns `true`. -/
structure Visit (State : Type) where
  state : State
  frees : Bool
  stops : Bool

/-- The loop of `ForEachItemBelow`, with at most `fuel` rounds: the state of the function, the items
that were visited, and the cache. -/
def forEachLoop {State : Type} (function : State → ℕ → Object → Visit State) (tick : Tick) :
    ℕ → Option ℕ → State → List ℕ → LruCache Object Tick →
    Option (State × List ℕ × LruCache Object Tick)
  | 0, _, _, _, _ => none
  | _ + 1, none, state, visited, cache => some (state, visited, cache)
  | fuel + 1, some id, state, visited, cache =>
    match cache.items[id]? with
    | none => none
    | some item =>
      if tick < item.tick then some (state, visited, cache)
      else
        let next := cache.links.next id
        let visit := function state id item.object
        let cache := if visit.frees then cache.release id else cache
        if visit.stops then some (visit.state, visited ++ [id], cache)
        else forEachLoop function tick fuel next visit.state (visited ++ [id]) cache

/-- `ForEachItemBelow`. A round visits an item that the list had when the call began. -/
def forEachItemBelow {State : Type} (cache : LruCache Object Tick) (tick : Tick)
    (function : State → ℕ → Object → Visit State) (state : State) :
    Option (State × List ℕ × LruCache Object Tick) :=
  forEachLoop function tick (cache.items.length + 1) cache.links.first state [] cache

end LruCache

end Prosperismo

/-!
# The order of the items

What the cache is for is a list of entries: an item that is inserted is put at the end, one that is
touched at a later tick is moved there, and one that is freed is taken out. In every run with live
ids and ticks that do not decrease the links of the cache are those of that list (`Run.holds`), and
its ticks are sorted. So a visit of the items below a tick is a visit of the live items with such
ticks, the oldest first (`Run.forEachItemBelow_exact`). -/

namespace Prosperismo.LruCache

variable {Object Tick : Type}

/-- An item that is live. -/
structure Entry (Object Tick : Type) where
  id : ℕ
  object : Object
  tick : Tick

/-- The ids of entries. -/
def ids (entries : List (Entry Object Tick)) : List ℕ := entries.map Entry.id

/-- The entries without an item. -/
def without (entries : List (Entry Object Tick)) (id : ℕ) : List (Entry Object Tick) :=
  entries.filter fun entry => entry.id ≠ id

variable [LinearOrder Tick]

/-- The entries when an item is touched: it is moved to the end, if the tick is a later one. -/
def touched (entries : List (Entry Object Tick)) (id : ℕ) (tick : Tick) :
    List (Entry Object Tick) :=
  match entries.find? fun entry => entry.id = id with
  | none => entries
  | some entry =>
    if tick ≤ entry.tick then entries else without entries id ++ [{ entry with tick := tick }]

/-- **The invariant.** -/
structure Holds (cache : LruCache Object Tick) (entries : List (Entry Object Tick)) (now : Tick) :
    Prop where
  /-- The links are those of the entries. -/
  links : cache.links.Is (ids entries)
  /-- The items of the entries. -/
  items : ∀ entry ∈ entries, cache.items[entry.id]? = some ⟨entry.object, entry.tick⟩
  /-- Free slots are slots, and not in use. -/
  free : ∀ id ∈ cache.free, id < cache.items.length ∧ id ∉ ids entries ∧
    cache.links.next id = none ∧ cache.links.prev id = none
  /-- A slot is free once. -/
  nodup : cache.free.Nodup
  /-- The entries are sorted. -/
  sorted : entries.Pairwise fun entry entry' => entry.tick ≤ entry'.tick
  /-- No tick is later than the last one. -/
  past : ∀ entry ∈ entries, entry.tick ≤ now

variable {cache : LruCache Object Tick} {entries : List (Entry Object Tick)} {now tick : Tick}
  {id : ℕ} {object : Object}

omit [LinearOrder Tick] in
theorem mem_ids : id ∈ ids entries ↔ ∃ entry ∈ entries, entry.id = id := List.mem_map

theorem Holds.empty : Holds (LruCache.empty : LruCache Object Tick) [] now where
  links := .nil rfl rfl
  items := List.forall_mem_nil _
  free := List.forall_mem_nil _
  nodup := List.nodup_nil
  sorted := .nil
  past := List.forall_mem_nil _

/-- Live ids are slots. -/
theorem Holds.lt_length (h : Holds cache entries now) (hid : id ∈ ids entries) :
    id < cache.items.length := by
  obtain ⟨entry, hmem, rfl⟩ := mem_ids.mp hid
  exact (List.getElem?_eq_some_iff.mp (h.items entry hmem)).1

/-- The entries around a live one. -/
theorem Holds.split (h : Holds cache entries now) (hid : id ∈ ids entries) :
    ∃ before entry behind, entries = before ++ entry :: behind ∧ entry.id = id ∧
      without entries id = before ++ behind ∧ entries.find? (fun entry => entry.id = id) = some entry ∧
      ids entries = ids before ++ id :: ids behind := by
  obtain ⟨entry, hmem, rfl⟩ := mem_ids.mp hid
  obtain ⟨before, behind, rfl⟩ := List.append_of_mem hmem
  have hnodup := h.links.nodup
  have hids : ids (before ++ entry :: behind) = ids before ++ entry.id :: ids behind := by
    simp [ids]
  rw [hids] at hnodup
  have hbefore : ∀ other ∈ before, other.id ≠ entry.id := by
    intro other hother heq
    exact List.disjoint_of_nodup_append hnodup (mem_ids.mpr ⟨other, hother, heq⟩)
      (List.mem_cons_self ..)
  have hbehind : ∀ other ∈ behind, other.id ≠ entry.id := by
    intro other hother heq
    have hcons := (List.nodup_cons.mp (List.nodup_append.mp hnodup).2.1).1
    exact hcons (mem_ids.mpr ⟨other, hother, heq⟩)
  refine ⟨before, entry, behind, rfl, rfl, ?_, ?_, hids⟩
  · unfold without
    rw [List.filter_append, List.filter_cons_of_neg (by simp),
      List.filter_eq_self.mpr (by simpa using hbefore),
      List.filter_eq_self.mpr (by simpa using hbehind)]
  · rw [List.find?_append, List.find?_eq_none.mpr (by simpa using hbefore)]
    simp

/-- An entry that is taken out from among others. -/
theorem Holds.without_middle {front rest : List (Entry Object Tick)} {entry : Entry Object Tick}
    (h : Holds cache (front ++ entry :: rest) now) :
    without (front ++ entry :: rest) entry.id = front ++ rest := by
  have hnodup := h.links.nodup
  unfold ids at hnodup
  rw [List.map_append, List.map_cons, List.nodup_middle, List.nodup_cons, List.mem_append] at hnodup
  have hfront : ∀ other ∈ front, other.id ≠ entry.id := fun other hother heq =>
    hnodup.1 (.inl (mem_ids.mpr ⟨other, hother, heq⟩))
  have hrest : ∀ other ∈ rest, other.id ≠ entry.id := fun other hother heq =>
    hnodup.1 (.inr (mem_ids.mpr ⟨other, hother, heq⟩))
  unfold without
  rw [List.filter_append, List.filter_cons_of_neg (by simp),
    List.filter_eq_self.mpr (by simpa using hfront), List.filter_eq_self.mpr (by simpa using hrest)]

/-- **`Free`** takes an entry out. -/
theorem Holds.release (h : Holds cache entries now) (hid : id ∈ ids entries) :
    Holds (cache.release id) (without entries id) now := by
  obtain ⟨before, entry, behind, hentries, hentry, hwithout, -, hids⟩ := h.split hid
  have hlinks := h.links
  rw [hids] at hlinks
  have hsub : (without entries id).Sublist entries := List.filter_sublist
  have hrest : ids (without entries id) = ids before ++ ids behind := by
    rw [hwithout]
    exact List.map_append ..
  have hnotin : id ∉ ids before ++ ids behind := by
    have hnodup := hlinks.nodup
    rw [List.nodup_middle, List.nodup_cons] at hnodup
    exact hnodup.1
  unfold LruCache.release
  dsimp only
  refine ⟨?_, fun entry' hmem => h.items entry' (hsub.subset hmem), fun id' hid' => ?_, ?_,
    h.sorted.sublist hsub, fun entry' hmem => h.past entry' (hsub.subset hmem)⟩
  · rw [hrest]
    refine (Links.detach_is hlinks).congr rfl rfl fun other hother => ?_
    have hne : other ≠ id := by
      rintro rfl
      exact hnotin hother
    exact ⟨Function.update_of_ne hne .., Function.update_of_ne hne ..⟩
  · rw [hrest]
    rcases List.mem_append.mp hid' with hold | hlast
    · obtain ⟨hlt, hnew, hnext, hprev⟩ := h.free id' hold
      rw [hids] at hnew
      have hne : id' ≠ id := by
        rintro rfl
        exact hnew (List.mem_append_right _ (List.mem_cons_self ..))
      obtain ⟨hother₁, hother₂⟩ := Links.detach_other hlinks hnew
      refine ⟨hlt, fun hmem => hnew ?_, ?_, ?_⟩
      · rw [List.mem_append] at hmem ⊢
        exact hmem.imp_right (List.mem_cons_of_mem _)
      · exact (Function.update_of_ne hne ..).trans (hother₁.trans hnext)
      · exact (Function.update_of_ne hne ..).trans (hother₂.trans hprev)
    · rw [List.mem_singleton.mp hlast]
      exact ⟨h.lt_length hid, hnotin, Function.update_self .., Function.update_self ..⟩
  · rw [List.nodup_append]
    refine ⟨h.nodup, List.nodup_singleton _, fun free hfree last hlast => ?_⟩
    rw [List.mem_singleton.mp hlast]
    rintro rfl
    exact (h.free free hfree).2.1 hid

/-- A slot that is not in the list keeps its links when a member is moved to the end. -/
theorem Holds.move_other (h : Holds cache entries now) (hid : id ∈ ids entries) {other : ℕ}
    (hother : other ∉ ids entries) :
    ((cache.links.detach id).attach id).next other = cache.links.next other ∧
      ((cache.links.detach id).attach id).prev other = cache.links.prev other := by
  obtain ⟨before, entry, behind, -, -, -, -, hids⟩ := h.split hid
  have hlinks := h.links
  rw [hids] at hlinks
  have hne : other ≠ id := by
    rintro rfl
    exact hother hid
  rw [hids] at hother
  obtain ⟨hdetach₁, hdetach₂⟩ := Links.detach_other hlinks hother
  obtain ⟨hattach₁, hattach₂⟩ := Links.attach_other (Links.detach_is hlinks) hne fun hmem =>
    hother (by
      rw [List.mem_append] at hmem ⊢
      exact hmem.imp_right (List.mem_cons_of_mem _))
  exact ⟨hattach₁.trans hdetach₁, hattach₂.trans hdetach₂⟩

/-- **`Touch`** moves an entry to the end, if the tick is a later one. -/
theorem Holds.touch (h : Holds cache entries now) (hnow : now ≤ tick) (hid : id ∈ ids entries) :
    Holds (cache.touch id tick) (touched entries id tick) tick := by
  obtain ⟨before, entry, behind, hentries, hentry, hwithout, hfind, hids⟩ := h.split hid
  have hitem := h.items entry (by rw [hentries]; simp)
  rw [hentry] at hitem
  have hlinks := h.links
  rw [hids] at hlinks
  unfold LruCache.touch touched
  rw [hitem, hfind]
  dsimp only
  by_cases hle : tick ≤ entry.tick
  · rw [if_pos hle, if_pos hle]
    exact { h with past := fun entry hmem => le_trans (h.past entry hmem) hnow }
  rw [if_neg hle, if_neg hle]
  have hsub : (without entries id).Sublist entries := List.filter_sublist
  have hnew : ids (without entries id ++ [{ entry with tick := tick }]) =
      ids before ++ ids behind ++ [id] := by
    rw [hwithout]
    simp [ids, hentry]
  have hitems : ∀ entry' ∈ without entries id ++ [{ entry with tick := tick }],
      (cache.items.set id ⟨entry.object, tick⟩)[entry'.id]? =
        some ⟨entry'.object, entry'.tick⟩ := by
    intro entry' hmem
    rcases List.mem_append.mp hmem with hold | hlast
    · have hne : id ≠ entry'.id := by
        have := (List.mem_filter.mp hold).2
        exact fun heq => (by simpa using this : entry'.id ≠ id) heq.symm
      rw [List.getElem?_set_ne hne]
      exact h.items entry' (hsub.subset hold)
    · rw [List.mem_singleton.mp hlast, hentry]
      exact List.getElem?_set_self (h.lt_length hid)
  have hsorted : (without entries id ++ [{ entry with tick := tick }]).Pairwise
      fun (entry entry' : Entry Object Tick) => entry.tick ≤ entry'.tick := by
    rw [List.pairwise_append]
    refine ⟨h.sorted.sublist hsub, List.pairwise_singleton _ _, fun entry' hold other hlast => ?_⟩
    rw [List.mem_singleton.mp hlast]
    exact le_trans (h.past entry' (hsub.subset hold)) hnow
  have hpast : ∀ entry' ∈ without entries id ++ [{ entry with tick := tick }],
      entry'.tick ≤ tick := by
    intro entry' hmem
    rcases List.mem_append.mp hmem with hold | hlast
    · exact le_trans (h.past entry' (hsub.subset hold)) hnow
    · rw [List.mem_singleton.mp hlast]
  have hmembers : ∀ other, other ∈ ids (without entries id ++ [{ entry with tick := tick }]) ↔
      other ∈ ids entries := by
    intro other
    rw [hnew, hids]
    simp only [List.mem_append, List.mem_cons, List.not_mem_nil, or_false]
    tauto
  by_cases hlast : cache.links.last = some id
  · -- the last item stays where it is
    rw [if_neg (not_not.mpr hlast)]
    have hbehind : behind = [] := by
      rcases List.eq_nil_or_concat behind with rfl | ⟨front, other, rfl⟩
      · rfl
      · rw [hlinks.last] at hlast
        have hnodup := hlinks.nodup
        simp only [ids, List.concat_eq_append, List.map_append, List.map_cons, List.map_nil,
          ← List.cons_append, ← List.append_assoc, List.getLast?_concat] at hlast hnodup
        cases hlast
        simp [List.nodup_append] at hnodup
    refine ⟨?_, hitems, fun id' hid' => ?_, h.nodup, hsorted, hpast⟩
    · rw [hnew, hbehind]
      rw [hbehind] at hlinks
      simpa [ids] using hlinks
    · obtain ⟨hlt, hfree, hnext⟩ := h.free id' hid'
      exact ⟨by rwa [List.length_set], fun hmem => hfree ((hmembers id').mp hmem), hnext⟩
  · rw [if_pos hlast]
    refine ⟨?_, hitems, fun id' hid' => ?_, h.nodup, hsorted, hpast⟩
    · rw [hnew]
      have hnodup := hlinks.nodup
      rw [List.nodup_middle, List.nodup_cons] at hnodup
      refine Links.attach_is (Links.detach_is hlinks) hnodup.1 fun hempty => ?_
      obtain ⟨hbefore, hbehind⟩ := List.append_eq_nil_iff.mp hempty
      rw [hlinks.last, hbefore, hbehind] at hlast
      exact absurd rfl hlast
    · obtain ⟨hlt, hfree, hnext, hprev⟩ := h.free id' hid'
      obtain ⟨hmove₁, hmove₂⟩ := h.move_other hid hfree
      exact ⟨by rwa [List.length_set], fun hmem => hfree ((hmembers id').mp hmem),
        hmove₁.trans hnext, hmove₂.trans hprev⟩

variable [Inhabited Object] [Inhabited Tick]

/-- **Runs**: the cache, its entries, and the tick of the last call. -/
inductive Run : LruCache Object Tick → List (Entry Object Tick) → Tick → Prop
  | start {now : Tick} : Run empty [] now
  | insert {cache : LruCache Object Tick} {entries : List (Entry Object Tick)} {now : Tick}
      {object : Object} {tick : Tick} : Run cache entries now → now ≤ tick →
      Run (cache.insert object tick).2
        (entries ++ [⟨(cache.insert object tick).1, object, tick⟩]) tick
  | touch {cache : LruCache Object Tick} {entries : List (Entry Object Tick)} {now : Tick} {id : ℕ}
      {tick : Tick} : Run cache entries now → now ≤ tick → id ∈ ids entries →
      Run (cache.touch id tick) (touched entries id tick) tick
  | free {cache : LruCache Object Tick} {entries : List (Entry Object Tick)} {now : Tick} {id : ℕ} :
      Run cache entries now → id ∈ ids entries → Run (cache.release id) (without entries id) now

/-- **`Build`** gives a slot that is not in use, without links. -/
theorem Holds.build (h : Holds cache entries now) :
    Holds cache.build.2 entries now ∧ cache.build.1 < cache.build.2.items.length ∧
      cache.build.1 ∉ ids entries ∧ cache.build.1 ∉ cache.build.2.free ∧
      cache.build.2.links.next cache.build.1 = none ∧
      cache.build.2.links.prev cache.build.1 = none := by
  unfold LruCache.build
  cases hfree : cache.free with
  | nil =>
    dsimp only
    have hnew : cache.items.length ∉ ids entries := fun hmem => absurd (h.lt_length hmem) (Nat.lt_irrefl _)
    refine ⟨?_, by simp, hnew, List.not_mem_nil, Function.update_self .., Function.update_self ..⟩
    refine ⟨h.links.congr rfl rfl fun id hid => ?_, fun entry hmem => ?_, ?_, ?_, h.sorted, h.past⟩
    · have hne : id ≠ cache.items.length := Nat.ne_of_lt (h.lt_length hid)
      exact ⟨Function.update_of_ne hne .., Function.update_of_ne hne ..⟩
    · rw [List.getElem?_append_left (h.lt_length (mem_ids.mpr ⟨entry, hmem, rfl⟩))]
      exact h.items entry hmem
    · exact List.forall_mem_nil _
    · exact List.nodup_nil
  | cons id free =>
    dsimp only
    obtain ⟨hlt, hnew, hnext, hprev⟩ := h.free id (by rw [hfree]; exact List.mem_cons_self ..)
    have hnodup := h.nodup
    rw [hfree, List.nodup_cons] at hnodup
    refine ⟨{ h with
      free := fun id' hid' => h.free id' (by rw [hfree]; exact List.mem_cons_of_mem _ hid')
      nodup := hnodup.2 }, hlt, hnew, hnodup.1, hnext, hprev⟩

/-- **`Insert`** puts an entry at the end. -/
theorem Holds.insert (h : Holds cache entries now) (hnow : now ≤ tick) :
    Holds (cache.insert object tick).2
      (entries ++ [⟨(cache.insert object tick).1, object, tick⟩]) tick := by
  obtain ⟨hbuild, hlt, hnew, hnofree, hnext, hprev⟩ := h.build
  unfold LruCache.insert
  generalize cache.build = built at *
  obtain ⟨id, cache⟩ := built
  dsimp only at *
  have hids : ids (entries ++ [⟨id, object, tick⟩]) = ids entries ++ [id] := List.map_append ..
  refine ⟨?_, fun entry hmem => ?_, fun id' hid' => ?_, hbuild.nodup, ?_, fun entry hmem => ?_⟩
  · rw [hids]
    exact Links.attach_is hbuild.links hnew fun _ => ⟨hnext, hprev⟩
  · rcases List.mem_append.mp hmem with hold | hlast
    · have hne : id ≠ entry.id := by
        rintro rfl
        exact hnew (mem_ids.mpr ⟨entry, hold, rfl⟩)
      rw [List.getElem?_set_ne hne]
      exact hbuild.items entry hold
    · rw [List.mem_singleton.mp hlast]
      exact List.getElem?_set_self hlt
  · obtain ⟨hlt', hnew', hnext', hprev'⟩ := hbuild.free id' hid'
    have hne : id' ≠ id := by
      rintro rfl
      exact hnofree hid'
    obtain ⟨hattach₁, hattach₂⟩ := Links.attach_other hbuild.links hne hnew'
    refine ⟨by rwa [List.length_set], ?_, hattach₁.trans hnext', hattach₂.trans hprev'⟩
    rw [hids, List.mem_append, List.mem_singleton]
    exact not_or.mpr ⟨hnew', hne⟩
  · rw [List.pairwise_append]
    refine ⟨hbuild.sorted, List.pairwise_singleton _ _, fun entry hmem entry' hlast => ?_⟩
    rw [List.mem_singleton.mp hlast]
    exact le_trans (hbuild.past entry hmem) hnow
  · rcases List.mem_append.mp hmem with hold | hlast
    · exact le_trans (hbuild.past entry hold) hnow
    · rw [List.mem_singleton.mp hlast]

/-- **The invariant of every run.** -/
theorem Run.holds (h : Run cache entries now) : Holds cache entries now := by
  induction h with
  | start => exact .empty
  | insert _ hnow ih => exact ih.insert hnow
  | touch _ hnow hid ih => exact ih.touch hnow hid
  | free _ hid ih => exact ih.release hid

/-! ### Visits -/

variable {State : Type} (function : State → ℕ → Object → Visit State)

/-- A visit of entries, from the first one on up to a tick: the state of the function, the ids that
were visited, and the entries that are left. -/
def visits (tick : Tick) : State → List (Entry Object Tick) →
    State × List ℕ × List (Entry Object Tick)
  | state, [] => (state, [], [])
  | state, entry :: entries =>
    if tick < entry.tick then (state, [], entry :: entries)
    else
      let visit := function state entry.id entry.object
      let kept := if visit.frees then [] else [entry]
      if visit.stops then (visit.state, [entry.id], kept ++ entries)
      else
        let (state, visited, entries) := visits tick visit.state entries
        (state, entry.id :: visited, kept ++ entries)

/-- **The loop visits the entries** that are left, whatever was freed before. -/
theorem forEachLoop_visits (tick : Tick) : ∀ (rest front : List (Entry Object Tick)) (fuel : ℕ) (state : State)
    (visited : List ℕ) (cache : LruCache Object Tick), Run cache (front ++ rest) now →
    rest.length < fuel → ∃ cache', Run cache' (front ++ (visits function tick state rest).2.2) now ∧
      forEachLoop function tick fuel (ids rest).head? state visited cache =
        some ((visits function tick state rest).1,
          visited ++ (visits function tick state rest).2.1, cache')
  | [], front, fuel, state, visited, cache, h, hfuel => by
    obtain ⟨fuel, rfl⟩ := Nat.exists_eq_add_of_le' hfuel
    refine ⟨cache, h, ?_⟩
    rw [visits, List.append_nil]
    rfl
  | entry :: rest, front, fuel, state, visited, cache, h, hfuel => by
    obtain ⟨fuel, rfl⟩ := Nat.exists_eq_add_of_le' (Nat.lt_of_le_of_lt (Nat.zero_le _) hfuel)
    rw [List.length_cons] at hfuel
    have hholds := h.holds
    have hitem := hholds.items entry (List.mem_append_right _ (List.mem_cons_self ..))
    have hnext : cache.links.next entry.id = (ids rest).head? := by
      refine hholds.links.next (ids front) entry.id (ids rest) ?_
      simp [ids]
    have hlive : entry.id ∈ ids (front ++ entry :: rest) :=
      mem_ids.mpr ⟨entry, List.mem_append_right _ (List.mem_cons_self ..), rfl⟩
    change ∃ cache', _ ∧ forEachLoop function tick (fuel + 1) (some entry.id) state visited cache = _
    rw [forEachLoop, hitem, visits]
    dsimp only
    by_cases hlate : tick < entry.tick
    · rw [if_pos hlate, if_pos hlate]
      exact ⟨cache, h, by rw [List.append_nil]⟩
    rw [if_neg hlate, if_neg hlate, hnext]
    -- the cache when the function is done with the item
    have hstep : Run (if (function state entry.id entry.object).frees then cache.release entry.id
        else cache) ((front ++ if (function state entry.id entry.object).frees then []
          else [entry]) ++ rest) now := by
      cases (function state entry.id entry.object).frees with
      | false => simpa using h
      | true =>
        have hfree := h.free hlive
        rw [hholds.without_middle] at hfree
        simpa using hfree
    by_cases hstops : (function state entry.id entry.object).stops
    · rw [if_pos hstops, if_pos hstops]
      exact ⟨_, by simpa using hstep, rfl⟩
    · rw [if_neg hstops, if_neg hstops]
      obtain ⟨cache', hrun, hloop⟩ := forEachLoop_visits tick rest _ fuel
        (function state entry.id entry.object).state (visited ++ [entry.id]) _ hstep (by omega)
      refine ⟨cache', by simpa using hrun, ?_⟩
      rw [hloop, List.append_assoc, List.singleton_append]

/-- A function that returns nothing. -/
def void (function : State → ℕ → Object → State × Bool) (state : State) (id : ℕ)
    (object : Object) : Visit State :=
  ⟨(function state id object).1, (function state id object).2, false⟩

omit [Inhabited Object] [Inhabited Tick] in
/-- A function that returns nothing is given all entries up to the tick. -/
theorem visits_void (function : State → ℕ → Object → State × Bool) (tick : Tick) :
    ∀ (state : State) {entries : List (Entry Object Tick)},
      entries.Pairwise (fun (entry entry' : Entry Object Tick) => entry.tick ≤ entry'.tick) →
      (visits (void function) tick state entries).2.1 =
        ids (entries.filter fun entry => entry.tick ≤ tick)
  | _, [], _ => rfl
  | state, entry :: entries, hsorted => by
    rw [List.pairwise_cons] at hsorted
    rw [visits]
    by_cases hlate : tick < entry.tick
    · -- all that are behind it are later too
      have hnone : (entry :: entries).filter (fun entry => entry.tick ≤ tick) = [] := by
        rw [List.filter_eq_nil_iff]
        intro other hmem
        rw [decide_eq_true_eq, not_le]
        rcases List.mem_cons.mp hmem with rfl | hrest
        · exact hlate
        · exact lt_of_lt_of_le hlate (hsorted.1 other hrest)
      rw [if_pos hlate, hnone]
      rfl
    · rw [if_neg hlate, List.filter_cons_of_pos (by simpa using hlate)]
      change entry.id :: (visits (void function) tick _ entries).2.1 = _
      rw [visits_void function tick _ hsorted.2]
      rfl

/-- **The list of the cache, exactly.** In every run with live ids and ticks that do not decrease
the links are those of the live entries, each once, in the order of the calls that were effective;
the items are theirs, and sorted by their ticks; a slot that is given out was not live; and a visit
of the items up to a tick is given exactly the live ones, the oldest first, whichever of them it
frees. -/
theorem Run.lru_exact {cache : LruCache Object Tick} {entries : List (Entry Object Tick)}
    {now : Tick} (h : Run cache entries now) :
    cache.links.Is (ids entries) ∧
      (∀ entry ∈ entries, cache.items[entry.id]? = some ⟨entry.object, entry.tick⟩) ∧
      entries.Pairwise (fun (entry entry' : Entry Object Tick) => entry.tick ≤ entry'.tick) ∧
      (∀ object tick, (cache.insert object tick).1 ∉ ids entries) ∧
      ∀ (State : Type) (function : State → ℕ → Object → State × Bool) (state : State) (tick : Tick),
        ∃ cache', cache.forEachItemBelow tick (void function) state =
            some ((visits (void function) tick state entries).1,
              ids (entries.filter fun entry => entry.tick ≤ tick), cache') ∧
          Run cache' (visits (void function) tick state entries).2.2 now := by
  have hholds := h.holds
  refine ⟨hholds.links, hholds.items, hholds.sorted, fun object tick => ?_,
    fun State function state tick => ?_⟩
  · exact hholds.build.2.2.1
  · have hfew : entries.length < cache.items.length + 1 := by
      have hslots : (ids entries).Subperm (List.range cache.items.length) :=
        List.subperm_of_subset hholds.links.nodup fun id hid =>
          List.mem_range.mpr (hholds.lt_length hid)
      have hle := hslots.length_le
      rw [List.length_range, ids, List.length_map] at hle
      exact Nat.lt_succ_of_le hle
    obtain ⟨cache', hrun, hloop⟩ :=
      forEachLoop_visits (void function) tick entries [] _ state [] cache h hfew
    refine ⟨cache', ?_, hrun⟩
    unfold forEachItemBelow
    rw [hholds.links.first, hloop, visits_void function tick state hholds.sorted]
    rfl

/-- Two items, of which the older one is touched, and a visit that frees what it is given. -/
theorem Run.lru_exact_touched :
    ∃ cache cache' : LruCache Char ℕ, cache.links.Is [1, 0] ∧
      cache.forEachItemBelow 2 (void fun state id object => (state ++ [(id, object)], true)) [] =
        some ([(1, 'b')], [1], cache') ∧ cache'.links.Is [0] := by
  have hrun : Run (((LruCache.empty.insert 'a' 1).2.insert 'b' 2).2.touch 0 3)
      [⟨1, 'b', 2⟩, ⟨0, 'a', 3⟩] 3 :=
    .touch (.insert (.insert (@Run.start Char ℕ _ _ _ 0) (by decide)) (by decide)) (by decide) (by decide)
  obtain ⟨hlinks, -, -, -, hvisit⟩ := Run.lru_exact hrun
  obtain ⟨cache', hcall, hrun'⟩ :=
    hvisit _ (fun state id object => (state ++ [(id, object)], true)) [] 2
  exact ⟨_, cache', hlinks, hcall, (Run.lru_exact hrun').1⟩

end Prosperismo.LruCache
