import Mathlib.Data.List.Nodup
import Mathlib.Logic.Function.Basic

/-!
# Doubly linked lists

Links between the members of a type, with a first and a last member, and the list they stand for
(`Links.Is`): what comes behind a member is what its `next` says, and what comes before it is what
its `prev` says. A member is put at the end (`attach_is`) and taken out (`detach_is`) in place. Both
write links of members of the list only, and those of the member itself (`attach_other`,
`detach_other`). -/

namespace Prosperismo

variable {ι : Type}

/-- Links to the next and to the previous member, and the ends. -/
structure Links (ι : Type) where
  next : ι → Option ι
  prev : ι → Option ι
  first : Option ι
  last : Option ι

namespace Links

section

variable [DecidableEq ι]

/-- A member is put at the end. In an empty list its own links stay as they are. -/
def attach (l : Links ι) (i : ι) : Links ι :=
  let first := if l.first = none then some i else l.first
  match l.last with
  | none => { l with first := first, last := some i }
  | some j =>
    { next := Function.update (Function.update l.next j (some i)) i none
      prev := Function.update l.prev i (some j)
      first := first
      last := some i }

/-- A member is taken out. Its own links stay as they are. -/
def detach (l : Links ι) (i : ι) : Links ι :=
  let next := match l.prev i with
    | some j => Function.update l.next j (l.next i)
    | none => l.next
  let prev := match next i with
    | some j => Function.update l.prev j (l.prev i)
    | none => l.prev
  { next := next
    prev := prev
    first := if l.first = some i then next i else l.first
    last := if l.last = some i then prev i else l.last }

end

/-- **The list of the links.** -/
structure Is (l : Links ι) (members : List ι) : Prop where
  nodup : members.Nodup
  first : l.first = members.head?
  last : l.last = members.getLast?
  next : ∀ before i behind, members = before ++ i :: behind → l.next i = behind.head?
  prev : ∀ before i behind, members = before ++ i :: behind → l.prev i = before.getLast?

variable {l : Links ι} {members before behind : List ι} {i j : ι}

theorem Is.nil (hfirst : l.first = none) (hlast : l.last = none) : l.Is [] where
  nodup := List.nodup_nil
  first := hfirst
  last := hlast
  next before i behind heq := by simp at heq
  prev before i behind heq := by simp at heq

/-- Links of others do not matter. -/
theorem Is.congr {l' : Links ι} (h : l.Is members) (hfirst : l'.first = l.first)
    (hlast : l'.last = l.last)
    (hlinks : ∀ i ∈ members, l'.next i = l.next i ∧ l'.prev i = l.prev i) : l'.Is members where
  nodup := h.nodup
  first := hfirst.trans h.first
  last := hlast.trans h.last
  next before i behind heq := by
    rw [(hlinks i (by rw [heq]; simp)).1, h.next before i behind heq]
  prev before i behind heq := by
    rw [(hlinks i (by rw [heq]; simp)).2, h.prev before i behind heq]

/-- The ends of a decomposition: the last member, or one before it. -/
theorem append_singleton_eq {x : ι} (h : members ++ [i] = before ++ x :: behind) :
    before = members ∧ x = i ∧ behind = [] ∨
      ∃ front, behind = front ++ [i] ∧ members = before ++ x :: front := by
  rcases List.eq_nil_or_concat behind with rfl | ⟨front, y, rfl⟩
  · obtain ⟨rfl, heq⟩ := List.append_inj' h rfl
    cases heq
    exact .inl ⟨rfl, rfl, rfl⟩
  · rw [List.concat_eq_append, ← List.cons_append, ← List.append_assoc] at h
    obtain ⟨rfl, heq⟩ := List.append_inj' h rfl
    cases heq
    exact .inr ⟨front, List.concat_eq_append, rfl⟩

/-- The place of a member in two lists, one behind the other. -/
theorem append_eq_cons {before' behind' : List ι} {x : ι}
    (h : before ++ behind = before' ++ x :: behind') :
    (∃ mid, before' = before ++ mid ∧ behind = mid ++ x :: behind') ∨
      ∃ mid, before = before' ++ x :: mid ∧ behind' = mid ++ behind := by
  obtain ⟨mid, hbefore, hbehind⟩ | ⟨mid, hbefore, hbehind⟩ := List.append_eq_append_iff.mp h
  · exact .inl ⟨mid, hbefore, hbehind⟩
  · cases mid with
    | nil => exact .inl ⟨[], by rw [hbefore, List.append_nil, List.append_nil], hbehind.symm⟩
    | cons y mid =>
      cases hbehind
      exact .inr ⟨mid, hbefore, rfl⟩

/-- A member of a list is not its own neighbour. -/
theorem Is.not_own (h : l.Is (before ++ i :: behind)) :
    l.prev i ≠ some i ∧ l.next i ≠ some i := by
  rw [h.next _ _ _ rfl, h.prev _ _ _ rfl]
  have hnodup := h.nodup
  constructor
  · intro heq
    exact List.disjoint_of_nodup_append hnodup (List.mem_of_getLast? heq) (List.mem_cons_self ..)
  · intro heq
    have hmem := List.mem_of_head? heq
    simp [List.nodup_append] at hnodup
    exact hnodup.2.1.1 hmem

variable [DecidableEq ι]

/-- **A member is put behind all others.** -/
theorem attach_is (h : l.Is members) (hnew : i ∉ members)
    (hempty : members = [] → l.next i = none ∧ l.prev i = none) :
    (l.attach i).Is (members ++ [i]) := by
  have hnodup : (members ++ [i]).Nodup := by
    rw [List.nodup_append]
    exact ⟨h.nodup, List.nodup_singleton i, fun a ha b hb => by
      rw [List.mem_singleton.mp hb]
      rintro rfl
      exact hnew ha⟩
  rcases List.eq_nil_or_concat members with rfl | ⟨front, j, hmembers⟩
  · have hattach : l.attach i = { l with first := some i, last := some i } := by
      unfold attach
      rw [h.first, h.last]
      rfl
    rw [hattach]
    refine ⟨hnodup, rfl, rfl, fun before x behind heq => ?_, fun before x behind heq => ?_⟩
    all_goals
      obtain ⟨rfl, rfl, rfl⟩ | ⟨front, -, hfront⟩ := append_singleton_eq heq
      · first
        | exact (hempty rfl).1
        | exact (hempty rfl).2
      · simp at hfront
  · rw [List.concat_eq_append] at hmembers
    have hlast : l.last = some j := by rw [h.last, hmembers, List.getLast?_concat]
    have hfirst : l.first ≠ none := by
      rw [h.first, hmembers]
      cases front <;> simp
    have hattach : l.attach i =
        { next := Function.update (Function.update l.next j (some i)) i none
          prev := Function.update l.prev i (some j)
          first := l.first
          last := some i } := by
      unfold attach
      rw [hlast, if_neg hfirst]
    rw [hattach]
    refine ⟨hnodup, ?_, (List.getLast?_concat ..).symm, fun before x behind heq => ?_,
      fun before x behind heq => ?_⟩
    · change l.first = _
      rw [h.first, hmembers]
      cases front <;> rfl
    · change Function.update (Function.update l.next j (some i)) i none x = _
      obtain ⟨-, rfl, rfl⟩ | ⟨behind', rfl, hbehind⟩ := append_singleton_eq heq
      · rw [Function.update_self]
        rfl
      · have hne : x ≠ i := by
          rintro rfl
          exact hnew (hbehind ▸ List.mem_append_right _ (List.mem_cons_self ..))
        rw [Function.update_of_ne hne]
        -- the member that was the last one has a new one behind it
        obtain ⟨-, rfl, rfl⟩ | ⟨rest, rfl, -⟩ := append_singleton_eq (hmembers.symm.trans hbehind)
        · rw [Function.update_self]
          rfl
        · have hnej : x ≠ j := by
            rintro rfl
            have := h.nodup
            rw [hbehind] at this
            simp [List.nodup_append] at this
          rw [Function.update_of_ne hnej, h.next _ _ _ hbehind]
          cases rest <;> rfl
    · change Function.update l.prev i (some j) x = _
      obtain ⟨rfl, rfl, -⟩ | ⟨behind', -, hbehind⟩ := append_singleton_eq heq
      · rw [Function.update_self, hmembers, List.getLast?_concat]
      · have hne : x ≠ i := by
          rintro rfl
          exact hnew (hbehind ▸ List.mem_append_right _ (List.mem_cons_self ..))
        rw [Function.update_of_ne hne, h.prev _ _ _ hbehind]

/-- Links of others than the member and the list stay as they are. -/
theorem attach_other (h : l.Is members) (hi : j ≠ i) (hj : j ∉ members) :
    (l.attach i).next j = l.next j ∧ (l.attach i).prev j = l.prev j := by
  unfold attach
  cases hlast : l.last with
  | none => exact ⟨rfl, rfl⟩
  | some k =>
    have hk : j ≠ k := by
      rintro rfl
      rw [h.last] at hlast
      exact hj (List.mem_of_getLast? hlast)
    refine ⟨?_, Function.update_of_ne hi ..⟩
    dsimp only
    rw [Function.update_of_ne hi, Function.update_of_ne hk]

/-! ### Taking out -/

/-- A link of a neighbour, or of no one. -/
theorem update_neighbour_of_ne {f : ι → Option ι} {neighbour target : Option ι} {x : ι}
    (h : neighbour ≠ some x) :
    (match (motive := Option ι → ι → Option ι) neighbour with
      | some j => Function.update f j target
      | none => f) x = f x := by
  cases neighbour with
  | none => rfl
  | some j =>
    refine Function.update_of_ne ?_ ..
    rintro rfl
    exact h rfl

/-- What `detach` leaves of a member that is not its own neighbour. -/
theorem detach_eq (hprev : l.prev i ≠ some i) (hnext : l.next i ≠ some i) :
    l.detach i =
      { next := match l.prev i with
          | some j => Function.update l.next j (l.next i)
          | none => l.next
        prev := match l.next i with
          | some j => Function.update l.prev j (l.prev i)
          | none => l.prev
        first := if l.first = some i then l.next i else l.first
        last := if l.last = some i then l.prev i else l.last } := by
  unfold detach
  simp only [update_neighbour_of_ne hprev, update_neighbour_of_ne hnext]

/-- **A member is taken out** of its list. -/
theorem detach_is (h : l.Is (before ++ i :: behind)) : (l.detach i).Is (before ++ behind) := by
  have hnodup := h.nodup
  obtain ⟨hprev, hnext⟩ := h.not_own
  rw [detach_eq hprev hnext, h.next _ _ _ rfl, h.prev _ _ _ rfl]
  refine ⟨?_, ?_, ?_, fun before' x behind' heq => ?_, fun before' x behind' heq => ?_⟩
  · exact hnodup.sublist (List.Sublist.append_left (List.sublist_cons_self ..) _)
  · change (if l.first = some i then behind.head? else l.first) = _
    rw [h.first]
    cases before with
    | nil => exact if_pos rfl
    | cons j before =>
      refine if_neg fun heq => ?_
      cases heq
      simp at hnodup
  · change (if l.last = some i then before.getLast? else l.last) = _
    rw [h.last]
    rcases List.eq_nil_or_concat behind with rfl | ⟨front, j, rfl⟩
    · rw [if_pos (List.getLast?_concat ..), List.append_nil]
    · rw [List.concat_eq_append, ← List.cons_append, ← List.append_assoc, List.getLast?_concat,
        ← List.append_assoc, List.getLast?_concat]
      refine if_neg fun heq => ?_
      cases heq
      simp [List.nodup_append] at hnodup
  · obtain ⟨mid, rfl, rfl⟩ | ⟨mid, rfl, rfl⟩ := append_eq_cons heq
    · refine (update_neighbour_of_ne fun hlast => ?_).trans
        (h.next (before ++ i :: mid) x behind' (by simp))
      exact List.disjoint_of_nodup_append hnodup (List.mem_of_getLast? hlast) (by simp)
    · rcases List.eq_nil_or_concat mid with rfl | ⟨front, j, rfl⟩
      · -- the member before the one that is taken out
        rw [List.getLast?_concat]
        exact Function.update_self ..
      · refine (update_neighbour_of_ne fun hlast => ?_).trans
          ((h.next before' x (front.concat j ++ i :: behind) (by simp)).trans ?_)
        · rw [List.concat_eq_append, ← List.cons_append, ← List.append_assoc,
            List.getLast?_concat] at hlast
          cases hlast
          simp [List.nodup_append] at hnodup
        · cases front <;> rfl
  · obtain ⟨mid, rfl, rfl⟩ | ⟨mid, rfl, rfl⟩ := append_eq_cons heq
    · cases mid with
      | nil =>
        -- the member behind the one that is taken out
        rw [List.append_nil]
        exact Function.update_self ..
      | cons j mid =>
        have hne : x ≠ j := by
          rintro rfl
          simp [List.nodup_append] at hnodup
        change Function.update l.prev j before.getLast? x = _
        rw [Function.update_of_ne hne, h.prev (before ++ i :: j :: mid) x behind' (by simp)]
        simp [List.getLast?_append]
    · refine (update_neighbour_of_ne fun hhead => ?_).trans
        (h.prev before' x (mid ++ i :: behind) (by simp))
      exact List.disjoint_of_nodup_append hnodup (List.mem_append_right _ (List.mem_cons_self ..))
        (List.mem_cons_of_mem _ (List.mem_of_head? hhead))

/-- Links of others than the member and the list stay as they are. -/
theorem detach_other (h : l.Is (before ++ i :: behind)) (hj : j ∉ before ++ i :: behind) :
    (l.detach i).next j = l.next j ∧ (l.detach i).prev j = l.prev j := by
  obtain ⟨hprev, hnext⟩ := h.not_own
  rw [detach_eq hprev hnext, h.next _ _ _ rfl, h.prev _ _ _ rfl]
  refine ⟨update_neighbour_of_ne fun hlast => hj ?_, update_neighbour_of_ne fun hhead => hj ?_⟩
  · exact List.mem_append_left _ (List.mem_of_getLast? hlast)
  · exact List.mem_append_right _ (List.mem_cons_of_mem _ (List.mem_of_head? hhead))

end Links

end Prosperismo
