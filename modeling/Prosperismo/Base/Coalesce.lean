import Prosperismo.Base.Intervals

/-!
# Joining neighbouring intervals

A range book joins two neighbouring records into one when they touch and agree
otherwise. `merge i j` is the joined record, or `none` when `i` and `j` stay
apart. Two loops are in use: `coalesce` goes over a whole list, `absorb` starts
at one record and stops at the first neighbour that does not merge.

`Merging` is what a `merge` has to do for that to be harmless, and then

* `coalesce_spec`: coalescing a tidy list keeps it tidy, keeps what it says
  about every point, and leaves no two records that merge;
* `coalesce_eq_self` and `coalesce_eq_absorb`: on a list in which no two records
  merge it does nothing, and next to one it does what `absorb` does.
-/

namespace Prosperismo.Extent

variable {ι α β : Type*} [LinearOrder α]

/-! ### The loops -/

section Loops

variable (merge : ι → ι → Option ι)

/-- Join `i` with the records of the list, wherever two neighbours merge. -/
def coalesce : ι → List ι → List ι
  | i, [] => [i]
  | i, j :: l =>
    match merge i j with
    | some k => coalesce k l
    | none => i :: coalesce j l

/-- Join the records of a list, wherever two neighbours merge. -/
def coalesceAll : List ι → List ι
  | [] => []
  | i :: l => coalesce merge i l

/-- Join `i` with the records of the list up to the first that does not merge. -/
def absorb : ι → List ι → List ι
  | i, [] => [i]
  | i, j :: l =>
    match merge i j with
    | some k => absorb k l
    | none => i :: j :: l

/-- No record merges with a later one. -/
def Settled (l : List ι) : Prop := l.Pairwise fun i j => merge i j = none

end Loops

/-! ### Nothing to join -/

section Settled

variable {merge : ι → ι → Option ι}

theorem Settled.tail {i : ι} {l : List ι} (h : Settled merge (i :: l)) : Settled merge l :=
  (List.pairwise_cons.mp h).2

theorem coalesce_eq_self : ∀ {i : ι} {l : List ι}, Settled merge (i :: l) →
    coalesce merge i l = i :: l
  | i, [], _ => rfl
  | i, j :: l, h => by
    have hij : merge i j = none := (List.pairwise_cons.mp h).1 j List.mem_cons_self
    simp only [coalesce, hij, coalesce_eq_self h.tail]

theorem coalesceAll_eq_self : ∀ {l : List ι}, Settled merge l → coalesceAll merge l = l
  | [], _ => rfl
  | _ :: _, h => coalesce_eq_self h

/-- Next to a settled list the two loops agree. -/
theorem coalesce_eq_absorb : ∀ {i : ι} {l : List ι}, Settled merge l →
    coalesce merge i l = absorb merge i l
  | i, [], _ => rfl
  | i, j :: l, h => by
    cases hij : merge i j with
    | some k => simp only [coalesce, absorb, hij, coalesce_eq_absorb h.tail]
    | none => simp only [coalesce, absorb, hij, coalesce_eq_self h]

/-- The loop passes a settled part unchanged, up to its last record. -/
theorem coalesceAll_append {last : ι} (post : List ι) :
    ∀ {front : List ι}, Settled merge (front ++ [last]) →
      coalesceAll merge (front ++ last :: post) = front ++ coalesce merge last post
  | [], _ => rfl
  | [i], h => by
    have hi : merge i last = none := (List.pairwise_cons.mp h).1 last List.mem_cons_self
    show coalesce merge i (last :: post) = _
    simp only [coalesce, hi, List.singleton_append]
  | i :: j :: front, h => by
    have hij : merge i j = none := (List.pairwise_cons.mp h).1 j List.mem_cons_self
    have htail := coalesceAll_append post h.tail
    show coalesce merge i (j :: (front ++ last :: post)) = _
    simp only [coalesce, hij]
    exact congrArg (List.cons i) htail

end Settled

/-! ### Joining is harmless -/

/-- What joining does to the bounds and to what is said about the points, for
records with the property `P`. -/
structure Merging (e : Extent ι α) (v : ι → α → β) (P : ι → Prop) (merge : ι → ι → Option ι) :
    Prop where
  keeps : ∀ {i j k}, P i → P j → merge i j = some k → P k
  lo : ∀ {i j k}, P i → P j → merge i j = some k → e.lo k = e.lo i
  hi : ∀ {i j k}, P i → P j → merge i j = some k → e.hi k = e.hi j
  touch : ∀ {i j k}, P i → P j → merge i j = some k → e.hi i = e.lo j
  view_left : ∀ {i j k}, P i → P j → merge i j = some k → ∀ a, e.Covers i a → v k a = v i a
  view_right : ∀ {i j k}, P i → P j → merge i j = some k → ∀ a, e.Covers j a → v k a = v j a
  /-- Toward the records before it, the joined record behaves as the first one. -/
  left : ∀ {i j k}, P i → P j → merge i j = some k → ∀ x, merge x k = none ↔ merge x i = none

namespace Merging

variable {e : Extent ι α} {v : ι → α → β} {P : ι → Prop} {merge : ι → ι → Option ι}

/-- Joining the first two records of a tidy list. -/
theorem tidy (M : Merging e v P merge) {i j k : ι} {l : List ι} (hi : P i) (hj : P j)
    (hm : merge i j = some k) (h : e.Tidy (i :: j :: l)) : e.Tidy (k :: l) := by
  obtain ⟨hpi, htail, hij⟩ := tidy_cons.mp h
  obtain ⟨hpj, hl, hafter⟩ := tidy_cons.mp htail
  rw [tidy_cons, M.lo hi hj hm, M.hi hi hj hm]
  refine ⟨?_, hl, hafter⟩
  calc e.lo i < e.hi i := hpi
    _ ≤ e.lo j := hij j List.mem_cons_self
    _ < e.hi j := hpj
    _ ≤ e.hi j := le_rfl

theorem lookup_cons (M : Merging e v P merge) {i j k : ι} {l : List ι} (hi : P i) (hj : P j)
    (hm : merge i j = some k) (h : e.Tidy (i :: j :: l)) (a : α) :
    e.lookup v (k :: l) a = e.lookup v (i :: j :: l) a := by
  obtain ⟨hpi, htail, -⟩ := tidy_cons.mp h
  obtain ⟨hpj, -, -⟩ := tidy_cons.mp htail
  have hlo := M.lo hi hj hm
  have hhi := M.hi hi hj hm
  have htouch := M.touch hi hj hm
  by_cases hia : e.Covers i a
  · have hka : e.Covers k a :=
      ⟨hlo.le.trans hia.1, by rw [hhi]; exact hia.2.trans (htouch.trans_lt hpj)⟩
    rw [lookup_cons_pos hka, lookup_cons_pos hia, M.view_left hi hj hm a hia]
  · by_cases hja : e.Covers j a
    · have hka : e.Covers k a :=
        ⟨by rw [hlo]; exact (hpi.trans_eq htouch).le.trans hja.1, by rw [hhi]; exact hja.2⟩
      rw [lookup_cons_pos hka, lookup_cons_neg hia, lookup_cons_pos hja,
        M.view_right hi hj hm a hja]
    · have hka : ¬ e.Covers k a := by
        rintro ⟨hk, hk'⟩
        rw [hlo] at hk
        rw [hhi] at hk'
        -- a point of the joined interval lies before the seam or after it
        obtain hlt | hge := lt_or_ge a (e.hi i)
        · exact hia ⟨hk, hlt⟩
        · exact hja ⟨htouch ▸ hge, hk'⟩
      rw [lookup_cons_neg hka, lookup_cons_neg hia, lookup_cons_neg hja]

/-- The first record of a coalesced list starts where the first one did, and
merges with what comes before as that one does. -/
theorem coalesce_head (M : Merging e v P merge) : ∀ {i : ι} {l : List ι}, P i → (∀ j ∈ l, P j) →
    ∃ k l', coalesce merge i l = k :: l' ∧ e.lo k = e.lo i ∧
      ∀ x, merge x k = none ↔ merge x i = none
  | i, [], _, _ => ⟨i, [], rfl, rfl, fun _ => Iff.rfl⟩
  | i, j :: l, hi, hl => by
    have hj := hl j List.mem_cons_self
    cases hm : merge i j with
    | none => exact ⟨i, coalesce merge j l, by simp only [coalesce, hm], rfl, fun _ => Iff.rfl⟩
    | some m =>
      obtain ⟨k, l', heq, hlo, hleft⟩ := M.coalesce_head (M.keeps hi hj hm)
        fun x hx => hl x (List.mem_cons_of_mem j hx)
      exact ⟨k, l', by simpa only [coalesce, hm] using heq, hlo.trans (M.lo hi hj hm),
        fun x => (hleft x).trans (M.left hi hj hm x)⟩

/-- **Coalescing** a tidy list keeps it tidy, keeps what it says about every
point, and leaves no two records that merge. -/
theorem coalesce_spec (M : Merging e v P merge) : ∀ {i : ι} {l : List ι}, e.Tidy (i :: l) →
    P i → (∀ j ∈ l, P j) →
    e.Tidy (coalesce merge i l) ∧ (∀ j ∈ coalesce merge i l, P j) ∧
      Settled merge (coalesce merge i l) ∧
      ∀ a, e.lookup v (coalesce merge i l) a = e.lookup v (i :: l) a
  | i, [], h, hi, _ =>
    ⟨h, fun _ hj => List.mem_singleton.mp hj ▸ hi, List.pairwise_singleton _ _, fun _ => rfl⟩
  | i, j :: l, h, hi, hl => by
    have hj := hl j List.mem_cons_self
    have hl' : ∀ x ∈ l, P x := fun x hx => hl x (List.mem_cons_of_mem j hx)
    cases hm : merge i j with
    | some k =>
      obtain ⟨htidy, hP, hsettled, hview⟩ :=
        M.coalesce_spec (M.tidy hi hj hm h) (M.keeps hi hj hm) hl'
      simp only [coalesce, hm]
      exact ⟨htidy, hP, hsettled, fun a => (hview a).trans (M.lookup_cons hi hj hm h a)⟩
    | none =>
      obtain ⟨hpi, htail, hafter⟩ := tidy_cons.mp h
      obtain ⟨htidy, hP, hsettled, hview⟩ := M.coalesce_spec htail hj hl'
      obtain ⟨k, l', heq, hlo, hleft⟩ := M.coalesce_head hj hl'
      simp only [coalesce, hm]
      rw [heq] at htidy hP hsettled hview ⊢
      obtain ⟨hpk, -, hrest⟩ := tidy_cons.mp htidy
      have hik : e.hi i ≤ e.lo k := (hafter j List.mem_cons_self).trans_eq hlo.symm
      refine ⟨tidy_cons.mpr ⟨hpi, htidy, fun x hx => ?_⟩, fun x hx => ?_,
        List.pairwise_cons.mpr ⟨fun x hx => ?_, hsettled⟩, fun a => ?_⟩
      · obtain rfl | hx := List.mem_cons.mp hx
        · exact hik
        · exact hik.trans (hpk.le.trans (hrest x hx))
      · obtain rfl | hx := List.mem_cons.mp hx
        · exact hi
        · exact hP x hx
      · obtain rfl | hxl := List.mem_cons.mp hx
        · exact (hleft i).mpr hm
        · -- a later record starts beyond the end of `i`
          cases hix : merge i x with
          | none => rfl
          | some y =>
            have htouch := M.touch hi (hP x hx) hix
            exact absurd (hik.trans_lt (hpk.trans_le (hrest x hxl))) (by rw [htouch]; exact lt_irrefl _)
      · by_cases ha : e.Covers i a
        · rw [lookup_cons_pos ha, lookup_cons_pos ha]
        · rw [lookup_cons_neg ha, lookup_cons_neg ha, hview a]

/-- The same for a whole list. -/
theorem coalesceAll_spec (M : Merging e v P merge) {l : List ι} (h : e.Tidy l)
    (hP : ∀ i ∈ l, P i) :
    e.Tidy (coalesceAll merge l) ∧ (∀ j ∈ coalesceAll merge l, P j) ∧
      Settled merge (coalesceAll merge l) ∧
      ∀ a, e.lookup v (coalesceAll merge l) a = e.lookup v l a := by
  cases l with
  | nil => exact ⟨h, hP, List.Pairwise.nil, fun _ => rfl⟩
  | cons i l =>
    exact M.coalesce_spec h (hP i List.mem_cons_self) fun j hj => hP j (List.mem_cons_of_mem i hj)

end Merging

end Prosperismo.Extent
