import Mathlib.Data.Set.Basic
import Prosperismo.Base.Intervals
import Prosperismo.RangeSet.Model

/-!
# A range set is the set of its bytes

The stored entries are kept *apart*: not empty, in order, and with a gap
between any two. Everything a query reads off a single entry depends on it:

* `absorb_spec` and `carve_spec` are what the two loops do to the entries in
  front of the iterator; each keeps the whole list apart;
* `stepBack_split` is the only fact about the position of an iterator: behind it
  lie the entries that do not reach the request, in front of it those that do;
* a stretch of covered bytes lies in one entry of a list that is kept apart, and
  the end of an entry is not covered. The first gives `contains_spec`, both
  together give that a clipped entry is a maximal run of the set in the request
  (`mem_intersections`).
-/

namespace Prosperismo.RangeSet

/-- An entry is the interval from its key to its value. -/
def extent : Extent (ℕ × ℕ) ℕ := ⟨Prod.fst, Prod.snd⟩

/-- The bytes the set stands for. -/
def bytes (ranges : Ranges) : Set ℕ := {x | extent.Covered ranges.entries x}

/-- The bytes of a request. -/
def query (address size : ℕ) : Set ℕ := {x | address ≤ x ∧ x < address + size}

theorem covers_iff {i : ℕ × ℕ} {x : ℕ} : extent.Covers i x ↔ i.1 ≤ x ∧ x < i.2 := Iff.rfl

@[simp] theorem extent_lo (i : ℕ × ℕ) : extent.lo i = i.1 := rfl

@[simp] theorem extent_hi (i : ℕ × ℕ) : extent.hi i = i.2 := rfl

@[simp] theorem mem_bytes {ranges : Ranges} {x : ℕ} :
    x ∈ bytes ranges ↔ extent.Covered ranges.entries x := Iff.rfl

@[simp] theorem mem_query {address size x : ℕ} :
    x ∈ query address size ↔ address ≤ x ∧ x < address + size := Iff.rfl

/-- A request `endOf` lets through has a byte, and ends where it should. -/
theorem endOf_eq_some {address size stop : ℕ} (h : endOf address size = some stop) :
    address < stop ∧ stop = address + size := by
  unfold endOf at h
  split at h
  · cases h
  · obtain rfl := Option.some.inj h
    omega

/-! ### Where an iterator stands -/

/-- **Stepping back.** In a tidy list split at a request, with no end at or
before a key behind the iterator reaching it and every entry in front reaching
it, stepping back once leaves behind exactly the entries that do not. -/
theorem stepBack_split (reaches : ℕ → Bool) {behind ahead : List (ℕ × ℕ)}
    (htidy : extent.Tidy (behind ++ ahead))
    (hbehind : ∀ j ∈ behind, ∀ last ≤ j.1, ¬ reaches last)
    (hahead : ∀ i ∈ ahead, reaches i.2) :
    ∃ pre, behind ++ ahead = pre ++ stepBack reaches behind ahead ∧
      (∀ i ∈ pre, ¬ reaches i.2) ∧ ∀ i ∈ stepBack reaches behind ahead, reaches i.2 := by
  obtain rfl | ⟨front, last, rfl⟩ := behind.eq_nil_or_concat'
  · exact ⟨[], rfl, fun _ hi => absurd hi List.not_mem_nil, hahead⟩
  · have hfront : ∀ i ∈ front, ¬ reaches i.2 := by
      intro i hi
      -- the entry ends before the last one behind starts
      have hends : extent.hi i ≤ extent.lo last :=
        (Extent.tidy_append.mp (Extent.tidy_append.mp htidy).1).2.2 i hi last
          List.mem_cons_self
      exact hbehind last (List.mem_append_right _ List.mem_cons_self) i.2 hends
    have hback : stepBack reaches (front ++ [last]) ahead
        = if reaches last.2 then last :: ahead else ahead := by
      simp only [stepBack, List.getLast?_append, List.getLast?_singleton, Option.some_or]
    rw [hback]
    split
    · rename_i hreach
      refine ⟨front, by rw [List.append_assoc, List.singleton_append], hfront, ?_⟩
      intro i hi
      obtain rfl | hi := List.mem_cons.mp hi
      · exact hreach
      · exact hahead i hi
    · rename_i hreach
      refine ⟨front ++ [last], rfl, ?_, hahead⟩
      intro i hi
      obtain hi | hi := List.mem_append.mp hi
      · exact hfront i hi
      · rwa [List.mem_singleton.mp hi]

/-! ### Adding -/

/-- **The loop of `Add`.** Every entry it walks ends at `first` or later. What it
grows is the union of `[first, last)` with the entries it erases, and lies apart
from the entries it leaves. -/
theorem absorb_spec {pre : List (ℕ × ℕ)} :
    ∀ {it : List (ℕ × ℕ)} {first last : ℕ} {ranges : Ranges}, ranges.entries = pre ++ it →
      extent.Apart it → first < last → (∀ i ∈ it, first ≤ i.2) →
      ∃ rest, (absorb it first last ranges).2.2.entries = pre ++ rest ∧ rest <:+ it ∧
        (∀ i ∈ rest, (absorb it first last ranges).2.1 < i.1) ∧
        (absorb it first last ranges).1 ≤ first ∧ last ≤ (absorb it first last ranges).2.1 ∧
        (∀ c < first, (∀ i ∈ it, c < i.1) → c < (absorb it first last ranges).1) ∧
        ∀ x, ((absorb it first last ranges).1 ≤ x ∧ x < (absorb it first last ranges).2.1) ∨
          extent.Covered rest x ↔ (first ≤ x ∧ x < last) ∨ extent.Covered it x
  | [], first, last, ranges, hsplit, _, _, _ =>
    ⟨[], hsplit, List.suffix_refl _, fun _ hi => absurd hi List.not_mem_nil, le_refl _, le_refl _,
      fun _ hc _ => hc, fun _ => Iff.rfl⟩
  | i :: it, first, last, ranges, hsplit, hapart, hlt, hends => by
    obtain ⟨hi, hit, hgap⟩ := Extent.apart_cons.mp hapart
    have hend : first ≤ i.2 := hends i List.mem_cons_self
    rw [absorb]
    split
    · rename_i htouch
      have hgrown : min first i.1 < max last i.2 :=
        (min_le_left _ _).trans_lt (hlt.trans_le (le_max_left _ _))
      obtain ⟨rest, hrest, hsuffix, hafter, hfirst, hlast, hbefore, hbytes⟩ :=
        absorb_spec (OrderedMap.erase_of_split hsplit) hit hgrown
          fun j hj => (min_le_left _ _).trans (hends j (List.mem_cons_of_mem i hj))
      refine ⟨rest, hrest, hsuffix.trans (List.suffix_cons i it), hafter,
        hfirst.trans (min_le_left _ _), (le_max_left _ _).trans hlast, ?_, fun x => ?_⟩
      · intro c hc hall
        exact hbefore c (lt_min hc (hall i List.mem_cons_self))
          fun j hj => hall j (List.mem_cons_of_mem i hj)
      · -- the two intervals overlap or touch, so their hull is their union
        rw [hbytes x, Extent.covered_cons, covers_iff, ← or_assoc]
        exact or_congr (by omega) Iff.rfl
    · rename_i htouch
      refine ⟨i :: it, hsplit, List.suffix_refl _, ?_, le_refl _, le_refl _, fun _ hc _ => hc,
        fun _ => Iff.rfl⟩
      intro j hj
      obtain rfl | hj := List.mem_cons.mp hj
      · exact not_le.mp htouch
      · have hfar : i.2 < j.1 := hgap j hj
        have hproper : i.1 < i.2 := hi
        show last < j.1
        omega

/-- **`Add`** keeps the entries apart and unites the set with the request. -/
theorem add_spec {ranges : Ranges} (h : extent.Apart ranges.entries) {address size stop : ℕ}
    (hstop : endOf address size = some stop) :
    ∃ ranges', add ranges address size = some ranges' ∧ extent.Apart ranges'.entries ∧
      bytes ranges' = bytes ranges ∪ query address size := by
  obtain ⟨hlt, rfl⟩ := endOf_eq_some hstop
  have htidy : extent.Tidy (ranges.below address ++ ranges.lowerBound address) := by
    rw [OrderedMap.below_append_lowerBound]
    exact h.tidy
  obtain ⟨pre, hsplit, hpre, hit⟩ :=
    stepBack_split (fun last => decide (last ≥ address)) htidy
      (fun j hj last hle => by
        have := OrderedMap.lt_of_mem_below hj
        simpa using hle.trans_lt this)
      (fun i hi => by
        have hkey := OrderedMap.le_of_mem_lowerBound hi
        have hproper : i.1 < i.2 := h.proper i
          (by rw [← ranges.below_append_lowerBound address]; exact List.mem_append_right _ hi)
        simpa using hkey.trans hproper.le)
  rw [OrderedMap.below_append_lowerBound] at hsplit
  generalize hcursor : stepBack (fun last => decide (last ≥ address)) (ranges.below address)
    (ranges.lowerBound address) = it at hsplit hit
  simp only [ge_iff_le, decide_eq_true_eq, not_le] at hpre hit
  have happart := h
  rw [hsplit, Extent.apart_append] at happart
  obtain ⟨hpreApart, hitApart, hgap⟩ := happart
  obtain ⟨rest, hrest, hsuffix, hafter, hfirst, hlast, hbefore, hbytes⟩ :=
    absorb_spec hsplit hitApart hlt hit
  -- what is behind the iterator ends before the grown interval starts
  have hbehind : ∀ i ∈ pre, i.2 < (absorb it address (address + size) ranges).1 :=
    fun i hi => hbefore i.2 (hpre i hi) (hgap i hi)
  generalize hgrown : absorb it address (address + size) ranges = grown at *
  have hentries : (grown.2.2.emplace grown.1 grown.2.1).entries
      = pre ++ (grown.1, grown.2.1) :: rest := by
    refine OrderedMap.emplace_of_split _ hrest (fun i hi => ?_) fun i hi => ?_
    · exact (hpreApart.proper i hi : i.1 < i.2).trans (hbehind i hi)
    · exact (hfirst.trans_lt (hlt.trans_le hlast)).trans (hafter i hi)
  refine ⟨grown.2.2.emplace grown.1 grown.2.1, ?_, ?_, ?_⟩
  · rw [add, hstop]
    simp only [Option.bind_eq_bind, Option.bind_some, hcursor, hgrown, Option.pure_def]
  · rw [hentries, Extent.apart_append, Extent.apart_cons]
    have hrestApart : extent.Apart rest := by
      obtain ⟨taken, rfl⟩ := hsuffix
      exact (Extent.apart_append.mp hitApart).2.1
    refine ⟨hpreApart, ⟨hfirst.trans_lt (hlt.trans_le hlast), hrestApart, hafter⟩, ?_⟩
    intro i hi j hj
    obtain rfl | hj := List.mem_cons.mp hj
    · exact hbehind i hi
    · exact hgap i hi j (hsuffix.subset hj)
  · ext x
    rw [Set.mem_union, mem_bytes, mem_bytes, hentries, hsplit, Extent.covered_append,
      Extent.covered_append, Extent.covered_cons, covers_iff, hbytes x, mem_query, or_assoc]
    exact or_congr_right (or_comm)

/-! ### Subtracting -/

/-- What `Subtract` puts back of an entry to the left of the request. -/
theorem putBack_left {address : ℕ} {pre it : List (ℕ × ℕ)} {i : ℕ × ℕ} {ranges : Ranges}
    (hsplit : ranges.entries = pre ++ it) (hapart : extent.Apart (pre ++ i :: it))
    (hpre : ∀ j ∈ pre, j.2 ≤ address) (hend : address < i.2) :
    ∃ pre', (if i.1 < address then ranges.emplace i.1 address else ranges).entries = pre' ++ it ∧
      extent.Apart (pre' ++ it) ∧ (∀ j ∈ pre', j.2 ≤ address) ∧
      ∀ x, extent.Covered pre' x ↔ extent.Covered pre x ∨ (i.1 ≤ x ∧ x < address) := by
  obtain ⟨hpreApart, hitApart, hgap⟩ := Extent.apart_append.mp hapart
  obtain ⟨hi, hrest, hafter⟩ := Extent.apart_cons.mp hitApart
  have hgapRest : ∀ j ∈ pre, ∀ k ∈ it, j.2 < k.1 :=
    fun j hj k hk => hgap j hj k (List.mem_cons_of_mem i hk)
  split
  · rename_i hleft
    have hkey : ∀ k ∈ it, address < k.1 := fun k hk => hend.trans (hafter k hk)
    refine ⟨pre ++ [(i.1, address)], ?_, ?_, ?_, fun x => ?_⟩
    · rw [OrderedMap.emplace_of_split address hsplit (fun j hj => ?_) fun k hk => ?_,
        List.append_assoc, List.singleton_append]
      · exact (hpreApart.proper j hj : j.1 < j.2).trans (hgap j hj i List.mem_cons_self)
      · exact hleft.trans (hkey k hk)
    · rw [List.append_assoc, List.singleton_append, Extent.apart_append, Extent.apart_cons]
      refine ⟨hpreApart, ⟨hleft, hrest, hkey⟩, fun j hj k hk => ?_⟩
      obtain rfl | hk := List.mem_cons.mp hk
      · exact hgap j hj i List.mem_cons_self
      · exact hgapRest j hj k hk
    · intro j hj
      obtain hj | hj := List.mem_append.mp hj
      · exact hpre j hj
      · rw [List.mem_singleton.mp hj]
    · rw [Extent.covered_append, Extent.covered_cons, covers_iff]
      simp only [Extent.covered_nil, or_false]
  · rename_i hleft
    refine ⟨pre, hsplit, Extent.apart_append.mpr ⟨hpreApart, hrest, hgapRest⟩, hpre, fun x => ?_⟩
    -- nothing of the entry lies to the left
    exact ⟨Or.inl, fun hx => hx.resolve_right (by omega)⟩

/-- **The loop of `Subtract`.** Every entry it walks ends after `address`, and
none behind it does. -/
theorem carve_spec {address stop : ℕ} (hlt : address < stop) :
    ∀ {it pre : List (ℕ × ℕ)} {ranges : Ranges}, ranges.entries = pre ++ it →
      extent.Apart (pre ++ it) → (∀ i ∈ pre, i.2 ≤ address) → (∀ i ∈ it, address < i.2) →
      extent.Apart (carve address stop it ranges).entries ∧
        ∀ x, extent.Covered (carve address stop it ranges).entries x ↔
          extent.Covered pre x ∨ extent.Covered it x ∧ ¬ (address ≤ x ∧ x < stop)
  | [], pre, ranges, hsplit, hapart, hpre, _ => by
    refine ⟨by rw [carve, hsplit]; exact hapart, fun x => ?_⟩
    rw [carve, hsplit, List.append_nil]
    exact ⟨Or.inl, fun hx => hx.resolve_right fun hx => Extent.covered_nil extent x hx.1⟩
  | i :: it, pre, ranges, hsplit, hapart, hpre, hends => by
    obtain ⟨hpreApart, hitApart, hgap⟩ := Extent.apart_append.mp hapart
    obtain ⟨hi, hrest, hafter⟩ := Extent.apart_cons.mp hitApart
    have hend : address < i.2 := hends i List.mem_cons_self
    have hproper : i.1 < i.2 := hi
    -- what is left of the request is not cut
    have hright : ∀ l : List (ℕ × ℕ), (∀ k ∈ l, stop ≤ k.1) → ∀ x, extent.Covered l x →
        ¬ (address ≤ x ∧ x < stop) := by
      rintro l hl x ⟨k, hk, hkx⟩ hx
      have hlo : k.1 ≤ x := hkx.1
      have := hl k hk
      omega
    by_cases hstart : i.1 < stop
    · obtain ⟨pre', hsplit', hapart', hpre', hcovered⟩ :=
        putBack_left (OrderedMap.erase_of_split hsplit) hapart hpre hend
      rw [carve, if_pos hstart]
      dsimp only
      generalize (if i.1 < address then (OrderedMap.erase ranges i.1).emplace i.1 address
        else OrderedMap.erase ranges i.1) = cut at hsplit' ⊢
      by_cases hpast : stop < i.2
      · rw [if_pos hpast]
        have hbeyond : ∀ k ∈ it, i.2 < k.1 := hafter
        obtain ⟨hpreApart', -, hgap'⟩ := Extent.apart_append.mp hapart'
        have hproper' : ∀ j ∈ pre', j.1 < j.2 := hpreApart'.proper
        rw [OrderedMap.emplace_of_split i.2 hsplit' (fun j hj => ?_) fun k hk => ?_]
        · refine ⟨Extent.apart_append.mpr ⟨hpreApart', Extent.apart_cons.mpr
            ⟨hpast, hrest, hbeyond⟩, fun j hj k hk => ?_⟩, fun x => ?_⟩
          · obtain rfl | hk := List.mem_cons.mp hk
            · exact (hpre' j hj).trans_lt hlt
            · exact hgap' j hj k hk
          · have hkeep := hright it (fun k hk => (hpast.trans (hbeyond k hk)).le) x
            rw [Extent.covered_append, hcovered x, Extent.covered_cons, Extent.covered_cons,
              covers_iff, covers_iff]
            constructor
            · rintro ((hx | hx) | hx | hx)
              · exact Or.inl hx
              · exact Or.inr ⟨Or.inl (by omega), by omega⟩
              · exact Or.inr ⟨Or.inl (by omega), by omega⟩
              · exact Or.inr ⟨Or.inr hx, hkeep hx⟩
            · rintro (hx | ⟨hx | hx, hout⟩)
              · exact Or.inl (Or.inl hx)
              · by_cases hxa : x < address
                · exact Or.inl (Or.inr ⟨hx.1, hxa⟩)
                · exact Or.inr (Or.inl (by omega))
              · exact Or.inr (Or.inr hx)
        · exact (hproper' j hj).trans_le ((hpre' j hj).trans hlt.le)
        · exact hpast.trans (hbeyond k hk)
      · rw [if_neg hpast]
        obtain ⟨hdone, hbytes⟩ := carve_spec hlt hsplit' hapart' hpre'
          fun k hk => hends k (List.mem_cons_of_mem i hk)
        refine ⟨hdone, fun x => ?_⟩
        rw [hbytes x, hcovered x, Extent.covered_cons, covers_iff]
        constructor
        · rintro ((hx | hx) | hx)
          · exact Or.inl hx
          · exact Or.inr ⟨Or.inl (by omega), by omega⟩
          · exact Or.inr ⟨Or.inr hx.1, hx.2⟩
        · rintro (hx | ⟨hx | hx, hout⟩)
          · exact Or.inl (Or.inl hx)
          · exact Or.inl (Or.inr (by omega))
          · exact Or.inr ⟨hx, hout⟩
    · rw [carve, if_neg hstart]
      have hkeep := hright (i :: it) fun k hk => by
        obtain rfl | hk := List.mem_cons.mp hk
        · exact not_lt.mp hstart
        · have : i.2 < k.1 := hafter k hk
          omega
      refine ⟨by rw [hsplit]; exact hapart, fun x => ?_⟩
      rw [hsplit, Extent.covered_append]
      exact or_congr_right ⟨fun hx => ⟨hx, hkeep x hx⟩, fun hx => hx.1⟩

/-- **`Subtract`** keeps the entries apart and takes the request from the set. -/
theorem subtract_spec {ranges : Ranges} (h : extent.Apart ranges.entries) {address size stop : ℕ}
    (hstop : endOf address size = some stop) :
    ∃ ranges', subtract ranges address size = some ranges' ∧ extent.Apart ranges'.entries ∧
      bytes ranges' = bytes ranges \ query address size := by
  obtain ⟨hlt, rfl⟩ := endOf_eq_some hstop
  have htidy : extent.Tidy (ranges.below address ++ ranges.lowerBound address) := by
    rw [OrderedMap.below_append_lowerBound]
    exact h.tidy
  obtain ⟨pre, hsplit, hpre, hit⟩ :=
    stepBack_split (fun last => decide (last > address)) htidy
      (fun j hj last hle => by
        have := OrderedMap.lt_of_mem_below hj
        simpa using hle.trans this.le)
      (fun i hi => by
        have hkey := OrderedMap.le_of_mem_lowerBound hi
        have hproper : i.1 < i.2 := h.proper i
          (by rw [← ranges.below_append_lowerBound address]; exact List.mem_append_right _ hi)
        simpa using hkey.trans_lt hproper)
  rw [OrderedMap.below_append_lowerBound] at hsplit
  simp only [gt_iff_lt, decide_eq_true_eq, not_lt] at hpre hit
  obtain ⟨hdone, hbytes⟩ := carve_spec hlt hsplit (hsplit ▸ h) hpre hit
  refine ⟨_, by rw [subtract, hstop]; rfl, hdone, ?_⟩
  ext x
  rw [mem_bytes, hbytes x, Set.mem_sdiff, mem_bytes, hsplit, Extent.covered_append, mem_query]
  constructor
  · rintro (hx | hx)
    · refine ⟨Or.inl hx, ?_⟩
      obtain ⟨i, hi, hix⟩ := hx
      have hend := hpre i hi
      have hlast : x < i.2 := hix.2
      omega
    · exact ⟨Or.inr hx.1, hx.2⟩
  · rintro ⟨hx | hx, hout⟩
    · exact Or.inl hx
    · exact Or.inr ⟨hx, hout⟩

/-! ### Queries -/

/-- The entries an iterator at `upper_bound` has behind and in front of it. -/
theorem upTo_split (ranges : Ranges) (address : ℕ) :
    ranges.upTo address = [] ∨ ∃ front prev, ranges.upTo address = front ++ [prev] ∧
      (ranges.upTo address).getLast? = some prev ∧ prev.1 ≤ address := by
  obtain hnil | ⟨front, prev, hsplit⟩ := (ranges.upTo address).eq_nil_or_concat'
  · exact Or.inl hnil
  · refine Or.inr ⟨front, prev, hsplit, by rw [hsplit, List.getLast?_concat], ?_⟩
    exact OrderedMap.le_of_mem_upTo (hsplit ▸ List.mem_append_right _ List.mem_cons_self)

/-- An entry that starts at the request or before is the last such entry, or
ends where that one starts at the latest. -/
theorem eq_or_ends_before {ranges : Ranges} (h : extent.Apart ranges.entries) {address : ℕ}
    {front : List (ℕ × ℕ)} {prev i : ℕ × ℕ} (hsplit : ranges.upTo address = front ++ [prev])
    (hi : i ∈ ranges.entries) (hle : i.1 ≤ address) : i = prev ∨ i ∈ front ∧ i.2 < prev.1 := by
  have hall := h
  rw [← ranges.upTo_append_upperBound address, hsplit] at hi hall
  obtain hi | hi := List.mem_append.mp hi
  · obtain hi | hi := List.mem_append.mp hi
    · refine Or.inr ⟨hi, ?_⟩
      exact (Extent.apart_append.mp (Extent.apart_append.mp hall).1).2.2 i hi prev
        List.mem_cons_self
    · exact Or.inl (List.mem_singleton.mp hi)
  · exact absurd (OrderedMap.lt_of_mem_upperBound hi) (not_lt.mpr hle)

/-- **`Contains`** tells whether every byte of the request is in the set. -/
theorem contains_spec {ranges : Ranges} (h : extent.Apart ranges.entries) {address size stop : ℕ}
    (hstop : endOf address size = some stop) :
    ∃ answer, contains ranges address size = some answer ∧
      (answer = true ↔ query address size ⊆ bytes ranges) := by
  obtain ⟨hlt, rfl⟩ := endOf_eq_some hstop
  obtain hnil | ⟨front, prev, hsplit, hlast, hprev⟩ := upTo_split ranges address
  · refine ⟨false, by rw [contains, hstop]; simp [hnil], ?_⟩
    -- no entry starts at the request or before, so its first byte is not covered
    refine ⟨fun hfalse => absurd hfalse Bool.false_ne_true, fun hsub => ?_⟩
    obtain ⟨i, hi, hlo, -⟩ := hsub (⟨le_refl _, hlt⟩ : address ∈ query address size)
    rw [← ranges.upTo_append_upperBound address, hnil, List.nil_append] at hi
    exact absurd (OrderedMap.lt_of_mem_upperBound hi) (not_lt.mpr hlo)
  · refine ⟨decide (prev.1 ≤ address ∧ prev.2 ≥ address + size),
      by rw [contains, hstop]; simp [hlast], ?_⟩
    rw [decide_eq_true_eq]
    have hmem : prev ∈ ranges.entries := by
      rw [← ranges.upTo_append_upperBound address, hsplit]
      exact List.mem_append_left _ (List.mem_append_right _ List.mem_cons_self)
    constructor
    · rintro ⟨-, hend⟩ x ⟨hlo, hhi⟩
      exact ⟨prev, hmem, hprev.trans hlo, hhi.trans_le hend⟩
    · intro hsub
      obtain ⟨i, hi, hlo, hhi⟩ := h.exists_superset hlt fun x hx hx' => hsub ⟨hx, hx'⟩
      obtain rfl | ⟨-, hbefore⟩ := eq_or_ends_before h hsplit hi hlo
      · exact ⟨hlo, hhi⟩
      · -- an earlier entry ends before `prev` starts
        have hend : address + size ≤ i.2 := hhi
        omega

/-- The request meets the set in some entry that starts before it ends and ends
after it starts. -/
theorem nonempty_iff {ranges : Ranges} (h : extent.Apart ranges.entries) {address size : ℕ}
    (hlt : address < address + size) :
    (query address size ∩ bytes ranges).Nonempty ↔
      ∃ i ∈ ranges.entries, i.1 < address + size ∧ address < i.2 := by
  constructor
  · rintro ⟨x, ⟨hlo, hhi⟩, i, hi, hix⟩
    have hfirst : i.1 ≤ x := hix.1
    have hlast : x < i.2 := hix.2
    exact ⟨i, hi, hfirst.trans_lt hhi, hlo.trans_lt hlast⟩
  · rintro ⟨i, hi, hstart, hend⟩
    have hproper : i.1 < i.2 := h.proper i hi
    -- the first byte they share
    refine ⟨max address i.1, ⟨le_max_left _ _, max_lt hlt hstart⟩, i, hi, le_max_right _ _, ?_⟩
    exact max_lt hend hproper

/-- Of the entries in front of an iterator, the first decides whether one starts
before `stop`. -/
theorem head_starts_before (ranges : Ranges) (address stop : ℕ) :
    ((ranges.upperBound address).head?.any fun it => decide (it.1 < stop)) = true ↔
      ∃ i ∈ ranges.upperBound address, i.1 < stop := by
  have hsorted := ranges.sorted
  rw [← ranges.upTo_append_upperBound address] at hsorted
  have hahead := (List.pairwise_append.mp hsorted).2.1
  cases hit : ranges.upperBound address with
  | nil => simp
  | cons it rest =>
    rw [hit, List.pairwise_cons] at hahead
    simp only [List.head?_cons, Option.any_some, decide_eq_true_eq, List.mem_cons]
    refine ⟨fun hlt => ⟨it, Or.inl rfl, hlt⟩, ?_⟩
    rintro ⟨i, rfl | hi, hlt⟩
    · exact hlt
    · exact (hahead.1 i hi).trans hlt

/-- **`Intersects`** tells whether some byte of the request is in the set. -/
theorem intersects_spec {ranges : Ranges} (h : extent.Apart ranges.entries)
    {address size stop : ℕ} (hstop : endOf address size = some stop) :
    ∃ answer, intersects ranges address size = some answer ∧
      (answer = true ↔ (query address size ∩ bytes ranges).Nonempty) := by
  obtain ⟨hlt, rfl⟩ := endOf_eq_some hstop
  rw [nonempty_iff h hlt]
  -- an entry in front of the iterator ends after the request starts
  have hahead : ∀ i ∈ ranges.upperBound address, i ∈ ranges.entries ∧ address < i.2 := by
    intro i hi
    have hmem : i ∈ ranges.entries := by
      rw [← ranges.upTo_append_upperBound address]
      exact List.mem_append_right _ hi
    exact ⟨hmem, (OrderedMap.lt_of_mem_upperBound hi).trans (h.proper i hmem)⟩
  obtain hnil | ⟨front, prev, hsplit, hlast, hprev⟩ := upTo_split ranges address
  · refine ⟨_, by rw [intersects, hstop]; rfl, ?_⟩
    simp only [hnil, List.getLast?_nil, Option.any_none, Bool.false_eq_true, if_false]
    rw [head_starts_before]
    constructor
    · rintro ⟨i, hi, hstart⟩
      exact ⟨i, (hahead i hi).1, hstart, (hahead i hi).2⟩
    · rintro ⟨i, hi, hstart, -⟩
      rw [← ranges.upTo_append_upperBound address, hnil, List.nil_append] at hi
      exact ⟨i, hi, hstart⟩
  · have hmem : prev ∈ ranges.entries := by
      rw [← ranges.upTo_append_upperBound address, hsplit]
      exact List.mem_append_left _ (List.mem_append_right _ List.mem_cons_self)
    refine ⟨_, by rw [intersects, hstop]; rfl, ?_⟩
    simp only [hlast, Option.any_some]
    by_cases hreach : address < prev.2
    · simp only [gt_iff_lt, hreach, decide_true, if_true, true_iff]
      exact ⟨prev, hmem, hprev.trans_lt hlt, hreach⟩
    · simp only [gt_iff_lt, hreach, decide_false, Bool.false_eq_true, if_false]
      rw [head_starts_before]
      constructor
      · rintro ⟨i, hi, hstart⟩
        exact ⟨i, (hahead i hi).1, hstart, (hahead i hi).2⟩
      · rintro ⟨i, hi, hstart, hend⟩
        refine ⟨i, ?_, hstart⟩
        obtain hle | hgt := Nat.lt_or_ge address i.1
        · rw [← ranges.upTo_append_upperBound address] at hi
          refine (List.mem_append.mp hi).resolve_left fun hbehind => ?_
          exact absurd (OrderedMap.le_of_mem_upTo hbehind) (not_le.mpr hle)
        · -- an entry behind the iterator ends where `prev` does at the latest
          obtain rfl | ⟨-, hbefore⟩ := eq_or_ends_before h hsplit hi hgt
          · exact absurd hend hreach
          · omega

/-! ### Intersections -/

/-- `r` is a maximal run of `S`: not empty, inside `S`, and neither the byte
before it nor the byte after it is in `S`. -/
structure MaximalRun (S : Set ℕ) (r : Range) : Prop where
  pos : 0 < r.size
  subset : query r.address r.size ⊆ S
  before : ∀ x, x + 1 = r.address → x ∉ S
  after : r.address + r.size ∉ S

theorem clip_eq_some {address stop : ℕ} {i : ℕ × ℕ} {r : Range} :
    clip address stop i = some r ↔ r.address = max address i.1 ∧ 0 < r.size ∧
      r.address + r.size = min stop i.2 := by
  obtain ⟨first, size⟩ := r
  unfold clip
  dsimp only
  split
  · rw [Option.some.injEq, Range.mk.injEq]
    omega
  · simp only [reduceCtorEq, false_iff, not_and]
    omega

/-- The loop of `ForEachIntersection` clips every entry of the set. -/
theorem forEachIntersection_eq {ranges : Ranges} (h : extent.Apart ranges.entries)
    {address size stop : ℕ} (hstop : endOf address size = some stop) :
    forEachIntersection ranges address size
      = some (ranges.entries.filterMap (clip address stop)) := by
  -- leaving the loop early loses nothing, as later entries start even later
  have hleave : ∀ l : List (ℕ × ℕ), l.Pairwise (fun x y => x.1 < y.1) →
      (l.takeWhile fun it => decide (it.1 < stop)).filterMap (clip address stop)
        = l.filterMap (clip address stop) := by
    intro l hl
    conv_rhs => rw [← List.takeWhile_append_dropWhile (l := l)
      (p := fun it : ℕ × ℕ => decide (it.1 < stop)), List.filterMap_append]
    rw [List.self_eq_append_right, List.filterMap_eq_nil_iff]
    intro i hi
    have hfar := OrderedMap.not_of_mem_dropWhile
      (p := fun it : ℕ × ℕ => decide (it.1 < stop))
      (fun x y hxy hy => by simpa using hxy.trans (by simpa using hy)) hl hi
    rw [decide_eq_false_iff_not] at hfar
    exact if_neg (by omega)
  have hsorted := ranges.sorted
  rw [← ranges.upTo_append_upperBound address] at hsorted
  obtain hnil | ⟨front, prev, hsplit, hlast, hprev⟩ := upTo_split ranges address
  · rw [forEachIntersection, hstop]
    simp only [Option.bind_eq_bind, Option.bind_some, Option.pure_def, hnil, List.getLast?_nil]
    rw [hleave _ (List.pairwise_append.mp hsorted).2.1]
    conv_rhs => rw [← ranges.upTo_append_upperBound address, hnil, List.nil_append]
  · rw [forEachIntersection, hstop]
    simp only [Option.bind_eq_bind, Option.bind_some, Option.pure_def, hlast]
    rw [hsplit, List.append_assoc, List.singleton_append] at hsorted
    rw [hleave _ (List.pairwise_append.mp hsorted).2.1]
    conv_rhs => rw [← ranges.upTo_append_upperBound address, hsplit, List.append_assoc,
      List.singleton_append, List.filterMap_append]
    -- the entries before `prev` end before the request
    rw [Option.some.injEq, List.self_eq_append_left, List.filterMap_eq_nil_iff]
    intro i hi
    have hends : i.2 < prev.1 := by
      have hall := h
      rw [← ranges.upTo_append_upperBound address, hsplit] at hall
      exact (Extent.apart_append.mp (Extent.apart_append.mp hall).1).2.2 i hi prev
        List.mem_cons_self
    exact if_neg (by omega)

/-- A clipped entry is a maximal run of the set inside the request. -/
theorem maximalRun_of_clip {ranges : Ranges} (h : extent.Apart ranges.entries)
    {address size : ℕ} {i : ℕ × ℕ} {r : Range} (hi : i ∈ ranges.entries)
    (hclip : clip address (address + size) i = some r) :
    MaximalRun (bytes ranges ∩ query address size) r := by
  obtain ⟨hfirst, hpos, hlast⟩ := clip_eq_some.mp hclip
  have hproper : i.1 < i.2 := h.proper i hi
  refine ⟨hpos, fun x hx => ⟨⟨i, hi, ?_⟩, ?_⟩, ?_, ?_⟩
  · have hx := mem_query.mp hx
    exact ⟨show i.1 ≤ x by omega, show x < i.2 by omega⟩
  · have hx := mem_query.mp hx
    exact ⟨by omega, by omega⟩
  · rintro x hx ⟨⟨j, hj, hlo, hhi⟩, hxq⟩
    have hxq := mem_query.mp hxq
    have hlo : j.1 ≤ x := hlo
    have hhi : x < j.2 := hhi
    -- then the entry of `x` touches this one
    obtain rfl | hne := eq_or_ne i j
    · omega
    · obtain hij | hji := Extent.rel_or_rel h.apart hi hj hne
      · have hij : i.2 < j.1 := hij
        omega
      · have hji : j.2 < i.1 := hji
        omega
  · rintro ⟨hcovered, hquery⟩
    have hquery := mem_query.mp hquery
    have hend : r.address + r.size = i.2 := by omega
    rw [hend] at hcovered
    exact h.not_covered_hi hi hcovered

/-- A maximal run of the set inside the request is a clipped entry. -/
theorem clip_of_maximalRun {ranges : Ranges} (h : extent.Apart ranges.entries)
    {address size : ℕ} {r : Range} (hrun : MaximalRun (bytes ranges ∩ query address size) r) :
    ∃ i ∈ ranges.entries, clip address (address + size) i = some r := by
  have hpos : 0 < r.size := hrun.pos
  obtain ⟨i, hi, hlo, hhi⟩ := h.exists_superset (Nat.lt_add_of_pos_right hpos)
    fun x hx hx' => (hrun.subset ⟨hx, hx'⟩).1
  have hlo : i.1 ≤ r.address := hlo
  have hhi : r.address + r.size ≤ i.2 := hhi
  have hfirst := mem_query.mp (hrun.subset ⟨le_refl _, Nat.lt_add_of_pos_right hpos⟩).2
  have hlast := mem_query.mp (hrun.subset
    (⟨by omega, by omega⟩ : r.address + r.size - 1 ∈ query r.address r.size)).2
  refine ⟨i, hi, clip_eq_some.mpr ⟨?_, hpos, ?_⟩⟩
  · -- otherwise the byte before the run is in the set and in the request
    by_contra hne
    refine hrun.before (r.address - 1) (by omega) ⟨⟨i, hi, ?_⟩, ?_⟩
    · exact ⟨show i.1 ≤ r.address - 1 by omega, show r.address - 1 < i.2 by omega⟩
    · exact ⟨by omega, by omega⟩
  · -- otherwise the byte after the run is
    by_contra hne
    refine hrun.after ⟨⟨i, hi, ?_⟩, ?_⟩
    · exact ⟨show i.1 ≤ r.address + r.size by omega, show r.address + r.size < i.2 by omega⟩
    · exact ⟨by omega, by omega⟩

/-- **`ForEachIntersection`** yields the maximal runs of the set inside the
request, in ascending order. -/
theorem intersections_spec {ranges : Ranges} (h : extent.Apart ranges.entries)
    {address size stop : ℕ} (hstop : endOf address size = some stop) :
    ∃ found, forEachIntersection ranges address size = some found ∧
      found.Pairwise (fun r r' => r.address + r.size < r'.address) ∧
      ∀ r, r ∈ found ↔ MaximalRun (bytes ranges ∩ query address size) r := by
  obtain ⟨-, rfl⟩ := endOf_eq_some hstop
  refine ⟨_, forEachIntersection_eq h hstop, ?_, fun r => ?_⟩
  · refine List.pairwise_filterMap.mpr (h.apart.imp fun {i j} hij r hr r' hr' => ?_)
    have hij : i.2 < j.1 := hij
    have hclip := clip_eq_some.mp hr
    have hclip' := clip_eq_some.mp hr'
    omega
  · rw [List.mem_filterMap]
    constructor
    · rintro ⟨i, hi, hclip⟩
      exact maximalRun_of_clip h hi hclip
    · exact clip_of_maximalRun h

/-! ### Runs -/

/-- A call `End` lets through. -/
def Call.Valid : Call → Prop
  | .add address size => (endOf address size).isSome
  | .subtract address size => (endOf address size).isSome

/-- What a call does to a set of bytes. -/
def Call.denote (S : Set ℕ) : Call → Set ℕ
  | .add address size => S ∪ query address size
  | .subtract address size => S \ query address size

/-- One call: the entries stay apart, and the bytes change as the call says. -/
theorem Call.apply_spec {ranges : Ranges} (h : extent.Apart ranges.entries) :
    ∀ {c : Call}, c.Valid → ∃ ranges', c.apply ranges = some ranges' ∧
      extent.Apart ranges'.entries ∧ bytes ranges' = c.denote (bytes ranges)
  | .add _ _, hvalid => by
    obtain ⟨stop, hstop⟩ := Option.isSome_iff_exists.mp hvalid
    exact add_spec h hstop
  | .subtract _ _, hvalid => by
    obtain ⟨stop, hstop⟩ := Option.isSome_iff_exists.mp hvalid
    exact subtract_spec h hstop

/-- All calls of a list, one after another. -/
theorem foldlM_spec : ∀ {calls : List Call} {ranges : Ranges}, extent.Apart ranges.entries →
    (∀ c ∈ calls, c.Valid) → ∃ ranges', calls.foldlM Call.apply ranges = some ranges' ∧
      extent.Apart ranges'.entries ∧ bytes ranges' = calls.foldl Call.denote (bytes ranges)
  | [], ranges, h, _ => ⟨ranges, rfl, h, rfl⟩
  | c :: calls, ranges, h, hvalid => by
    obtain ⟨ranges', happly, h', hbytes⟩ := c.apply_spec h (hvalid c List.mem_cons_self)
    obtain ⟨ranges'', hrun, h'', hbytes'⟩ :=
      foldlM_spec h' fun d hd => hvalid d (List.mem_cons_of_mem c hd)
    refine ⟨ranges'', ?_, h'', by rw [hbytes', hbytes, List.foldl_cons]⟩
    rw [List.foldlM_cons, happly]
    exact hrun

/-- **A range set denotes a byte set.** After any valid calls the entries are not
empty, in order and apart, the set has been updated by union and by difference,
and every query answers about the set: `Contains` tells whether it has every
byte of the request, `Intersects` whether it has one, and `ForEachIntersection`
yields, in ascending order, its maximal runs inside the request. -/
theorem denotes_bytes (calls : List Call) (hvalid : ∀ c ∈ calls, c.Valid) :
    ∃ ranges, run calls = some ranges ∧ extent.Apart ranges.entries ∧
      bytes ranges = calls.foldl Call.denote ∅ ∧
      ∀ address size, (endOf address size).isSome →
        (∃ answer, contains ranges address size = some answer ∧
          (answer = true ↔ query address size ⊆ bytes ranges)) ∧
        (∃ answer, intersects ranges address size = some answer ∧
          (answer = true ↔ (query address size ∩ bytes ranges).Nonempty)) ∧
        ∃ found, forEachIntersection ranges address size = some found ∧
          found.Pairwise (fun r r' => r.address + r.size < r'.address) ∧
          ∀ r, r ∈ found ↔ MaximalRun (bytes ranges ∩ query address size) r := by
  have hempty : extent.Apart (OrderedMap.empty : Ranges).entries := Extent.Apart.nil
  obtain ⟨ranges, hrun, h, hbytes⟩ := foldlM_spec hempty hvalid
  refine ⟨ranges, hrun, h, ?_, fun address size hsome => ?_⟩
  · rw [hbytes]
    congr 1
    exact Set.eq_empty_of_forall_notMem fun x hx => Extent.covered_nil extent x hx
  · obtain ⟨stop, hstop⟩ := Option.isSome_iff_exists.mp hsome
    exact ⟨contains_spec h hstop, intersects_spec h hstop, intersections_spec h hstop⟩

/-- The result at three calls that leave two ranges. -/
theorem denotes_bytes_cut :
    ∃ ranges, run [.add 1 4, .add 5 4, .subtract 3 2] = some ranges ∧
      extent.Apart ranges.entries ∧
      bytes ranges = [Call.add 1 4, .add 5 4, .subtract 3 2].foldl Call.denote ∅ ∧
      ∀ address size, (endOf address size).isSome →
        (∃ answer, contains ranges address size = some answer ∧
          (answer = true ↔ query address size ⊆ bytes ranges)) ∧
        (∃ answer, intersects ranges address size = some answer ∧
          (answer = true ↔ (query address size ∩ bytes ranges).Nonempty)) ∧
        ∃ found, forEachIntersection ranges address size = some found ∧
          found.Pairwise (fun r r' => r.address + r.size < r'.address) ∧
          ∀ r, r ∈ found ↔ MaximalRun (bytes ranges ∩ query address size) r :=
  denotes_bytes [.add 1 4, .add 5 4, .subtract 3 2] fun c hc => by
    simp only [List.mem_cons, List.not_mem_nil, or_false] at hc
    obtain rfl | rfl | rfl := hc <;> exact rfl

end Prosperismo.RangeSet
