import Prosperismo.GuestAddressSpace.Backing

/-!
# Unmapping a range

`Unmap` cuts the range into parts by the entries (`targets_spec`), unmaps part
after part, and maps what it has unmapped again when a part cannot be unmapped.
`Restorable o removed f` says that mapping the parts of `removed` one after
another leads from the offsets `f` to the offsets `o`; it is the invariant that
makes the rollback exact.

`UnmappedRange` says what a successful `Unmap` does: an entry that reaches into the
range is `Near` the addresses it has outside of it, and these get the protection
of the mode the entry records.
-/

namespace Prosperismo.GuestAddressSpace

open Extent
open OrderedMap (entryAt extent extent_covers)
open PhysicalMemory (Mode)
open VirtualRanges (uint64Max)

/-! ### The parts -/

/-- The parts of a range by the entries that contain it. -/
def Parts (entry : ℕ → Option (ℕ × MapEntry)) (last : ℕ) : ℕ → List MapEntry → Prop
  | current, [] => last ≤ current
  | current, part :: parts => current < last ∧ ∃ it, entry current = some it ∧
      part = ⟨current, min last (it.1 + it.2.size) - current, it.2.offset current, it.2.mode⟩ ∧
      Parts entry last (min last (it.1 + it.2.size)) parts

/-- The parts depend on the entries in the range only. -/
theorem Parts.congr {entry entry' : ℕ → Option (ℕ × MapEntry)} {last : ℕ} :
    ∀ {current : ℕ} {parts : List MapEntry}, Parts entry last current parts →
      (∀ it, (∃ a, entry a = some it) → it.1 < it.1 + it.2.size) →
      (∀ a it, entry a = some it → a < it.1 + it.2.size) →
      (∀ a, current ≤ a → a < last → entry' a = entry a) → Parts entry' last current parts
  | _, [], h, _, _, _ => h
  | current, part :: parts, h, hproper, hcovers, heq => by
    obtain ⟨hlt, it, hit, rfl, hrest⟩ := h
    have hcurrent := hcovers current it hit
    exact ⟨hlt, it, (heq current le_rfl hlt).trans hit, rfl,
      hrest.congr hproper hcovers fun a hle ha => heq a (by omega) ha⟩

/-- **`targets`** of `Unmap`. -/
theorem targets_spec {maps : MapEntries} (h : Disjoint maps) {vaddr last : ℕ}
    {parts : List MapEntry} (hparts : targets maps vaddr last = some parts) :
    Parts (entryAt MapEntry.size maps) last vaddr parts := by
  unfold targets at hparts
  induction vaddr using walk.induct (fun entry : MapEntry => entry.vaddr + entry.size) last
    generalizing parts with
  | case1 current hlt ih =>
    rw [walk, if_pos hlt] at hparts
    obtain ⟨list, hlist, rfl⟩ := Option.map_eq_some_iff.mp hparts
    obtain ⟨entry, hfind, hlist⟩ := Option.bind_eq_some_iff.mp hlist
    split at hlist
    · rename_i hstop
      obtain ⟨rest, hrest, rfl⟩ := Option.map_eq_some_iff.mp hlist
      have hit := h.find_iff.mp hfind
      obtain ⟨-, hle, -⟩ := h.entryAt_iff.mp hit
      refine ⟨hlt, _, hit, ?_, ih entry hstop (by rw [hrest]; rfl)⟩
      have hstart : entry.vaddr ≤ current := hle
      show MapEntry.mk current (min last (entry.vaddr + entry.size) - current)
        (entry.backingOffset + current - entry.vaddr) entry.mode = _
      rw [Nat.add_sub_assoc hstart]
      rfl
    · cases hlist
  | case2 current hlt =>
    rw [walk, if_neg hlt] at hparts
    cases hparts
    exact not_lt.mp hlt

/-! ### The rollback -/

/-- Mapping the removed parts in turn leads from the offsets `f` to `o`. -/
def Restorable (o : ℕ → Option ℕ) : List MapEntry → (ℕ → Option ℕ) → Prop
  | [], f => f = o
  | part :: removed, f => part.vaddr + part.size ≤ uint64Max ∧
      (∀ a, part.vaddr ≤ a → a < part.vaddr + part.size → f a = none) ∧
      Restorable o removed (fill f part.vaddr (part.vaddr + part.size)
        fun a _ => some (part.offset a))

theorem offsetAt_eq_none {maps : MapEntries} {a : ℕ} :
    offsetAt maps a = none ↔ entryAt MapEntry.size maps a = none := Option.map_eq_none_iff

section Unmap

variable {backingSize : ℕ} {o : ℕ → Option ℕ} {s s' : State} {last : ℕ} {ok : Bool}

/-- **The rollback** maps every part again. -/
theorem restore_spec : ∀ {removed : List MapEntry} {s : State}, Backed s →
    Restorable o removed (offsetAt s.maps) → restore backingSize removed s = some s' →
      Backed s' ∧ Kept s s' ∧ offsetAt s'.maps = o
  | [], s, h, ho, hr => by
    cases hr
    exact ⟨h, Kept.refl _, ho⟩
  | part :: removed, s, h, ho, hr => by
    obtain ⟨hbound, hnone, hrest⟩ := ho
    obtain ⟨⟨s₁, ok⟩, hmap, hr⟩ := Option.bind_eq_some_iff.mp hr
    obtain ⟨hb, hk, -, hmapped⟩ := mapExisting_spec h hbound
      (fun a hle hlt => offsetAt_eq_none.mp (hnone a hle hlt)) hmap
    dsimp only at hr
    split at hr
    · rename_i hok
      have hentries := (hmapped hok).entries
      have hoffset : offsetAt s₁.maps = fill (offsetAt s.maps) part.vaddr (part.vaddr + part.size)
          fun a _ => some (part.offset a) := by
        funext a
        show (entryAt MapEntry.size s₁.maps a).map _ = _
        rw [hentries]
        by_cases ha : part.vaddr ≤ a ∧ a < part.vaddr + part.size
        · rw [fill_of_mem ha, fill_of_mem ha]
          rfl
        · rw [fill_of_not_mem ha, fill_of_not_mem ha]
          rfl
      obtain ⟨hb', hk', ho'⟩ := restore_spec hb (hoffset ▸ hrest) hr
      exact ⟨hb', hk.trans hk', ho'⟩
    · cases hr

/-- The entry that contains an address reaches into a range. -/
def Near (maps : MapEntries) (first last a : ℕ) (it : ℕ × MapEntry) : Prop :=
  entryAt MapEntry.size maps a = some it ∧
    ∃ b, first ≤ b ∧ b < last ∧ (extent MapEntry.size).Covers it b

/-- What a successful `Unmap` does to the addresses of a range, and to the other
ones. -/
structure UnmappedRange (s s' : State) (first last : ℕ) : Prop where
  inside : ∀ a, first ≤ a → a < last → offsetAt s'.maps a = none
  offset : ∀ a, ¬ (first ≤ a ∧ a < last) → offsetAt s'.maps a = offsetAt s.maps a
  near : ∀ a it, ¬ (first ≤ a ∧ a < last) → Near s.maps first last a it →
    s'.host a = ⟨some (it.2.offset a), getProtect it.2.mode⟩
  far : ∀ a, ¬ (first ≤ a ∧ a < last) → (∀ it, ¬ Near s.maps first last a it) →
    s'.host a = s.host a

/-- What cutting an entry does to the offsets. -/
theorem Cut.offsetAt_eq {it : ℕ × MapEntry} (hit : it ∈ s.maps.entries) (h : Disjoint s.maps)
    {vaddr size : ℕ} (C : Cut s s' it vaddr size) :
    offsetAt s'.maps = fill (offsetAt s.maps) vaddr (vaddr + size) fun _ _ => none := by
  funext a
  by_cases ha : vaddr ≤ a ∧ a < vaddr + size
  · rw [fill_of_mem ha]
    exact offsetAt_eq_none.mpr (C.inside a ha).1
  · rw [fill_of_not_mem ha]
    show (entryAt MapEntry.size s'.maps a).map _ = (entryAt MapEntry.size s.maps a).map _
    by_cases hcovers : (extent MapEntry.size).Covers it a
    · obtain ⟨⟨piece, hpiece, hoffset, -⟩, -⟩ := C.beside a ha hcovers
      rw [hpiece, h.entryAt_iff.mpr ⟨hit, hcovers⟩, Option.map_some, Option.map_some, hoffset]
    · rw [(C.outside a hcovers).1]

/-- **The loop of `Unmap`**: the entries that contain the first part are cut, and
what comes after it is as before. -/
theorem unmapParts_spec : ∀ {parts : List MapEntry} (removed : List MapEntry) {s : State} {current : ℕ}, Backed s →
    Parts (entryAt MapEntry.size s.maps) last current parts →
    Restorable o removed (offsetAt s.maps) →
    unmapParts backingSize parts removed s = some (s', ok) →
      Backed s' ∧ Kept s s' ∧ (ok = false → offsetAt s'.maps = o) ∧
        (ok = true → UnmappedRange s s' current last)
  | [], removed, s, current, h, hparts, ho, hr => by
    cases hr
    have hempty : last ≤ current := hparts
    refine ⟨h, Kept.refl _, fun hok => absurd hok (by decide), fun _ =>
      ⟨fun a hle hlt => by omega, fun _ _ => rfl, fun a it _ hnear => ?_, fun _ _ _ => rfl⟩⟩
    obtain ⟨-, b, hle, hlt, -⟩ := hnear
    omega
  | part :: parts, removed, s, current, h, hparts, ho, hr => by
    obtain ⟨hlt, it, hentry, rfl, hrest⟩ := hparts
    obtain ⟨hit, hcovers⟩ := h.disjoint.entryAt_iff.mp hentry
    rw [extent_covers] at hcovers
    have hbound := h.disjoint.bounded it hit
    obtain ⟨⟨s₁, done⟩, hone, hr⟩ := Option.bind_eq_some_iff.mp hr
    obtain ⟨hb, hk, hfail, hcut⟩ := unmapOne_spec h hone
    dsimp only at hcut hr
    have hstop : current + (min last (it.1 + it.2.size) - current)
        = min last (it.1 + it.2.size) := by omega
    split at hr
    · -- the part is unmapped
      rename_i hdone
      obtain ⟨i, hi, hle, hend, C⟩ := hcut hdone
      obtain rfl : it = i := h.disjoint.tidy.eq_of_covers (a := current) hit hi
        (extent_covers.mpr hcovers) (extent_covers.mpr (by omega))
      have hoffset := C.offsetAt_eq hit h.disjoint
      rw [hstop] at hoffset
      have hbehind : ∀ a, min last (it.1 + it.2.size) ≤ a → a < last →
          entryAt MapEntry.size s₁.maps a = entryAt MapEntry.size s.maps a := fun a hle hlast =>
        (C.outside a (by rw [extent_covers]; omega)).1
      obtain ⟨hb', hk', hfail', hunmapped⟩ := unmapParts_spec
        (⟨current, min last (it.1 + it.2.size) - current, it.2.offset current,
          it.2.mode⟩ :: removed) hb
        (hrest.congr
          (fun i ⟨a, hia⟩ => h.disjoint.tidy.proper i (h.disjoint.entryAt_iff.mp hia).1)
          (fun a i hia => (h.disjoint.entryAt_iff.mp hia).2.2) hbehind)
        (by
          refine ⟨?_, fun a hle hlt => ?_, ?_⟩
          · show current + (min last (it.1 + it.2.size) - current) ≤ uint64Max
            omega
          · rw [hoffset]
            dsimp only at hle hlt
            exact fill_of_mem (by omega)
          · -- filling in the offsets of the part gives the offsets before
            have hback : fill (offsetAt s₁.maps) current
                (current + (min last (it.1 + it.2.size) - current)) (fun a _ =>
                  some (MapEntry.offset ⟨current, min last (it.1 + it.2.size) - current,
                    it.2.offset current, it.2.mode⟩ a)) = offsetAt s.maps := by
              funext a
              by_cases ha : current ≤ a ∧ a < min last (it.1 + it.2.size)
              · rw [fill_of_mem (by omega)]
                show _ = (entryAt MapEntry.size s.maps a).map _
                rw [h.disjoint.entryAt_iff.mpr ⟨hit, extent_covers.mpr (by omega)⟩, Option.map_some]
                have hkey := h.disjoint.keys it hit
                unfold MapEntry.offset
                dsimp only
                congr 1
                omega
              · rw [fill_of_not_mem (by omega), hoffset, fill_of_not_mem ha]
            exact hback ▸ ho) hr
      refine ⟨hb', hk.trans hk', hfail', fun hok => ?_⟩
      have U := hunmapped hok
      -- nothing of the entry that was cut lies behind the part
      have hapart : ∀ a i, (extent MapEntry.size).Covers it a → ¬ (current ≤ a ∧ a < last) →
          ¬ Near s₁.maps (min last (it.1 + it.2.size)) last a i := by
        rintro a i ha hout ⟨hi, b, hlo, hhi, hib⟩
        obtain ⟨⟨piece, hpiece, -, hwithin⟩, -⟩ := C.beside a (by omega) ha
        rw [hpiece] at hi
        cases hi
        obtain ⟨hb, -⟩ := hwithin b hib
        rw [extent_covers] at hb
        omega
      -- an entry that was not cut reaches into the range behind the part, if into the range
      have hsame : ∀ a i, ¬ (extent MapEntry.size).Covers it a →
          (Near s₁.maps (min last (it.1 + it.2.size)) last a i ↔ Near s.maps current last a i) := by
        intro a i ha
        unfold Near
        rw [(C.outside a ha).1]
        refine and_congr_right fun hi => ⟨?_, ?_⟩
        · rintro ⟨b, hlo, hhi, hib⟩
          exact ⟨b, by omega, hhi, hib⟩
        · rintro ⟨b, hlo, hhi, hib⟩
          refine ⟨b, ?_, hhi, hib⟩
          by_contra hbefore
          obtain ⟨hmem, hia⟩ := h.disjoint.entryAt_iff.mp hi
          obtain rfl := h.disjoint.tidy.eq_of_covers hit hmem (extent_covers.mpr (by omega)) hib
          exact ha hia
      refine ⟨fun a hle hlt => ?_, fun a ha => ?_, fun a i ha hnear => ?_, fun a ha hfar => ?_⟩
      · by_cases hbefore : a < min last (it.1 + it.2.size)
        · rw [U.offset a (by omega), hoffset]
          exact fill_of_mem ⟨hle, hbefore⟩
        · exact U.inside a (by omega) hlt
      · rw [U.offset a (by omega), hoffset]
        exact fill_of_not_mem (by omega)
      · by_cases hcut : (extent MapEntry.size).Covers it a
        · obtain rfl : it = i := Option.some.inj
            ((h.disjoint.entryAt_iff.mpr ⟨hit, hcut⟩).symm.trans hnear.1)
          rw [U.far a (by omega) fun i => hapart a i hcut ha]
          exact (C.beside a (by omega) hcut).2
        · exact U.near a i (by omega) ((hsame a i hcut).mpr hnear)
      · have hcut : ¬ (extent MapEntry.size).Covers it a := fun hcut => hfar it
          ⟨h.disjoint.entryAt_iff.mpr ⟨hit, hcut⟩, current, le_rfl, hlt, extent_covers.mpr hcovers⟩
        rw [U.far a (by omega) fun i hi => hfar i ((hsame a i hcut).mp hi), (C.outside a hcut).2]
    · -- the part cannot be unmapped
      rename_i hdone
      have hsame := hfail (by simpa using hdone)
      obtain ⟨s₂, hrestore, hr⟩ := Option.map_eq_some_iff.mp hr
      cases hr
      obtain ⟨hb', hk', ho'⟩ := restore_spec hb (by
        have hoffset : offsetAt s₁.maps = offsetAt s.maps := by
          funext a
          show (entryAt MapEntry.size s₁.maps a).map _ = _
          rw [hsame]
          rfl
        rw [hoffset]
        exact ho) hrestore
      exact ⟨hb', hk.trans hk', fun _ => ho', fun hok => absurd hok (by decide)⟩

/-- **`Unmap`** unmaps the whole range, or leaves every offset as it was. -/
theorem unmap_spec (h : Backed s) {vaddr size : ℕ}
    (hr : unmap backingSize s vaddr size = some (s', ok)) :
    Backed s' ∧ Kept s s' ∧ (ok = false → offsetAt s'.maps = offsetAt s.maps) ∧
      (ok = true → UnmappedRange s s' vaddr (vaddr + size)) := by
  have hsame : s = s' ∧ false = ok → Backed s' ∧ Kept s s' ∧
      (ok = false → offsetAt s'.maps = offsetAt s.maps) ∧
      (ok = true → UnmappedRange s s' vaddr (vaddr + size)) := by
    rintro ⟨rfl, rfl⟩
    exact ⟨h, Kept.refl s, fun _ => rfl, fun hok => absurd hok (by decide)⟩
  unfold unmap at hr
  split at hr
  · exact hsame (Prod.mk.inj (Option.some.inj hr))
  · split at hr
    · exact hsame (Prod.mk.inj (Option.some.inj hr))
    · rename_i parts hparts
      exact unmapParts_spec [] h (targets_spec h.disjoint hparts)
        (show Restorable (offsetAt s.maps) [] (offsetAt s.maps) from rfl) hr

end Unmap

end Prosperismo.GuestAddressSpace
