import Prosperismo.GuestAddressSpace.Regions

/-!
# A partial unmap and its neighbours

`Sound` ties the books of an address space together: what is mapped from the
backing file lies in a region of that type, and what is free lies in no region.
Every call keeps it (`Call.apply_sound`), so it holds after any run.

`unmapBacking_spec` is what a successful `UnmapBacking` does in a sound state.
The addresses outside of the range keep their region and their place in the
backing file. Their protection is another matter: an entry that reaches into the
range is torn down and mapped anew in the mode it was mapped in first, while
`Protect` does not change what an entry records. So the neighbours keep their
protection exactly if none of them was protected in another way since
(`unmapBacking_keeps_iff`).
-/

namespace Prosperismo.GuestAddressSpace

open Extent
open OrderedMap (entryAt extent extent_covers)
open PhysicalMemory (Mode freeExtent)
open VirtualRanges (uint64Max)

/-- The books of the address space agree with each other and with the host. -/
structure Sound (s : State) : Prop where
  backed : Backed s
  regions : DisjointRegions s.mapped
  free : freeExtent.Tidy s.free.entries
  backing : ∀ a, offsetAt s.maps a ≠ none → typeAt s.mapped a = some .backing
  unused : ∀ a, freeExtent.Covered s.free.entries a → typeAt s.mapped a = none

/-- What `ReserveGuestRegions` leaves: free ranges that do not overlap. -/
structure Reservation where
  /-- The free map. -/
  free : FreeMap
  /-- The ranges are not empty and do not overlap. -/
  tidy : freeExtent.Tidy free.entries

/-- A reservation of one range. -/
def Reservation.single (start size : ℕ) (hsize : 0 < size) : Reservation :=
  ⟨OrderedMap.empty.emplace start size, tidy_cons.mpr
    ⟨Nat.lt_add_of_pos_right hsize, Tidy.nil, fun _ hj => absurd hj List.not_mem_nil⟩⟩

/-- The address space after its construction, with the outcomes of the calls of
the host to come. -/
def initial (reservation : Reservation) (outcomes : List Bool) : State :=
  ⟨fun _ => ⟨none, Prot.none⟩, outcomes, OrderedMap.empty, OrderedMap.empty, reservation.free⟩

theorem sound_initial (reservation : Reservation) (outcomes : List Bool) :
    Sound (initial reservation outcomes) where
  backed := ⟨⟨Tidy.nil, fun _ hit => absurd hit List.not_mem_nil,
    fun _ hit => absurd hit List.not_mem_nil⟩, fun _ => rfl⟩
  regions := ⟨Tidy.nil, fun _ hit => absurd hit List.not_mem_nil,
    fun _ hit => absurd hit List.not_mem_nil⟩
  free := reservation.tidy
  backing := fun _ hne => absurd rfl hne
  unused := fun _ _ => rfl

/-! ### Steps -/

section Steps

variable {backingSize : ℕ} {s s' : State} (h : Sound s) {vaddr size : ℕ} {mode : Mode} {ok : Bool}
include h

/-- A free address is not mapped from the backing file. -/
theorem Sound.unmapped {a : ℕ} (ha : freeExtent.Covered s.free.entries a) :
    offsetAt s.maps a = none := by
  by_contra hne
  have htype := h.backing a hne
  rw [h.unused a ha] at htype
  cases htype

omit h in
/-- A call of the host that changes protections only. -/
theorem call_prot (prot : ℕ → HostByte → HostByte)
    (hprot : ∀ a byte, (prot a byte).file = byte.file) (first last : ℕ) :
    ∃ outcomes host, (s.call (fill s.host first last prot)).1 = { s with outcomes, host } ∧
      ∀ a, (host a).file = (s.host a).file := by
  obtain ⟨outcomes, hcall | hcall⟩ := call_cases s (fill s.host first last prot)
  · exact ⟨outcomes, s.host, by rw [hcall], fun _ => rfl⟩
  · refine ⟨outcomes, _, by rw [hcall], fun a => ?_⟩
    by_cases ha : first ≤ a ∧ a < last
    · rw [fill_of_mem ha]
      exact hprot a _
    · rw [fill_of_not_mem ha]

/-- Changes of protections do not matter to the books. -/
theorem Sound.host {host : ℕ → HostByte} (outcomes : List Bool)
    (hfile : ∀ a, (host a).file = (s.host a).file) : Sound { s with outcomes, host } where
  backed := ⟨h.backed.disjoint, fun a => (hfile a).trans (h.backed.file a)⟩
  regions := h.regions
  free := h.free
  backing := h.backing
  unused := h.unused

theorem Sound.hostProtect (vaddr size : ℕ) (mode : Mode) :
    Sound (GuestAddressSpace.hostProtect s vaddr size mode).1 := by
  obtain ⟨outcomes, host, hcall, hfile⟩ := call_prot (s := s)
    (fun _ byte => { byte with prot := getProtect mode }) (fun _ _ => rfl)
    (vaddr / 0x1000 * 0x1000) (((vaddr + size - 1) / 0x1000 + 1) * 0x1000)
  rw [GuestAddressSpace.hostProtect, hcall]
  exact h.host outcomes hfile

omit h in
theorem protectRegions_sound (vaddr last : ℕ) (mode : Mode) :
    ∀ {list : List (ℕ × MappedRegion)} {s : State}, Sound s →
      Sound (protectRegions vaddr last mode list s).1
  | [], _, h => h
  | it :: list, s, h => by
    unfold protectRegions
    split
    · dsimp only
      split
      · have hprotected := h.hostProtect (max vaddr it.2.vaddr)
          (min last (it.2.vaddr + it.2.size) - max vaddr it.2.vaddr) mode
        split
        · rename_i heq
          rwa [heq] at hprotected
        · rename_i heq
          rw [heq] at hprotected
          exact protectRegions_sound vaddr last mode hprotected
      · exact protectRegions_sound vaddr last mode h
    · exact h

/-- **`Protect`** and **`ProtectTransient`** keep the invariant. -/
theorem Sound.protect (vaddr size : ℕ) (mode : Mode) :
    Sound (GuestAddressSpace.protect s vaddr size mode).1 := by
  unfold GuestAddressSpace.protect
  split
  · exact h
  · exact protectRegions_sound vaddr (vaddr + size) mode h

/-- A range that was taken out of the free map is put back. -/
theorem Sound.putBack {free : FreeMap} (hsize : 0 < size) (hfree : freeExtent.Tidy free.entries)
    (hcovered : ∀ a, freeExtent.Covered free.entries a ↔
      freeExtent.Covered s.free.entries a ∧ ¬ (vaddr ≤ a ∧ a < vaddr + size))
    (hin : ∀ a, vaddr ≤ a → a < vaddr + size → freeExtent.Covered s.free.entries a) :
    Sound { s with free := addFreeUnlocked free vaddr size } := by
  obtain ⟨htidy, hadded⟩ := addFreeUnlocked_spec hfree vaddr hsize fun a hlo hhi ha =>
    ((hcovered a).mp ha).2 ⟨hlo, hhi⟩
  refine ⟨⟨h.backed.disjoint, h.backed.file⟩, h.regions, htidy, h.backing, fun a ha => ?_⟩
  obtain ha | ⟨-, hlo, hhi⟩ := (hadded a).mp ha
  · exact h.unused a ((hcovered a).mp ha).1
  · exact h.unused a (hin a hlo hhi)

/-- A range that was taken out of the free map has become a region. -/
theorem Sound.addRegion {s₁ : State} {type : MappingType} {mapped : MappedRegions} {free : FreeMap}
    (hcovered : ∀ a, freeExtent.Covered free.entries a ↔
      freeExtent.Covered s.free.entries a ∧ ¬ (vaddr ≤ a ∧ a < vaddr + size))
    (hfree : freeExtent.Tidy free.entries) (hkept : s₁.mapped = s.mapped ∧ s₁.free = free)
    (hbacked : Backed s₁)
    (hoffset : ∀ a, offsetAt s₁.maps a ≠ none → offsetAt s.maps a ≠ none ∨
      (type = .backing ∧ vaddr ≤ a ∧ a < vaddr + size))
    (hin : ∀ a, vaddr ≤ a → a < vaddr + size → freeExtent.Covered s.free.entries a)
    (hr : addMappedUnlocked s₁.mapped vaddr size type = some mapped) :
    Sound { s₁ with mapped } := by
  rw [hkept.1] at hr
  have htypes := typeAt_addMapped h.regions hr
  refine ⟨⟨hbacked.disjoint, hbacked.file⟩, (addMapped_spec h.regions hr).1, ?_, fun a ha => ?_,
    fun a ha => ?_⟩
  · show freeExtent.Tidy s₁.free.entries
    rw [hkept.2]
    exact hfree
  · show typeAt mapped a = _
    rw [htypes]
    obtain hold | ⟨rfl, hrange⟩ := hoffset a ha
    · by_cases hrange : vaddr ≤ a ∧ a < vaddr + size
      · exact absurd (h.unmapped (hin a hrange.1 hrange.2)) hold
      · rw [fill_of_not_mem hrange]
        exact h.backing a hold
    · exact fill_of_mem hrange
  · have ha : freeExtent.Covered s₁.free.entries a := ha
    rw [hkept.2, hcovered a] at ha
    show typeAt mapped a = _
    rw [htypes, fill_of_not_mem ha.2]
    exact h.unused a ha.1

/-- **`MapBacking`** keeps the invariant. -/
theorem Sound.mapBacking (hsize : 0 < size) (hbound : vaddr + size ≤ uint64Max)
    {backingOffset : ℕ}
    (hr : mapBacking backingSize s vaddr size backingOffset mode = some (s', ok)) : Sound s' := by
  unfold GuestAddressSpace.mapBacking at hr
  cases hconsume : consumeUnlocked s.free vaddr size with
  | mk free consumed =>
    obtain ⟨hfail, htaken⟩ := consumeUnlocked_spec h.free hsize hconsume
    rw [hconsume] at hr
    cases consumed with
    | false =>
      cases hr
      rw [hfail rfl]
      exact h
    | true =>
      obtain ⟨hfree, hin, hcovered⟩ := htaken rfl
      obtain ⟨⟨s₁, mapped⟩, hmap, hr⟩ := Option.bind_eq_some_iff.mp hr
      obtain ⟨hb, hk, hsame, hmapped⟩ := mapExisting_spec (s := { s with free })
        ⟨h.backed.disjoint, h.backed.file⟩ hbound
        (fun a hlo hhi => offsetAt_eq_none.mp (h.unmapped (hin a hlo hhi))) hmap
      dsimp only at hr
      split at hr
      · rename_i hok
        obtain ⟨regions, hadd, heq⟩ := Option.map_eq_some_iff.mp hr
        cases heq
        refine h.addRegion hcovered hfree ⟨hk.1, hk.2⟩ hb (fun a ha => ?_) hin hadd
        by_cases hrange : vaddr ≤ a ∧ a < vaddr + size
        · exact Or.inr ⟨rfl, hrange⟩
        · refine Or.inl fun hnone => ha ?_
          rw [offsetAt_eq_none] at hnone ⊢
          rw [(hmapped hok).entries, fill_of_not_mem hrange]
          exact hnone
      · rename_i hok
        cases hr
        obtain ⟨hmaps, hhost⟩ := hsame (by simpa using hok)
        have hback := h.putBack hsize hfree hcovered hin
        refine ⟨⟨hb.disjoint, hb.file⟩, ?_, ?_, fun a ha => ?_, fun a ha => ?_⟩
        · show DisjointRegions s₁.mapped
          rw [hk.1]
          exact h.regions
        · show freeExtent.Tidy (addFreeUnlocked s₁.free vaddr size).entries
          rw [hk.2]
          exact hback.free
        · show typeAt s₁.mapped a = _
          rw [hk.1]
          exact h.backing a (hmaps ▸ ha)
        · show typeAt s₁.mapped a = _
          have ha : freeExtent.Covered (addFreeUnlocked s₁.free vaddr size).entries a := ha
          rw [hk.2] at ha
          rw [hk.1]
          exact hback.unused a ha

/-- **`Commit`** keeps the invariant. -/
theorem Sound.commit (hsize : 0 < size) (hr : commit s vaddr size mode = some (s', ok)) :
    Sound s' := by
  unfold GuestAddressSpace.commit at hr
  cases hconsume : consumeUnlocked s.free vaddr size with
  | mk free consumed =>
    obtain ⟨hfail, htaken⟩ := consumeUnlocked_spec h.free hsize hconsume
    rw [hconsume] at hr
    cases consumed with
    | false =>
      cases hr
      rw [hfail rfl]
      exact h
    | true =>
      obtain ⟨hfree, hin, hcovered⟩ := htaken rfl
      obtain ⟨outcomes, host, hcall, hfile⟩ := call_prot (s := { s with free })
        (fun _ byte => { byte with prot := getProtect (hostMode mode) }) (fun _ _ => rfl)
        (vaddr / 0x1000 * 0x1000) (((vaddr + size - 1) / 0x1000 + 1) * 0x1000)
      dsimp only at hr
      cases hprotect : GuestAddressSpace.hostProtect { s with free } vaddr size (hostMode mode) with
      | mk s₁ protected' =>
        rw [hprotect] at hr
        have hs₁ : s₁ = { s with free, outcomes, host } := by
          rw [← hcall]
          exact (congrArg Prod.fst hprotect).symm
        have hb : Backed s₁ := by
          rw [hs₁]
          exact ⟨h.backed.disjoint, fun a => (hfile a).trans (h.backed.file a)⟩
        cases protected' with
        | true =>
          obtain ⟨regions, hadd, heq⟩ := Option.map_eq_some_iff.mp hr
          cases heq
          refine h.addRegion hcovered hfree (by rw [hs₁]; exact ⟨rfl, rfl⟩) hb
            (fun a ha => Or.inl ?_) hin hadd
          rwa [hs₁] at ha
        | false =>
          cases hr
          rw [hs₁]
          exact (h.putBack hsize hfree hcovered hin).host outcomes hfile

/-- **`UnmapBacking`**: what lies outside of the range keeps its region and its
place in the backing file. -/
theorem Sound.unmapBacking (hr : unmapBacking backingSize s vaddr size = some (s', ok)) :
    Sound s' ∧ (ok = true → UnmappedRange s s' vaddr (vaddr + size) ∧
      typeAt s'.mapped = fill (typeAt s.mapped) vaddr (vaddr + size) fun _ _ => none) := by
  unfold GuestAddressSpace.unmapBacking at hr
  split at hr
  · rename_i hcontains
    have hsize : 0 < size := by
      unfold containsMappedUnlocked at hcontains
      rw [Bool.and_eq_true, decide_eq_true_eq] at hcontains
      omega
    have hin := ((containsMapped_iff h.regions hsize).mp hcontains).2
    obtain ⟨⟨s₁, done⟩, hunmap, hr⟩ := Option.bind_eq_some_iff.mp hr
    obtain ⟨hb, ⟨hregions, hfree⟩, hfail, hdone⟩ := unmap_spec h.backed hunmap
    dsimp only at hr
    split at hr
    · rename_i hok
      obtain ⟨mapped, hremove, heq⟩ := Option.map_eq_some_iff.mp hr
      cases heq
      have U := hdone hok
      rw [hregions] at hremove
      obtain ⟨hdisjoint, htypes⟩ := removeMapped_spec h.regions hremove
      obtain ⟨htidy, hadded⟩ := addFreeUnlocked_spec h.free vaddr hsize
        fun a hlo hhi ha => by
          have := h.unused a ha
          rw [hin a hlo hhi] at this
          cases this
      refine ⟨⟨⟨hb.disjoint, hb.file⟩, hdisjoint, ?_, fun a ha => ?_, fun a ha => ?_⟩,
        fun _ => ⟨⟨U.inside, U.offset, U.near, U.far⟩, htypes⟩⟩
      · show freeExtent.Tidy (addFreeUnlocked s₁.free vaddr size).entries
        rw [hfree]
        exact htidy
      · show typeAt mapped a = _
        by_cases hrange : vaddr ≤ a ∧ a < vaddr + size
        · exact absurd (U.inside a hrange.1 hrange.2) ha
        · rw [htypes, fill_of_not_mem hrange]
          refine h.backing a ?_
          rw [← U.offset a hrange]
          exact ha
      · show typeAt mapped a = _
        have ha : freeExtent.Covered (addFreeUnlocked s₁.free vaddr size).entries a := ha
        rw [hfree, hadded a] at ha
        rw [htypes]
        by_cases hrange : vaddr ≤ a ∧ a < vaddr + size
        · exact fill_of_mem hrange
        · rw [fill_of_not_mem hrange]
          obtain ha | ⟨-, ha⟩ := ha
          · exact h.unused a ha
          · exact absurd ha hrange
    · rename_i hok
      cases hr
      have hoffset := hfail (by simpa using hok)
      refine ⟨⟨hb, ?_, ?_, fun a ha => ?_, fun a ha => ?_⟩, fun hok => absurd hok (by decide)⟩
      · rw [hregions]
        exact h.regions
      · rw [hfree]
        exact h.free
      · rw [hregions]
        exact h.backing a (hoffset ▸ ha)
      · rw [hregions]
        rw [hfree] at ha
        exact h.unused a ha
  · cases hr
    exact ⟨h, fun hok => absurd hok (by decide)⟩

omit h in
/-- `RestorePlaceholder` clears addresses of the range only. -/
theorem restorePlaceholders_spec (first last : ℕ) : ∀ {regions : List (ℕ × ℕ)} {s : State},
    (∀ region ∈ regions, first ≤ region.1 ∧ region.1 + region.2 ≤ last) →
    restorePlaceholders regions s = some s' → ∃ outcomes host, s' = { s with outcomes, host } ∧
      ∀ a, host a = s.host a ∨ (first ≤ a ∧ a < last ∧ (host a).file = none)
  | [], s, _, hr => by
    cases hr
    exact ⟨_, _, rfl, fun _ => Or.inl rfl⟩
  | (vaddr, size) :: regions, s, hin, hr => by
    unfold restorePlaceholders unmapViewPreservePlaceholder at hr
    obtain ⟨outcomes, hcall | hcall⟩ := call_cases s
      (fill s.host vaddr (vaddr + size) fun _ _ => ⟨none, Prot.none⟩)
    · rw [hcall] at hr
      cases hr
    · rw [hcall] at hr
      obtain ⟨outcomes', host, rfl, hhost⟩ := restorePlaceholders_spec first last
        (fun region hregion => hin region (List.mem_cons_of_mem _ hregion)) hr
      refine ⟨outcomes', host, rfl, fun a => ?_⟩
      obtain hsame | hcleared := hhost a
      · rw [hsame]
        by_cases ha : vaddr ≤ a ∧ a < vaddr + size
        · have hrange := hin (vaddr, size) List.mem_cons_self
          dsimp only at hrange ⊢
          rw [fill_of_mem ha]
          exact Or.inr ⟨by omega, by omega, rfl⟩
        · exact Or.inl (if_neg ha)
      · exact Or.inr hcleared

/-- **`ReleaseCommitted`** keeps the invariant. -/
theorem Sound.releaseCommitted (hr : releaseCommitted s vaddr size = some (s', ok)) :
    Sound s' := by
  unfold GuestAddressSpace.releaseCommitted at hr
  split at hr
  · cases hr
    exact h
  · rename_i hguard
    have hsize : 0 < size := by omega
    split at hr
    · rename_i hcontains
      have hin := ((containsMapped_iff h.regions hsize).mp hcontains).2
      obtain ⟨regions, hwalk, hr⟩ := Option.bind_eq_some_iff.mp hr
      obtain ⟨s₁, hrestore, hr⟩ := Option.bind_eq_some_iff.mp hr
      obtain ⟨mapped, hremove, hr⟩ := Option.bind_eq_some_iff.mp hr
      obtain ⟨outcomes, host, rfl, hhost⟩ := restorePlaceholders_spec vaddr
        (vaddr + size) (fun region hregion => by
          obtain ⟨part, hpart, rfl⟩ := List.mem_map.mp hregion
          have := walk_mem hwalk part hpart
          dsimp only
          omega) hrestore
      cases hr
      have hremove : removeMappedUnlocked s.mapped vaddr size .priv = some mapped := hremove
      obtain ⟨hdisjoint, htypes⟩ := removeMapped_spec h.regions hremove
      obtain ⟨htidy, hadded⟩ := addFreeUnlocked_spec h.free vaddr hsize
        fun a hlo hhi ha => by
          have := h.unused a ha
          rw [hin a hlo hhi] at this
          cases this
      -- nothing in the range is mapped from the backing file
      have hnone : ∀ a, vaddr ≤ a → a < vaddr + size → offsetAt s.maps a = none := by
        intro a hlo hhi
        by_contra hne
        have := h.backing a hne
        rw [hin a hlo hhi] at this
        cases this
      refine ⟨⟨h.backed.disjoint, fun a => ?_⟩, hdisjoint, htidy, fun a ha => ?_, fun a ha => ?_⟩
      · show (host a).file = offsetAt s.maps a
        obtain hsame | ⟨hlo, hhi, hcleared⟩ := hhost a
        · rw [hsame]
          exact h.backed.file a
        · rw [hcleared, hnone a hlo hhi]
      · show typeAt mapped a = _
        have ha : offsetAt s.maps a ≠ none := ha
        rw [htypes, fill_of_not_mem fun hrange => ha (hnone a hrange.1 hrange.2)]
        exact h.backing a ha
      · show typeAt mapped a = _
        rw [htypes]
        by_cases hrange : vaddr ≤ a ∧ a < vaddr + size
        · exact fill_of_mem hrange
        · rw [fill_of_not_mem hrange]
          obtain ha | ⟨-, ha⟩ := (hadded a).mp ha
          · exact h.unused a ha
          · exact absurd ha hrange
    · cases hr
      exact h

end Steps

/-! ### Runs -/

/-- What the callers see to: a range to map is not empty and ends in the address
space. -/
def Call.Valid : Call → Prop
  | .mapBacking vaddr size _ _ => 0 < size ∧ vaddr + size ≤ uint64Max
  | .commit vaddr size _ => 0 < size ∧ vaddr + size ≤ uint64Max
  | .unmapBacking _ _ | .protect _ _ _ | .protectTransient _ _ _ | .releaseCommitted _ _ => True

/-- Every call keeps the invariant. -/
theorem Call.apply_sound {backingSize : ℕ} {s s' : State} (h : Sound s) :
    ∀ {call : Call}, call.Valid → call.apply backingSize s = some s' → Sound s'
  | .mapBacking _ _ _ _, hvalid, hr => by
    obtain ⟨r, happly, rfl⟩ := Option.map_eq_some_iff.mp hr
    exact h.mapBacking hvalid.1 hvalid.2 happly
  | .unmapBacking _ _, _, hr => by
    obtain ⟨r, happly, rfl⟩ := Option.map_eq_some_iff.mp hr
    exact (h.unmapBacking happly).1
  | .protect vaddr size mode, _, hr => Option.some.inj hr ▸ h.protect vaddr size mode
  | .protectTransient vaddr size mode, _, hr => Option.some.inj hr ▸ h.protect vaddr size mode
  | .commit _ _ _, hvalid, hr => by
    obtain ⟨r, happly, rfl⟩ := Option.map_eq_some_iff.mp hr
    exact h.commit hvalid.1 happly
  | .releaseCommitted _ _, _, hr => by
    obtain ⟨r, happly, rfl⟩ := Option.map_eq_some_iff.mp hr
    exact h.releaseCommitted happly

/-- Every reachable state has the invariant. -/
theorem sound_run {backingSize : ℕ} : ∀ {calls : List Call} {s s' : State}, Sound s →
    (∀ call ∈ calls, call.Valid) → run backingSize s calls = some s' → Sound s'
  | [], _, _, h, _, hr => Option.some.inj hr ▸ h
  | call :: calls, s, s', h, hvalid, hr => by
    obtain ⟨s₁, hcall, hrest⟩ := Option.bind_eq_some_iff.mp hr
    exact sound_run (call.apply_sound h (hvalid call List.mem_cons_self) hcall)
      (fun c hc => hvalid c (List.mem_cons_of_mem call hc)) hrest

/-! ### The neighbours -/

/-- What an entry that reaches into the range has outside of it is protected as
the entry records. -/
def AsRecorded (s : State) (vaddr size : ℕ) : Prop :=
  ∀ a it, ¬ (vaddr ≤ a ∧ a < vaddr + size) → Near s.maps vaddr (vaddr + size) a it →
    (s.host a).prot = getProtect it.2.mode

/-- **What a partial unmap does to its neighbours**, after any calls with any
outcomes of the calls of the host. Every address outside of the range keeps its
place in the backing file and its region; all of them keep their protection as
well exactly if the neighbours are protected as their entries record. -/
theorem unmapBacking_keeps_iff (backingSize : ℕ) (reservation : Reservation)
    (outcomes : List Bool) (calls : List Call) (hvalid : ∀ call ∈ calls, call.Valid) (s : State)
    (hrun : run backingSize (initial reservation outcomes) calls = some s) (vaddr size : ℕ)
    (s' : State) (hunmap : unmapBacking backingSize s vaddr size = some (s', true)) :
    (∀ a, ¬ (vaddr ≤ a ∧ a < vaddr + size) → offsetAt s'.maps a = offsetAt s.maps a ∧
      typeAt s'.mapped a = typeAt s.mapped a ∧ (s'.host a).file = (s.host a).file) ∧
    ((∀ a, ¬ (vaddr ≤ a ∧ a < vaddr + size) → offsetAt s'.maps a = offsetAt s.maps a ∧
        typeAt s'.mapped a = typeAt s.mapped a ∧ s'.host a = s.host a) ↔
      AsRecorded s vaddr size) := by
  have h := sound_run (sound_initial reservation outcomes) hvalid hrun
  obtain ⟨h', hdone⟩ := h.unmapBacking hunmap
  obtain ⟨U, htypes⟩ := hdone rfl
  have hkeeps : ∀ a, ¬ (vaddr ≤ a ∧ a < vaddr + size) → offsetAt s'.maps a = offsetAt s.maps a ∧
      typeAt s'.mapped a = typeAt s.mapped a ∧ (s'.host a).file = (s.host a).file := by
    intro a ha
    refine ⟨U.offset a ha, by rw [htypes, fill_of_not_mem ha], ?_⟩
    rw [h'.backed.file, h.backed.file, U.offset a ha]
  refine ⟨hkeeps, fun hall a it ha hnear => ?_, fun hrecorded a ha => ?_⟩
  · -- the piece was mapped anew in the mode of its entry
    rw [← (hall a ha).2.2, U.near a it ha hnear]
  · obtain ⟨hoffset, htype, hfile⟩ := hkeeps a ha
    refine ⟨hoffset, htype, ?_⟩
    by_cases hnear : ∃ it, Near s.maps vaddr (vaddr + size) a it
    · obtain ⟨it, hnear⟩ := hnear
      have hprot := hrecorded a it ha hnear
      have hhost := U.near a it ha hnear
      rw [hhost] at hfile ⊢
      dsimp only at hfile
      rw [hfile, ← hprot]
    · exact U.far a ha fun it hit => hnear ⟨it, hit⟩

/-- Two pages are mapped, and then made read only. -/
def readOnlyPages : List Call :=
  [.mapBacking 0x200000000 0x8000 0 .readWrite, .protect 0x200000000 0x8000 .read]

/-- Unmapping the second of the pages: the result, and the protection of the first
page before and after. -/
theorem readOnlyPages_eval :
    ((run 0x100000 (initial (Reservation.single 0x200000000 0x100000 (by decide)) [])
        readOnlyPages).bind fun s =>
      (unmapBacking 0x100000 s 0x200004000 0x4000).map fun r =>
        (r.2, (s.host 0x200000000).prot, (r.1.host 0x200000000).prot))
      = some (true, getProtect .read, getProtect .readWrite) := by
  decide +kernel

theorem readOnlyPages_valid : ∀ call ∈ readOnlyPages, call.Valid := by
  intro call hcall
  obtain rfl | rfl : call = .mapBacking 0x200000000 0x8000 0 .readWrite ∨
      call = .protect 0x200000000 0x8000 .read := by
    simpa [readOnlyPages] using hcall
  · exact ⟨by decide, by decide⟩
  · exact trivial

/-- The unmap succeeds, and the page next to it, which was read only, can be
written. -/
theorem unmapBacking_reverts : ∃ s s',
    run 0x100000 (initial (Reservation.single 0x200000000 0x100000 (by decide)) [])
      readOnlyPages = some s ∧
    unmapBacking 0x100000 s 0x200004000 0x4000 = some (s', true) ∧
    (s.host 0x200000000).prot = getProtect .read ∧
    (s'.host 0x200000000).prot = getProtect .readWrite := by
  obtain ⟨s, hrun, hs⟩ := Option.bind_eq_some_iff.mp readOnlyPages_eval
  obtain ⟨⟨s', ok⟩, hunmap, heq⟩ := Option.map_eq_some_iff.mp hs
  obtain ⟨rfl, hprot⟩ := Prod.mk.inj heq
  exact ⟨s, s', hrun, hunmap, (Prod.mk.inj hprot).1, (Prod.mk.inj hprot).2⟩

/-- There the neighbours are not protected as their entry records. -/
theorem unmapBacking_keeps_iff_reverted : ∃ s,
    run 0x100000 (initial (Reservation.single 0x200000000 0x100000 (by decide)) [])
      readOnlyPages = some s ∧ ¬ AsRecorded s 0x200004000 0x4000 := by
  obtain ⟨s, hrun, hs⟩ := Option.bind_eq_some_iff.mp readOnlyPages_eval
  obtain ⟨⟨s', ok⟩, hunmap, heq⟩ := Option.map_eq_some_iff.mp hs
  obtain ⟨rfl, hprot⟩ := Prod.mk.inj heq
  obtain ⟨hbefore, hafter⟩ := Prod.mk.inj hprot
  refine ⟨s, hrun, fun hrecorded => ?_⟩
  have hkeeps := ((unmapBacking_keeps_iff 0x100000 _ [] readOnlyPages readOnlyPages_valid s hrun
    0x200004000 0x4000 s' hunmap).2.mpr hrecorded 0x200000000 (by decide)).2.2
  dsimp only at hbefore hafter
  rw [hkeeps, hbefore] at hafter
  exact absurd hafter (by decide)

end Prosperismo.GuestAddressSpace
