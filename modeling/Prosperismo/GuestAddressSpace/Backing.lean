import Mathlib.Algebra.Order.Ring.Nat
import Prosperismo.Base.IntervalMap
import Prosperismo.GuestAddressSpace.Model

/-!
# Mapping and unmapping the backing

`Backed` ties the entries of the backing store to the host: the entries are
disjoint, and at every address the host has that position of the backing file
which the entry there records. The protection of the host is not tied to the
mode an entry records, as `Protect` changes the one and not the other.

* `mapExisting_spec`: a new entry, where there is none.
* `rebuild_spec` and `unmapOne_spec`: an entry is replaced by what is left of it
  on both sides of a range (`Cut`), or everything is as it was but for the
  protection of the entry.
* `unmap_spec`: the same for a range over several entries. The rollback puts
  back what was unmapped, part by part.
-/

namespace Prosperismo.GuestAddressSpace

open Extent
open OrderedMap (entryAt extent extent_covers)
open PhysicalMemory (Mode)
open VirtualRanges (uint64Max)

/-! ### Walking over a range -/

/-- A walk reaches its end exactly if every address on the way has the property
that its search looks for. -/
theorem walk_isSome_iff {ι : Type} (find : ℕ → Option ι) (stop : ι → ℕ) (P : ℕ → Prop)
    (hnone : ∀ a, find a = none → ¬ P a)
    (hsome : ∀ a i, find a = some i → a < stop i ∧ ∀ b, a ≤ b → b < stop i → P b)
    (last current : ℕ) :
    (walk find stop last current).isSome ↔ ∀ a, current ≤ a → a < last → P a := by
  induction current using walk.induct stop last with
  | case1 current hlt ih =>
    rw [walk, if_pos hlt]
    cases hfind : find current with
    | none =>
      refine ⟨fun h => ?_, fun h => absurd (h current le_rfl hlt) (hnone current hfind)⟩
      cases h
    | some i =>
      obtain ⟨hstop, hall⟩ := hsome current i hfind
      rw [Option.bind_some, if_pos hstop, Option.isSome_map, ih i hstop]
      constructor
      · intro h a hle ha
        by_cases hin : a < stop i
        · exact hall a hle hin
        · exact h a (by omega) ha
      · exact fun h a hle ha => h a (by omega) ha
  | case2 current hlt =>
    rw [walk, if_neg hlt]
    exact ⟨fun _ a hle ha => by omega, fun _ => rfl⟩

/-- The records of a walk are found inside of the range. -/
theorem walk_mem {ι : Type} {find : ℕ → Option ι} {stop : ι → ℕ} {last current : ℕ}
    {parts : List (ι × ℕ)} (hwalk : walk find stop last current = some parts) :
    ∀ part ∈ parts, current ≤ part.2 ∧ part.2 < last := by
  induction current using walk.induct stop last generalizing parts with
  | case1 current hlt ih =>
    rw [walk, if_pos hlt] at hwalk
    obtain ⟨i, -, hi⟩ := Option.bind_eq_some_iff.mp hwalk
    split at hi
    · rename_i hstop
      obtain ⟨rest, hrest, rfl⟩ := Option.map_eq_some_iff.mp hi
      intro part hpart
      obtain rfl | hpart := List.mem_cons.mp hpart
      · exact ⟨le_rfl, hlt⟩
      · obtain ⟨hle, hlast⟩ := ih i hstop hrest part hpart
        exact ⟨by omega, hlast⟩
    · cases hi
  | case2 current hlt =>
    rw [walk, if_neg hlt] at hwalk
    cases hwalk
    exact fun part hpart => absurd hpart List.not_mem_nil

/-! ### Entries -/

/-- The position of the backing file that the entry records for an address. -/
def MapEntry.offset (entry : MapEntry) (a : ℕ) : ℕ := entry.backingOffset + (a - entry.vaddr)

/-- The position of the backing file that is recorded for an address. -/
def offsetAt (maps : MapEntries) (a : ℕ) : Option ℕ :=
  (entryAt MapEntry.size maps a).map fun it => it.2.offset a

/-- The entries are disjoint intervals, each from its own address on. -/
abbrev Disjoint (maps : MapEntries) : Prop :=
  OrderedMap.Recorded MapEntry.vaddr MapEntry.size uint64Max maps

/-- `Contains`: every address of the range is in an entry. -/
theorem contains_iff {maps : MapEntries} (h : Disjoint maps) {vaddr size : ℕ} (hsize : 0 < size) :
    contains maps vaddr size ↔
      ∀ a, vaddr ≤ a → a < vaddr + size → (extent MapEntry.size).Covered maps.entries a := by
  have hwalk := walk_isSome_iff (findContainingUnlocked maps)
    (fun entry => entry.vaddr + entry.size) (fun a => (extent MapEntry.size).Covered maps.entries a)
    (fun a hnone => OrderedMap.entryAt_eq_none.mp (h.find_none hnone))
    (fun a entry hsome => by
      obtain ⟨hit, hle, hlt⟩ := h.entryAt_iff.mp (h.find_iff.mp hsome)
      exact ⟨hlt, fun b hb hlast => ⟨_, hit, hle.trans hb, hlast⟩⟩) (vaddr + size) vaddr
  rw [contains, Bool.and_eq_true, decide_eq_true_eq, hwalk]
  constructor
  · exact fun hall => hall.2
  · intro hall
    refine ⟨⟨by omega, ?_⟩, hall⟩
    -- the last address of the range is in an entry, and the entry ends in the address space
    obtain ⟨it, hit, hle, hlt⟩ := hall (vaddr + size - 1) (by omega) (by omega)
    have hend : it.1 + it.2.size ≤ uint64Max := h.bounded it hit
    have hlast : vaddr + size - 1 < it.1 + it.2.size := hlt
    omega

/-! ### Single entries -/

/-- The entries are disjoint, and the host has what they record. -/
structure Backed (s : State) : Prop where
  disjoint : Disjoint s.maps
  file : ∀ a, (s.host a).file = offsetAt s.maps a

/-- The regions and the free ranges are as before. -/
def Kept (s s' : State) : Prop := s'.mapped = s.mapped ∧ s'.free = s.free

theorem Kept.refl (s : State) : Kept s s := ⟨rfl, rfl⟩

theorem Kept.trans {s s' s'' : State} (h : Kept s s') (h' : Kept s' s'') : Kept s s'' :=
  ⟨h'.1.trans h.1, h'.2.trans h.2⟩

/-- A call of the host fails and does nothing, or it succeeds. -/
theorem call_cases (s : State) (host : ℕ → HostByte) :
    ∃ outcomes, s.call host = ({ s with outcomes }, false) ∨
      s.call host = ({ s with outcomes, host }, true) := by
  refine ⟨s.outcomes.tail, ?_⟩
  unfold State.call
  cases s.outcomes.headD true with
  | false => exact Or.inl rfl
  | true => exact Or.inr rfl

/-- A range has become one entry, with the contents of the backing file. -/
structure Mapped (s s' : State) (vaddr size backingOffset : ℕ) (mode : Mode) : Prop where
  entries : entryAt MapEntry.size s'.maps = fill (entryAt MapEntry.size s.maps) vaddr (vaddr + size)
    fun _ _ => some (vaddr, ⟨vaddr, size, backingOffset, mode⟩)
  host : s'.host = fill s.host vaddr (vaddr + size) fun a _ =>
    ⟨some (backingOffset + (a - vaddr)), getProtect mode⟩

/-- A range is in no entry any more, and the host has nothing there. -/
structure Cleared (s s' : State) (vaddr size : ℕ) : Prop where
  entries : entryAt MapEntry.size s'.maps
    = fill (entryAt MapEntry.size s.maps) vaddr (vaddr + size) fun _ _ => none
  host : s'.host = fill s.host vaddr (vaddr + size) fun _ _ => ⟨none, Prot.none⟩

section Single

variable {backingSize : ℕ} {s s' : State} {vaddr size backingOffset : ℕ} {mode : Mode} {ok : Bool}

/-- **`MapExistingPlaceholderFixed`** where there is no entry. -/
theorem mapExisting_spec (h : Backed s) (hbound : vaddr + size ≤ uint64Max)
    (hfree : ∀ a, vaddr ≤ a → a < vaddr + size → entryAt MapEntry.size s.maps a = none)
    (hr : mapExistingPlaceholderFixed backingSize s vaddr size backingOffset mode = some (s', ok)) :
    Backed s' ∧ Kept s s' ∧ (ok = false → s'.maps = s.maps ∧ s'.host = s.host) ∧
      (ok = true → Mapped s s' vaddr size backingOffset mode) := by
  unfold mapExistingPlaceholderFixed at hr
  split at hr
  · rename_i hrange
    have hsize : 0 < size := by
      have := of_decide_eq_true hrange
      omega
    obtain ⟨outcomes, hcall | hcall⟩ := call_cases s (fill s.host vaddr (vaddr + size) fun a _ =>
      ⟨some (backingOffset + (a - vaddr)), getProtect mode⟩)
    · rw [mapView, hcall] at hr
      cases hr
      exact ⟨⟨h.disjoint, h.file⟩, Kept.refl s, fun _ => ⟨rfl, rfl⟩,
        fun hok => absurd hok (by decide)⟩
    · rw [mapView, hcall] at hr
      dsimp only at hr
      split at hr
      · cases hr
      · cases hr
        obtain ⟨hdisjoint, hentries⟩ := h.disjoint.emplace
          (v := ⟨vaddr, size, backingOffset, mode⟩) hsize hbound hfree
        refine ⟨⟨hdisjoint, fun a => ?_⟩, Kept.refl s, fun hok => absurd hok (by decide), fun _ =>
          ⟨hentries, rfl⟩⟩
        show (fill s.host _ _ _ a).file = (entryAt MapEntry.size _ a).map _
        rw [hentries]
        by_cases ha : vaddr ≤ a ∧ a < vaddr + size
        · rw [fill_of_mem ha, fill_of_mem ha]
          rfl
        · rw [fill_of_not_mem ha, fill_of_not_mem ha]
          exact h.file a
  · cases hr
    exact ⟨h, Kept.refl s, fun _ => ⟨rfl, rfl⟩, fun hok => absurd hok (by decide)⟩

/-- The same for a piece that may be empty. -/
theorem mapPiece_spec (h : Backed s) (hbound : vaddr + size ≤ uint64Max)
    (hfree : ∀ a, vaddr ≤ a → a < vaddr + size → entryAt MapEntry.size s.maps a = none)
    (hr : mapPiece backingSize s vaddr size backingOffset mode = some (s', ok)) :
    Backed s' ∧ Kept s s' ∧ (ok = false → s'.maps = s.maps ∧ s'.host = s.host) ∧
      (ok = true → Mapped s s' vaddr size backingOffset mode) := by
  unfold mapPiece at hr
  split at hr
  · exact mapExisting_spec h hbound hfree hr
  · rename_i hzero
    cases hr
    exact ⟨h, Kept.refl s, fun hok => absurd hok (by decide), fun _ =>
      ⟨(fill_eq fun a hle hlt => by omega).symm, (fill_eq fun a hle hlt => by omega).symm⟩⟩

/-- The host forgets an entry that is left out. -/
theorem Backed.forget (h : Backed s) {it : ℕ × MapEntry} (hit : it ∈ s.maps.entries)
    (outcomes : List Bool) :
    Backed { s with
      outcomes, maps := s.maps.erase it.1
      host := fill s.host it.1 (it.1 + it.2.size) fun _ _ => ⟨none, Prot.none⟩ } := by
  obtain ⟨hdisjoint, hentries⟩ := h.disjoint.erase hit
  refine ⟨hdisjoint, fun a => ?_⟩
  show (fill s.host _ _ _ a).file = (entryAt MapEntry.size _ a).map _
  rw [hentries]
  by_cases ha : it.1 ≤ a ∧ a < it.1 + it.2.size
  · rw [fill_of_mem ha, fill_of_mem ha]
    rfl
  · rw [fill_of_not_mem ha, fill_of_not_mem ha]
    exact h.file a

/-- The ways through `UnmapOne`: the range is in no entry; or it is in the entry
`it`, and the host cannot unmap the entry; or it can, and the range is the whole
entry, or the entry is rebuilt. -/
theorem unmapOneWith_cases (h : Backed s) {takeBack : State → ℕ → ℕ → Option (State × Bool)}
    (hr : unmapOneWith takeBack backingSize s vaddr size = some (s', ok)) :
    (s' = s ∧ ok = false) ∨
    ∃ it ∈ s.maps.entries, it.1 ≤ vaddr ∧ vaddr + size ≤ it.1 + it.2.size ∧ ∃ outcomes,
      (s' = { s with outcomes } ∧ ok = false) ∨
      ∃ s₁, s₁ = { s with
          outcomes, maps := s.maps.erase it.1
          host := fill s.host it.1 (it.1 + it.2.size) fun _ _ => ⟨none, Prot.none⟩ } ∧
        ((vaddr = it.1 ∧ size = it.2.size ∧ s' = s₁ ∧ ok = true) ∨
          (¬ (vaddr = it.1 ∧ size = it.2.size) ∧
            rebuild takeBack backingSize s₁ it.2 vaddr size = some (s', ok))) := by
  unfold unmapOneWith at hr
  split at hr
  · cases hr
    exact Or.inl ⟨rfl, rfl⟩
  · rename_i it hfilter
    obtain ⟨hlast, hend⟩ := Option.filter_eq_some_iff.mp hfilter
    obtain ⟨front, -, hsplit, hle⟩ := OrderedMap.split_of_getLast hlast
    have hit : it ∈ s.maps.entries := hsplit ▸ List.mem_append_right front List.mem_cons_self
    have hkey := h.disjoint.keys it hit
    have hpos : it.1 < it.1 + it.2.size := h.disjoint.tidy.proper it hit
    rw [decide_eq_true_eq, hkey] at hend
    dsimp only at hr
    rw [if_neg (by omega), unmapViewPreservePlaceholder, hkey] at hr
    refine Or.inr ⟨it, hit, hle, hend, ?_⟩
    obtain ⟨outcomes, hcall | hcall⟩ := call_cases { s with maps := s.maps.erase it.1 }
      (fill s.host it.1 (it.1 + it.2.size) fun _ _ => ⟨none, Prot.none⟩)
    · rw [hcall] at hr
      cases hr
      refine ⟨outcomes, Or.inl ⟨?_, rfl⟩⟩
      rw [OrderedMap.emplace_erase hit]
    · rw [hcall] at hr
      refine ⟨outcomes, Or.inr ⟨_, rfl, ?_⟩⟩
      dsimp only at hr
      split at hr
      · rename_i hexact
        cases hr
        exact Or.inl ⟨hexact.1, hexact.2, rfl, rfl⟩
      · rename_i hexact
        exact Or.inr ⟨hexact, hr⟩

/-- Unmapping a whole entry. -/
theorem unmapOneWith_exact (h : Backed s) {takeBack : State → ℕ → ℕ → Option (State × Bool)}
    {it : ℕ × MapEntry} (hit : it ∈ s.maps.entries)
    (hr : unmapOneWith takeBack backingSize s it.1 it.2.size = some (s', ok)) :
    Backed s' ∧ Kept s s' ∧ (ok = true → Cleared s s' it.1 it.2.size) := by
  obtain ⟨rfl, rfl⟩ | ⟨i, hi, hle, hend, outcomes, ⟨rfl, rfl⟩ | ⟨s₁, rfl, hcases⟩⟩ :=
    unmapOneWith_cases h hr
  · exact ⟨h, Kept.refl s', fun hok => absurd hok (by decide)⟩
  · exact ⟨⟨h.disjoint, h.file⟩, Kept.refl s, fun hok => absurd hok (by decide)⟩
  · -- only one entry starts where the range does
    have hpos : it.1 < it.1 + it.2.size := h.disjoint.tidy.proper it hit
    obtain rfl : it = i := h.disjoint.tidy.eq_of_covers (a := it.1) hit hi
      (extent_covers.mpr (by omega)) (extent_covers.mpr (by omega))
    obtain ⟨-, -, rfl, rfl⟩ | ⟨hne, -⟩ := hcases
    · exact ⟨h.forget hit outcomes, Kept.refl s, fun _ => ⟨(h.disjoint.erase hit).2, rfl⟩⟩
    · exact absurd ⟨rfl, rfl⟩ hne

/-- Taking back a piece, which is an entry or was never mapped. -/
theorem takeBackPiece_spec (h : Backed s) {takeBack : State → ℕ → ℕ → Option (State × Bool)}
    (hpiece : (∀ a, vaddr ≤ a → a < vaddr + size → entryAt MapEntry.size s.maps a = none) ∨
      ∀ a, vaddr ≤ a → a < vaddr + size →
        entryAt MapEntry.size s.maps a = some (vaddr, ⟨vaddr, size, backingOffset, mode⟩))
    (hr : takeBackPiece (unmapOneWith takeBack backingSize) s vaddr size = some s') :
    Backed s' ∧ Kept s s' ∧
      entryAt MapEntry.size s'.maps
        = fill (entryAt MapEntry.size s.maps) vaddr (vaddr + size) fun _ _ => none := by
  unfold takeBackPiece at hr
  split at hr
  · rename_i hmapped
    obtain ⟨hne, hcontains⟩ := hmapped
    have hpos : 0 < size := Nat.pos_of_ne_zero hne
    obtain ⟨⟨s₁, ok⟩, hone, hok⟩ := Option.bind_eq_some_iff.mp hr
    dsimp only at hok
    split at hok
    · rename_i htrue
      cases hok
      obtain hnone | hsome := hpiece
      · have hcovered := (contains_iff h.disjoint hpos).mp hcontains vaddr le_rfl (by omega)
        exact absurd hcovered (OrderedMap.entryAt_eq_none.mp (hnone vaddr le_rfl (by omega)))
      · have hit := (h.disjoint.entryAt_iff.mp (hsome vaddr le_rfl (by omega))).1
        obtain ⟨hbacked, hkept, hcleared⟩ := unmapOneWith_exact h hit hone
        exact ⟨hbacked, hkept, (hcleared htrue).entries⟩
    · cases hok
  · rename_i hmapped
    cases hr
    refine ⟨h, Kept.refl s, (fill_eq fun a hle hlt => ?_).symm⟩
    obtain hnone | hsome := hpiece
    · exact (hnone a hle hlt).symm
    · -- a piece that is an entry is contained
      refine absurd ⟨by omega, (contains_iff h.disjoint (by omega)).mpr fun b hb hlast => ?_⟩
        hmapped
      by_contra hnot
      have hentry := hsome b hb hlast
      rw [OrderedMap.entryAt_eq_none.mpr hnot] at hentry
      cases hentry

/-- An entry has been cut: a range inside of it is in no entry any more, and what
is left on both sides is mapped anew, in the mode that the entry recorded. -/
structure Cut (s s' : State) (it : ℕ × MapEntry) (vaddr size : ℕ) : Prop where
  inside : ∀ a, vaddr ≤ a ∧ a < vaddr + size →
    entryAt MapEntry.size s'.maps a = none ∧ s'.host a = ⟨none, Prot.none⟩
  beside : ∀ a, ¬ (vaddr ≤ a ∧ a < vaddr + size) → (extent MapEntry.size).Covers it a →
    (∃ piece, entryAt MapEntry.size s'.maps a = some piece ∧ piece.2.offset a = it.2.offset a ∧
      ∀ b, (extent MapEntry.size).Covers piece b →
        (extent MapEntry.size).Covers it b ∧ ¬ (vaddr ≤ b ∧ b < vaddr + size)) ∧
    s'.host a = ⟨some (it.2.offset a), getProtect it.2.mode⟩
  outside : ∀ a, ¬ (extent MapEntry.size).Covers it a →
    entryAt MapEntry.size s'.maps a = entryAt MapEntry.size s.maps a ∧ s'.host a = s.host a

/-- **Rebuilding** an entry whose view is gone: its two pieces, or the whole entry
again. -/
theorem rebuild_spec (h : Backed s) {takeBack : State → ℕ → ℕ → Option (State × Bool)}
    {it : ℕ × MapEntry} (hkey : it.2.vaddr = it.1) (hbound : it.1 + it.2.size ≤ uint64Max)
    (hfree : ∀ a, it.1 ≤ a → a < it.1 + it.2.size → entryAt MapEntry.size s.maps a = none)
    (hhost : ∀ a, it.1 ≤ a → a < it.1 + it.2.size → s.host a = ⟨none, Prot.none⟩)
    (hle : it.1 ≤ vaddr) (hend : vaddr + size ≤ it.1 + it.2.size)
    (hr : rebuild (unmapOneWith takeBack backingSize) backingSize s it.2 vaddr size
      = some (s', ok)) :
    Backed s' ∧ Kept s s' ∧ (ok = true → Cut s s' it vaddr size) ∧
      (ok = false → entryAt MapEntry.size s'.maps
        = fill (entryAt MapEntry.size s.maps) it.1 (it.1 + it.2.size) fun _ _ => some it) := by
  obtain ⟨key, old⟩ := it
  dsimp only at hkey hbound hfree hhost hle hend hr ⊢
  subst hkey
  unfold rebuild at hr
  dsimp only at hr
  obtain ⟨⟨s₁, left⟩, hleft, hrest⟩ := Option.bind_eq_some_iff.mp hr
  obtain ⟨⟨s₂, right⟩, hright, hdone⟩ := Option.bind_eq_some_iff.mp hrest
  clear hr hrest
  dsimp only at hdone
  obtain ⟨hb₁, hk₁, hleftFail, hleftOk⟩ := mapPiece_spec h (by omega)
    (fun a hlo hhi => hfree a hlo (by omega)) hleft
  -- the right piece lies behind the left one
  have hbehind : ∀ a, vaddr ≤ a →
      entryAt MapEntry.size s₁.maps a = entryAt MapEntry.size s.maps a := by
    intro a ha
    cases left with
    | false => rw [(hleftFail rfl).1]
    | true =>
      rw [(hleftOk rfl).entries]
      exact fill_of_not_mem (by omega)
  obtain ⟨hb₂, hk₂, hrightFail, hrightOk⟩ := mapPiece_spec hb₁ (by omega)
    (fun a hlo hhi => (hbehind a (by omega)).trans (hfree a (by omega) (by omega))) hright
  split at hdone
  · -- both pieces are there
    rename_i hboth
    obtain ⟨rfl, rfl⟩ := hboth
    cases hdone
    have L := hleftOk rfl
    have R := hrightOk rfl
    refine ⟨hb₂, hk₁.trans hk₂, fun _ => ⟨fun a ha => ?_, fun a ha hcovers => ?_, fun a ha => ?_⟩,
      fun hok => absurd hok (by decide)⟩
    · rw [R.entries, R.host, fill_of_not_mem (by omega), fill_of_not_mem (by omega), L.entries,
        L.host, fill_of_not_mem (by omega), fill_of_not_mem (by omega)]
      exact ⟨hfree a (by omega) (by omega), hhost a (by omega) (by omega)⟩
    · rw [extent_covers] at hcovers
      dsimp only at hcovers
      by_cases hlow : a < vaddr
      · rw [R.entries, R.host, fill_of_not_mem (by omega), fill_of_not_mem (by omega), L.entries,
          L.host, fill_of_mem (by omega), fill_of_mem (by omega)]
        refine ⟨⟨_, rfl, rfl, fun b hb => ?_⟩, rfl⟩
        rw [extent_covers] at hb ⊢
        dsimp only at hb ⊢
        omega
      · have hin : vaddr + size ≤ a ∧ a < old.vaddr + old.size := by omega
        rw [R.entries, R.host, fill_of_mem (by omega), fill_of_mem (by omega)]
        have hoffset : old.backingOffset + (vaddr + size - old.vaddr) + (a - (vaddr + size))
            = old.offset a := by
          unfold MapEntry.offset
          omega
        refine ⟨⟨_, rfl, hoffset, fun b hb => ?_⟩, by rw [hoffset]⟩
        rw [extent_covers] at hb ⊢
        dsimp only at hb ⊢
        omega
    · rw [extent_covers] at ha
      dsimp only at ha
      rw [R.entries, R.host, fill_of_not_mem (by omega), fill_of_not_mem (by omega), L.entries,
        L.host, fill_of_not_mem (by omega), fill_of_not_mem (by omega)]
      exact ⟨rfl, rfl⟩
  · -- a piece is missing: the other one is taken back
    obtain ⟨s₃, htakeLeft, hrest⟩ := Option.bind_eq_some_iff.mp hdone
    obtain ⟨s₄, htakeRight, hrest'⟩ := Option.bind_eq_some_iff.mp hrest
    obtain ⟨⟨s₅, again⟩, hagain, hlast⟩ := Option.bind_eq_some_iff.mp hrest'
    dsimp only at hlast
    have hfront : ∀ a, a < vaddr + size →
        entryAt MapEntry.size s₂.maps a = entryAt MapEntry.size s₁.maps a := by
      intro a ha
      cases right with
      | false => rw [(hrightFail rfl).1]
      | true =>
        rw [(hrightOk rfl).entries]
        exact fill_of_not_mem (by omega)
    obtain ⟨hb₃, hk₃, he₃⟩ := takeBackPiece_spec hb₂ (by
      cases left with
      | false =>
        refine Or.inl fun a hlo hhi => ?_
        rw [hfront a (by omega), (hleftFail rfl).1]
        exact hfree a hlo (by omega)
      | true =>
        refine Or.inr fun a hlo hhi => ?_
        rw [hfront a (by omega), (hleftOk rfl).entries]
        exact fill_of_mem (by omega)) htakeLeft
    obtain ⟨hb₄, hk₄, he₄⟩ := takeBackPiece_spec hb₃ (by
      rw [he₃]
      cases right with
      | false =>
        refine Or.inl fun a hlo hhi => ?_
        rw [fill_of_not_mem (by omega), (hrightFail rfl).1, hbehind a (by omega)]
        exact hfree a (by omega) (by omega)
      | true =>
        refine Or.inr fun a hlo hhi => ?_
        rw [fill_of_not_mem (by omega), (hrightOk rfl).entries]
        exact fill_of_mem (by omega)) htakeRight
    -- all entries are as they were without the old one
    have he : entryAt MapEntry.size s₄.maps = entryAt MapEntry.size s.maps := by
      funext a
      rw [he₄]
      by_cases hhigh : vaddr + size ≤ a ∧ a < old.vaddr + old.size
      · rw [fill_of_mem (by omega), hfree a (by omega) (by omega)]
      · rw [fill_of_not_mem (by omega), he₃]
        by_cases hlow : old.vaddr ≤ a ∧ a < vaddr
        · rw [fill_of_mem (by omega), hfree a (by omega) (by omega)]
        · rw [fill_of_not_mem (by omega)]
          have hright : entryAt MapEntry.size s₂.maps a = entryAt MapEntry.size s₁.maps a := by
            cases right with
            | false => rw [(hrightFail rfl).1]
            | true =>
              rw [(hrightOk rfl).entries]
              exact fill_of_not_mem (by omega)
          rw [hright]
          cases left with
          | false => rw [(hleftFail rfl).1]
          | true =>
            rw [(hleftOk rfl).entries]
            exact fill_of_not_mem (by omega)
    obtain ⟨hb₅, hk₅, -, hmapped⟩ := mapExisting_spec hb₄ hbound
      (fun a hlo hhi => by rw [he]; exact hfree a hlo hhi) hagain
    split at hlast
    · rename_i htrue
      cases hlast
      refine ⟨hb₅, (((hk₁.trans hk₂).trans hk₃).trans hk₄).trans hk₅,
        fun hok => absurd hok (by decide), fun _ => ?_⟩
      rw [(hmapped htrue).entries, he]
    · cases hlast

/-- **`UnmapOne`**: the range is cut out of its entry, or the entries are as
before. -/
theorem unmapOne_spec (h : Backed s) (hr : unmapOne backingSize s vaddr size = some (s', ok)) :
    Backed s' ∧ Kept s s' ∧
      (ok = false → entryAt MapEntry.size s'.maps = entryAt MapEntry.size s.maps) ∧
      (ok = true → ∃ it ∈ s.maps.entries, it.1 ≤ vaddr ∧ vaddr + size ≤ it.1 + it.2.size ∧
        Cut s s' it vaddr size) := by
  obtain ⟨rfl, rfl⟩ | ⟨it, hit, hle, hend, outcomes, ⟨rfl, rfl⟩ | ⟨s₁, rfl, hcases⟩⟩ :=
    unmapOneWith_cases h hr
  · exact ⟨h, Kept.refl s', fun _ => rfl, fun hok => absurd hok (by decide)⟩
  · exact ⟨⟨h.disjoint, h.file⟩, Kept.refl s, fun _ => rfl, fun hok => absurd hok (by decide)⟩
  · have hb := h.forget hit outcomes
    have herase := (h.disjoint.erase hit).2
    obtain ⟨rfl, rfl, rfl, rfl⟩ | ⟨-, hrebuild⟩ := hcases
    · refine ⟨hb, Kept.refl s, fun hok => absurd hok (by decide), fun _ =>
        ⟨it, hit, hle, hend, fun a ha => ?_, fun a ha hcovers => absurd hcovers ha, fun a ha => ?_⟩⟩
      · exact ⟨by rw [herase]; exact fill_of_mem ha, if_pos ha⟩
      · exact ⟨by rw [herase]; exact fill_of_not_mem ha, if_neg ha⟩
    · obtain ⟨hb', hk', hcut, hfail⟩ := rebuild_spec hb (h.disjoint.keys it hit)
        (h.disjoint.bounded it hit)
        (fun a hlo hhi => by
          show entryAt MapEntry.size (s.maps.erase it.1) a = none
          rw [herase]
          exact fill_of_mem ⟨hlo, hhi⟩)
        (fun a hlo hhi => if_pos ⟨hlo, hhi⟩) hle hend hrebuild
      refine ⟨hb', hk', fun hok => ?_, fun hok => ⟨it, hit, hle, hend, ?_⟩⟩
      · rw [hfail hok]
        funext a
        by_cases ha : it.1 ≤ a ∧ a < it.1 + it.2.size
        · rw [fill_of_mem ha]
          exact (h.disjoint.entryAt_iff.mpr ⟨hit, ha⟩).symm
        · rw [fill_of_not_mem ha]
          show entryAt MapEntry.size (s.maps.erase it.1) a = _
          rw [herase]
          exact fill_of_not_mem ha
      · have C := hcut hok
        refine ⟨C.inside, C.beside, fun a ha => ?_⟩
        obtain ⟨hentry, hhost⟩ := C.outside a ha
        refine ⟨hentry.trans ?_, hhost.trans (if_neg ha)⟩
        show entryAt MapEntry.size (s.maps.erase it.1) a = _
        rw [herase]
        exact fill_of_not_mem ha

end Single

end Prosperismo.GuestAddressSpace
