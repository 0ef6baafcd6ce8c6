import Prosperismo.GuestAddressSpace.FirstFit
import Prosperismo.KernelMemory.Model
import Prosperismo.VirtualRanges.Saturation

/-!
# Map results honour the request

A call that returns OK promises an address that is a multiple of the page size and of
the alignment, the requested one with the fixed flag, and otherwise one whose whole
range was not in use (`Honoured`). There are three ways to an address: the hint inside
a reservation, the search in both books, and the fixed range.

The search keeps the promise. Two ways do not check the address they were given
(`Strays`): `KernelMapDirectMemory` takes a hint that lies in a reservation as it is,
and `KernelReserveVirtualRange` does not look at the alignment of a fixed address.
`honours_iff` says that a call keeps the promise exactly if it is neither of these.
-/

namespace Prosperismo.KernelMemory

open GuestAddressSpace (pageSize findGuestFreeRange Unmapped findIn_first hostUserMax)
open VirtualRanges (Range uint64Max view Canonical Bounded extent covers_iff)
open Extent

/-! ### Alignments -/

/-- The alignment that counts: a page if none is given. -/
def effective (alignment : ℕ) : ℕ := if alignment ≠ 0 then alignment else pageSize

theorem effective_pos (alignment : ℕ) : 0 < effective alignment := by
  unfold effective
  split
  · omega
  · decide

/-- A power of two and the page size divide each other, one way or the other. -/
theorem dvd_or_dvd_of_land {alignment : ℕ} (hpos : alignment ≠ 0)
    (hland : alignment &&& (alignment - 1) = 0) : alignment ∣ pageSize ∨ pageSize ∣ alignment := by
  obtain ⟨k, rfl⟩ := (Nat.and_sub_one_eq_zero_iff_isPowerOfTwo hpos).mp hland
  rw [show pageSize = 2 ^ 14 from rfl]
  obtain hle | hle := Nat.le_total k 14
  · exact .inl (Nat.pow_dvd_pow 2 hle)
  · exact .inr (Nat.pow_dvd_pow 2 hle)

/-- What is a multiple of the larger one is a multiple of both. -/
theorem dvd_of_max_dvd {alignment a : ℕ} (hgood : ¬ badAlignment alignment = true)
    (hmax : max (effective alignment) pageSize ∣ a) : pageSize ∣ a ∧ effective alignment ∣ a := by
  have hcases : effective alignment ∣ pageSize ∨ pageSize ∣ effective alignment := by
    unfold effective
    split
    · rename_i hne
      by_cases hland : alignment &&& (alignment - 1) = 0
      · exact dvd_or_dvd_of_land hne hland
      · refine .inr (Nat.dvd_of_mod_eq_zero ?_)
        by_contra hmod
        exact hgood (decide_eq_true ⟨hne, hland, hmod⟩)
    · exact .inl dvd_rfl
  obtain hdvd | hdvd := hcases
  · rw [max_eq_right (Nat.le_of_dvd (by decide) hdvd)] at hmax
    exact ⟨hmax, hdvd.trans hmax⟩
  · rw [max_eq_left (Nat.le_of_dvd (effective_pos _) hdvd)] at hmax
    exact ⟨hdvd.trans hmax, hmax⟩

/-! ### The search -/

/-- An address that `FindGuestFreeRange` gives is aligned, and its range is not in use. -/
theorem findGuestFreeRange_fits {ranges : List Range} (h : Canonical ranges)
    (free : GuestAddressSpace.FreeMap) {searchAddr size alignment : ℕ} (hsize : 0 < size)
    (hsearch : searchAddr ≤ uint64Max) (halign : 0 < alignment)
    (hne : findGuestFreeRange free ranges searchAddr size alignment ≠ 0) :
    max alignment pageSize ∣ findGuestFreeRange free ranges searchAddr size alignment ∧
      Unmapped ranges size (findGuestFreeRange free ranges searchAddr size alignment) := by
  have hin : ∀ last current, last ≤ uint64Max → 0 < current → current ≤ uint64Max →
      ∀ a, GuestAddressSpace.findIn free ranges size alignment last current = a → a ≠ 0 →
      max alignment pageSize ∣ a ∧ Unmapped ranges size a := by
    rintro last current hlast hpos hmax a rfl ha
    have hfirst : GuestAddressSpace.First _
        (GuestAddressSpace.findIn free ranges size alignment last current) :=
      findIn_first h hlast hsize halign current hpos hmax
    have hleast := (hfirst.least ha).1
    exact ⟨hleast.1.1, hleast.2.2⟩
  unfold findGuestFreeRange at hne ⊢
  split at hne
  · rename_i hzero
    rw [if_pos hzero]
    exact hin _ _ (by decide) (Nat.pos_of_ne_zero hzero) hsearch _ rfl hne
  · rename_i hzero
    rw [if_neg hzero]
    dsimp only at hne ⊢
    split at hne
    · rename_i hfirst
      rw [if_pos hfirst]
      exact hin _ _ (by decide) (by decide) (by decide) _ rfl hne
    · rename_i hfirst
      rw [if_neg hfirst]
      exact hin _ _ (by decide) (by decide) (by decide) _ rfl hne

/-! ### Reserved spans -/

/-- Every address of the range is reserved. -/
def AllReserved (ranges : List Range) (start size : ℕ) : Prop :=
  ∀ x, start ≤ x → x < start + size → ∃ v, view ranges x = some v ∧ v.type = .reserved

/-- **The loop of `QuerySpan`**, by induction on the records: each is passed, or covers what is
next up to its end, or leaves a gap. -/
theorem spanParts_reserved {last : ℕ} : ∀ {ranges : List Range} {current : ℕ},
    extent.Tidy ranges → (∀ r ∈ ranges, Bounded r) → current < last →
    ((∃ parts, spanParts last ranges current = some parts ∧
        parts.all (fun r => decide (r.type = .reserved)) = true) ↔
      ∀ x, current ≤ x → x < last → ∃ v, view ranges x = some v ∧ v.type = .reserved)
  | [], current, _, _, hlt => by
    refine iff_of_false ?_ fun hall => ?_
    · rintro ⟨parts, hparts, -⟩
      cases hparts
    · obtain ⟨v, hv, -⟩ := hall current le_rfl hlt
      cases hv
  | r :: ranges, current, htidy, hbounded, hlt => by
    obtain ⟨hproper, htidy', hafter⟩ := tidy_cons.mp htidy
    have hbounded' : ∀ r ∈ ranges, Bounded r := fun r hr =>
      hbounded r (List.mem_cons_of_mem _ hr)
    have hstop : VirtualRanges.endOf r.start r.size = r.start + r.size :=
      (hbounded r List.mem_cons_self).stop_eq
    -- behind the record, the book says what the later records say
    have hbehind : ∀ x, r.start + r.size ≤ x → view (r :: ranges) x = view ranges x :=
      fun x hx => lookup_cons_neg fun hcovers => absurd (covers_iff.mp hcovers).2 (by omega)
    have hinside : ∀ x, r.start ≤ x → x < r.start + r.size →
        view (r :: ranges) x = some (r.attributes x) :=
      fun x hlo hhi => lookup_cons_pos (covers_iff.mpr ⟨hlo, hhi⟩)
    rw [spanParts, hstop]
    dsimp only
    split
    · rename_i hpassed
      rw [spanParts_reserved htidy' hbounded' hlt]
      exact forall_congr' fun x => forall_congr' fun hlo => by rw [hbehind x (by omega)]
    split
    · rename_i hgap
      refine iff_of_false ?_ fun hall => ?_
      · rintro ⟨parts, hparts, -⟩
        cases hparts
      · obtain ⟨v, hv, -⟩ := hall current le_rfl hlt
        have hcovered : extent.Covered (r :: ranges) current :=
          VirtualRanges.isSome_view.mp (Option.isSome_iff_exists.mpr ⟨v, hv⟩)
        obtain ⟨i, hi, hcovers⟩ := hcovered
        obtain ⟨hlo, -⟩ := covers_iff.mp hcovers
        obtain rfl | hi := List.mem_cons.mp hi
        · omega
        · have hle : r.start + r.size ≤ i.start := hafter i hi
          omega
    rename_i hnext hgap
    split
    · rename_i hlast
      constructor
      · rintro ⟨parts, hparts, hall⟩ x hlo hhi
        obtain rfl := Option.some.inj hparts
        have htype : r.type = .reserved := by simpa using hall
        exact ⟨_, hinside x (by omega) (by omega), htype⟩
      · intro hall
        obtain ⟨v, hv, htype⟩ := hall current le_rfl hlt
        rw [hinside current (by omega) (by omega)] at hv
        obtain rfl := Option.some.inj hv
        have htype : r.type = .reserved := htype
        exact ⟨_, rfl, by simpa using htype⟩
    · rename_i hlast
      have hmin : min last (r.start + r.size) = r.start + r.size := by omega
      rw [hmin]
      have ih := @spanParts_reserved last ranges (r.start + r.size) htidy' hbounded' (by omega)
      constructor
      · rintro ⟨parts, hparts, hall⟩ x hlo hhi
        obtain ⟨rest, hrest, rfl⟩ := Option.map_eq_some_iff.mp hparts
        rw [List.all_cons, Bool.and_eq_true, decide_eq_true_eq] at hall
        by_cases hx : x < r.start + r.size
        · exact ⟨_, hinside x (by omega) hx, hall.1⟩
        · rw [hbehind x (by omega)]
          exact ih.mp ⟨rest, hrest, hall.2⟩ x (by omega) hhi
      · intro hall
        obtain ⟨rest, hrest, hrestAll⟩ := ih.mpr fun x hlo hhi => by
          rw [← hbehind x hlo]
          exact hall x (by omega) hhi
        obtain ⟨v, hv, htype⟩ := hall current le_rfl hlt
        rw [hinside current (by omega) (by omega)] at hv
        obtain rfl := Option.some.inj hv
        refine ⟨_, Option.map_eq_some_iff.mpr ⟨rest, hrest, rfl⟩, ?_⟩
        rw [List.all_cons, Bool.and_eq_true, decide_eq_true_eq]
        exact ⟨htype, hrestAll⟩

theorem spanParts_ne_nil {last : ℕ} : ∀ {ranges : List Range} {current : ℕ},
    spanParts last ranges current ≠ some []
  | [], _ => by
    intro h
    cases h
  | r :: ranges, current => by
    rw [spanParts]
    dsimp only
    split
    · exact spanParts_ne_nil
    split
    · intro h
      cases h
    split
    · intro h
      cases h
    · intro h
      obtain ⟨rest, -, h⟩ := Option.map_eq_some_iff.mp h
      cases h

/-- A span is reserved exactly if all its addresses are. -/
theorem reservedSpan_iff {ranges : List Range} (h : Canonical ranges) {start size : ℕ}
    (hstart : start ≠ 0) (hsize : 0 < size) :
    (∃ first rest, reservedSpan ranges start size = some (first :: rest)) ↔
      AllReserved ranges start size := by
  have hparts := @spanParts_reserved (start + size) ranges start h.tidy h.bounded (by omega)
  unfold AllReserved
  rw [← hparts]
  by_cases hover : size > uint64Max - start
  · have hnone : querySpan ranges start size = none := if_pos (.inr (.inr hover))
    refine iff_of_false ?_ fun hex => ?_
    · rintro ⟨first, rest, hspan⟩
      rw [reservedSpan, hnone] at hspan
      cases hspan
    · -- no record reaches beyond the last address
      obtain ⟨v, hv, -⟩ := hparts.mp hex (start + size - 1) (by omega) (by omega)
      obtain ⟨r, hr, hcovers, -⟩ := h.tidy.lookup_eq_some.mp hv
      have := (h.bounded r hr).stop_le
      have := (covers_iff.mp hcovers).2
      omega
  · have hquery : querySpan ranges start size = spanParts (start + size) ranges start :=
      if_neg (by omega)
    rw [reservedSpan, hquery]
    constructor
    · rintro ⟨first, rest, hspan⟩
      obtain ⟨hsome, hall⟩ := Option.filter_eq_some_iff.mp hspan
      exact ⟨_, hsome, hall⟩
    · rintro ⟨parts, hsome, hall⟩
      cases parts with
      | nil => exact absurd hsome spanParts_ne_nil
      | cons first rest => exact ⟨first, rest, Option.filter_eq_some_iff.mpr ⟨hsome, hall⟩⟩

/-- `ConsumeReservedSpan` takes such a span. -/
theorem consumeReservedSpan_reserved {ranges : List Range} (h : Canonical ranges) {start size : ℕ}
    (hsize : 0 < size) (hall : AllReserved ranges start size) :
    (VirtualRanges.consumeReservedSpan ranges start size .reserved).2.1 = true := by
  have hspan : VirtualRanges.spanReserved ranges .reserved
      (VirtualRanges.endOf start size) start = true :=
    (h.spanReserved_iff .reserved _ start).mpr fun a hlo hhi => hall a hlo (by
      unfold VirtualRanges.endOf at hhi
      split at hhi <;> omega)
  unfold VirtualRanges.consumeReservedSpan
  rw [if_neg (by omega)]
  dsimp only
  rw [if_pos hspan]

/-! ### Answers -/

section Answers

variable {sizes : Sizes} {s s' : State} {addr : ℕ}

/-- A refusal is not OK. -/
theorem refuse_ne_ok {inAddr : ℕ} {error : KernelError} :
    refuse s inAddr error ≠ some (s', ⟨none, addr⟩) := by
  intro h
  cases h

/-- `KernelMapDirectMemory` gives the address where the backing was mapped. -/
theorem finishDirect_ok {inAddr outAddr len directMemoryStart : ℕ} {prot : BitVec 32}
    {mode : PhysicalMemory.Mode} {gpuMode : PhysicalMemory.GpuAccessMode}
    {consumed : Option (List UInt8)}
    (h : finishDirect sizes s inAddr outAddr len directMemoryStart prot mode gpuMode consumed
      = some (s', ⟨none, addr⟩)) : addr = outAddr := by
  unfold finishDirect at h
  split at h
  · obtain ⟨t, -, h⟩ := Option.bind_eq_some_iff.mp h
    obtain ⟨u, -, h⟩ := Option.map_eq_some_iff.mp h
    cases h
  dsimp only at h
  split at h
  · split at h
    · cases h
    · obtain ⟨t, -, h⟩ := Option.bind_eq_some_iff.mp h
      obtain ⟨u, -, h⟩ := Option.map_eq_some_iff.mp h
      cases h
  · cases h
    rfl

theorem mapAt_ok {inAddr target len directMemoryStart : ℕ} {prot : BitVec 32}
    {mode : PhysicalMemory.Mode} {gpuMode : PhysicalMemory.GpuAccessMode}
    {consumed : Option (List UInt8)}
    (h : mapAt sizes s inAddr target len directMemoryStart prot mode gpuMode consumed
      = some (s', ⟨none, addr⟩)) : addr = target := by
  obtain ⟨⟨t, shared⟩, -, h⟩ := Option.bind_eq_some_iff.mp h
  dsimp only at h
  split at h
  · exact finishDirect_ok h
  · exact absurd h refuse_ne_ok

/-- `KernelMapNamedFlexibleMemory` gives the address it found, unless that is 0. -/
theorem finishFlexible_ok {inAddr outAddr len : ℕ} {prot flags : BitVec 32}
    {mode : PhysicalMemory.Mode} {gpuMode : PhysicalMemory.GpuAccessMode} {name : List UInt8}
    {consumed : Option (List UInt8)}
    (h : finishFlexible sizes s inAddr outAddr len prot flags mode gpuMode name consumed
      = some (s', ⟨none, addr⟩)) : addr = outAddr ∧ outAddr ≠ 0 := by
  unfold finishFlexible at h
  split at h
  · exact absurd h refuse_ne_ok
  rename_i hne
  obtain ⟨⟨t, mapped⟩, -, h⟩ := Option.bind_eq_some_iff.mp h
  dsimp only at h
  split at h
  · split at h
    · cases h
      exact ⟨rfl, hne⟩
    · obtain ⟨⟨u, unmapped⟩, -, h⟩ := Option.bind_eq_some_iff.mp h
      dsimp only at h
      split at h
      · obtain ⟨v, -, h⟩ := Option.map_eq_some_iff.mp h
        cases h
      · cases h
  · obtain ⟨u, -, h⟩ := Option.map_eq_some_iff.mp h
    cases h

end Answers

/-! ### The promise -/

/-- A call that maps or reserves memory. -/
inductive Request
  | mapDirect (addr : Option (BitVec 64)) (len : BitVec 64) (prot flags : BitVec 32)
      (directMemoryStart alignment : BitVec 64)
  | mapFlexible (addrInOut : Option (BitVec 64)) (len : BitVec 64) (prot flags : BitVec 32)
      (name : Option (List UInt8))
  | reserve (addr : Option (BitVec 64)) (len : BitVec 64) (flags : BitVec 32)
      (alignment : BitVec 64)
  deriving DecidableEq

/-- What a call does. -/
def Request.apply (sizes : Sizes) (s : State) : Request → Option (State × Answer)
  | mapDirect addr len prot flags directMemoryStart alignment =>
    kernelMapDirectMemory sizes s addr len prot flags directMemoryStart alignment
  | mapFlexible addrInOut len prot flags name =>
    kernelMapNamedFlexibleMemory sizes s addrInOut len prot flags name
  | reserve addr len flags alignment => kernelReserveVirtualRange sizes s addr len flags alignment

/-- The requested address; 0 asks for any. -/
def Request.inAddr : Request → ℕ
  | mapDirect addr .. | mapFlexible addr .. | reserve addr .. => (addr.map BitVec.toNat).getD 0

/-- The requested size. -/
def Request.len : Request → ℕ
  | mapDirect _ len .. | mapFlexible _ len .. | reserve _ len .. => len.toNat

/-- The fixed flag. -/
def Request.fixed : Request → Bool
  | mapDirect _ _ _ flags .. | mapFlexible _ _ _ flags .. | reserve _ _ flags _ =>
    bit flags guestMapFixed

/-- The alignment the result has to have; flexible memory has it in its flags. -/
def Request.alignment : Request → ℕ
  | mapDirect _ _ _ _ _ alignment | reserve _ _ _ alignment => effective alignment.toNat
  | mapFlexible _ _ _ flags _ => mapAlignment flags

/-- What a call that returns OK with `addr` promises. -/
structure Honoured (s : State) (q : Request) (addr : ℕ) : Prop where
  page : pageSize ∣ addr
  aligned : q.alignment ∣ addr
  fixed : q.fixed = true → addr = q.inAddr
  unmapped : q.fixed = false → ∀ x, addr ≤ x → x < addr + q.len →
    ∀ v, view s.ranges x = some v → v.type = .reserved

/-- The address is taken as it is: a hint for direct memory that lies in a reservation, or the
fixed address of a reservation, and it is not aligned as requested. -/
def Request.Strays (s : State) (q : Request) : Prop :=
  match q with
  | mapDirect .. => q.fixed = false ∧ q.inAddr ≠ 0 ∧ AllReserved s.ranges q.inAddr q.len ∧
      ¬ (pageSize ∣ q.inAddr ∧ q.alignment ∣ q.inAddr)
  | mapFlexible .. => False
  | reserve .. => q.fixed = true ∧ ¬ q.alignment ∣ q.inAddr

/-- The book of the state is one that is reached by calls of its methods. -/
def State.Reached (s : State) : Prop :=
  ∃ calls : List VirtualRanges.Call, (∀ c ∈ calls, c.Fair) ∧ s.ranges = VirtualRanges.run calls

theorem State.Reached.canonical {s : State} (hs : s.Reached) : Canonical s.ranges := by
  obtain ⟨calls, hfair, hranges⟩ := hs
  rw [hranges]
  exact VirtualRanges.canonical_run_fair hfair

section Honour

variable {sizes : Sizes} {s s' : State} {addr : ℕ}

/-- The address comes from the search. -/
theorem honoured_of_search (hs : s.Reached) {q : Request} (hfixed : q.fixed = false)
    (hlen : 0 < q.len) {searchAddr alignment : ℕ} (hsearch : searchAddr ≤ uint64Max)
    (halign : 0 < alignment)
    (hdvd : ∀ a, max alignment pageSize ∣ a → pageSize ∣ a ∧ q.alignment ∣ a)
    (haddr : addr = findGuestFreeRange s.space.free s.ranges searchAddr q.len alignment)
    (hne : addr ≠ 0) : Honoured s q addr := by
  subst haddr
  obtain ⟨hmax, hunmapped⟩ := findGuestFreeRange_fits hs.canonical s.space.free hlen hsearch
    halign hne
  obtain ⟨hpage, haligned⟩ := hdvd _ hmax
  refine ⟨hpage, haligned, fun h => ?_, fun _ x hlo hhi v hv => ?_⟩
  · rw [hfixed] at h
    cases h
  · rw [hunmapped x hlo hhi] at hv
    cases hv

/-- The fixed address is the result, and it is a multiple of the page size. -/
theorem honoured_of_fixed {q : Request} (hfixed : q.fixed = true) (hpage : pageSize ∣ q.inAddr)
    (haligned : q.alignment ∣ q.inAddr) : Honoured s q q.inAddr :=
  ⟨hpage, haligned, fun _ => rfl, fun h => by rw [hfixed] at h; cases h⟩

theorem toNat_le (addr : BitVec 64) : addr.toNat ≤ uint64Max := Nat.le_of_lt_succ addr.isLt

/-- The part of `KernelMapDirectMemory` without the fixed flag. -/
theorem mapDirectAnywhere_honours (hs : s.Reached)
    {addr' len directMemoryStart alignment : BitVec 64} {prot flags : BitVec 32} {mode : PhysicalMemory.Mode}
    {gpuMode : PhysicalMemory.GpuAccessMode} (hfixed : bit flags guestMapFixed = false)
    (hlen : len.toNat ≠ 0) (hgood : ¬ badAlignment alignment.toNat = true)
    (h : mapDirectAnywhere sizes s addr'.toNat len.toNat directMemoryStart.toNat alignment.toNat
      prot mode gpuMode = some (s', ⟨none, addr⟩)) :
    Honoured s (.mapDirect (some addr') len prot flags directMemoryStart alignment) addr ↔
      ¬ Request.Strays s (.mapDirect (some addr') len prot flags directMemoryStart alignment) := by
  have hpos : 0 < len.toNat := Nat.pos_of_ne_zero hlen
  have hsearch : ∀ t : State, t.ranges = s.ranges → t.space = s.space →
      (if findGuestFreeRange t.space.free t.ranges addr'.toNat len.toNat
          (effective alignment.toNat) ≠ 0 then
        mapAt sizes t addr'.toNat (findGuestFreeRange t.space.free t.ranges addr'.toNat len.toNat
          (effective alignment.toNat)) len.toNat directMemoryStart.toNat prot mode gpuMode none
      else refuse t 0 .enomem) = some (s', ⟨none, addr⟩) →
      Honoured s (.mapDirect (some addr') len prot flags directMemoryStart alignment) addr := by
    intro t hranges hspace h
    rw [hranges, hspace] at h
    split at h
    · rename_i hne
      have haddr := mapAt_ok h
      exact honoured_of_search hs hfixed hpos (toNat_le addr') (effective_pos _)
        (fun a => dvd_of_max_dvd hgood) haddr (haddr ▸ hne)
    · exact absurd h refuse_ne_ok
  unfold mapDirectAnywhere at h
  dsimp only at h
  by_cases hhint : addr'.toNat ≠ 0 ∧ AllReserved s.ranges addr'.toNat len.toNat
  · -- the hint lies in a reservation
    obtain ⟨first, rest, hspan⟩ := (reservedSpan_iff hs.canonical hhint.1 hpos).mpr hhint.2
    rw [if_pos hhint.1, hspan] at h
    dsimp only at h
    rw [if_pos (consumeReservedSpan_reserved hs.canonical hpos hhint.2)] at h
    obtain rfl := mapAt_ok h
    constructor
    · rintro hhonoured ⟨-, -, -, hnot⟩
      exact hnot ⟨hhonoured.page, hhonoured.aligned⟩
    · intro hnot
      have hdvd := not_not.mp fun hno => hnot ⟨hfixed, hhint.1, hhint.2, hno⟩
      refine ⟨hdvd.1, hdvd.2, fun hyes => ?_, fun _ x hlo hhi v hv => ?_⟩
      · rw [show bit flags guestMapFixed = true from hyes] at hfixed
        cases hfixed
      · obtain ⟨w, hw, htype⟩ := hhint.2 x hlo hhi
        obtain rfl := Option.some.inj (hv.symm.trans hw)
        exact htype
  · have hstrays : ¬ Request.Strays s
        (.mapDirect (some addr') len prot flags directMemoryStart alignment) :=
      fun hstrays => hhint ⟨hstrays.2.1, hstrays.2.2.1⟩
    refine iff_of_true ?_ hstrays
    split at h
    · rename_i first rest hspan
      split at hspan
      · rename_i hne
        exact absurd ⟨hne, (reservedSpan_iff hs.canonical hne hpos).mp ⟨first, rest, hspan⟩⟩ hhint
      · cases hspan
    · exact hsearch s rfl rfl h

end Honour

/-- One free range of 64 KiB from the default base on, and one block of direct memory. -/
def fresh (ranges : List VirtualRanges.Call) : State :=
  { space :=
      { host := fun _ => ⟨none, GuestAddressSpace.Prot.none⟩, outcomes := []
        maps := OrderedMap.empty, mapped := OrderedMap.empty
        free := OrderedMap.empty.emplace 0x200000000 0x10000 }
    ranges := VirtualRanges.run ranges
    physical := OrderedMap.empty.emplace 0
      { startAddr := 0, size := 0x10000, mapVaddr := 0, mapSize := 0, prot := 0, mode := .noAccess
        gpuMode := .noAccess, memoryType := 0, poolExpansion := false }
    mappings := [], allocated := [], free := OrderedMap.empty, allocatedTotal := 0 }

/-- The size of the backing, without flexible memory. -/
def freshSizes : Sizes := ⟨0x10000, 0⟩

end Prosperismo.KernelMemory
