import Prosperismo.Base.Stores
import Prosperismo.BufferCache.Reservation
import Prosperismo.GuestAddressSpace.Backing

/-!
# Downloads move exactly the dirty bytes

The bytes go two ways: from the owners to the slots of the stream, on the GPU, and from the
slots to the backing of the guest's memory, where the entries of the backing store say at which
position the byte of an address is. Two addresses can have one position, so what a batch does to
the guest is a list of stores (`guestStores`), and reading a byte is a question about that list.

* `recordDownloads_spec`: which batches are recorded, and their slots.
* `execute_slot`: after the copies, a slot has the bytes of its envelope. The slots are apart.
* `writeBacking_eq_some`, `publishDownloads_eq_some`: the walks over the entries.
* `downloads_move_dirty_bytes` is the main result.
-/

namespace Prosperismo.BufferCache

open GuestAddressSpace (MapEntry MapEntries findContainingUnlocked offsetAt rangeOk walk)
open StreamBuffer (Ring uint64Max)

/-! ### Batches -/

/-- The batch has its slots in one range that `Map` has handed out; an empty batch has none. -/
structure Slotted (stream : DownloadStream) (gpuTick : ℕ) (gpu : ℕ → ℕ) (copies : List DownloadCopy)
    (batch : Batch) (range : Range) : Prop where
  reserved : copies ≠ [] → Handed stream (batchSize copies)
    (stream.ring.map stream.buffer (batchSize copies) downloadAlignment true gpuTick gpu) range
  enveloped : List.Forall₂ (Enveloped range) copies batch.recorded
  apart : batch.recorded.Pairwise Apart
  /-- The stream can be used again. -/
  offset_le : batch.ring.offset ≤ stream.buffer.size

/-- The condition for `RecordDownloads`: every envelope is inside of its owner, and the slots have
room in the stream. -/
def Fits (copies : List DownloadCopy) : Prop :=
  (∀ copy ∈ copies, copy.Inside) ∧ batchSize copies ≤ downloadSize

/-- A batch that fits is recorded. -/
theorem Fits.recorded {copies : List DownloadCopy} (h : Fits copies) (stream : DownloadStream)
    (gpuTick currentTick : ℕ) (gpu : ℕ → ℕ) :
    ∃ batch range, recordDownloads stream.buffer stream.ring gpuTick currentTick gpu copies =
      some batch ∧ Slotted stream gpuTick gpu copies batch range := by
  obtain ⟨hinside, hroom⟩ := h
  have hsum : reservationSize copies 0 = some (batchSize copies) := by
    rw [reservationSize_of_le hinside, Nat.zero_add]
    unfold downloadSize at hroom
    unfold downloadAlignment uint64Max
    omega
  unfold recordDownloads
  rw [hsum]
  dsimp only
  split
  · next hnone => cases hnone
  · next hzero =>
    -- only the empty batch needs nothing
    have hnil : copies = [] := by
      by_contra hne
      have hpos := batchSize_pos hinside hne
      rw [Option.some.inj hzero] at hpos
      exact absurd hpos (lt_irrefl 0)
    subst hnil
    exact ⟨_, ⟨0, 0⟩, rfl, fun hne => absurd rfl hne, .nil, .nil, stream.offset_le⟩
  · next reserved _ hreserved =>
    obtain rfl := Option.some.inj hreserved
    obtain ⟨range, hhanded⟩ := stream.map hroom gpuTick gpu
    have hlast : range.first + 0 + batchSize copies ≤ stream.buffer.size :=
      hhanded.fits.trans hhanded.inside
    obtain ⟨recorded, hrecorded, henveloped, hapart⟩ :=
      recordCopies_spec hhanded.aligned (dvd_zero _) hinside hlast
    rw [hhanded.offset]
    dsimp only
    rw [hrecorded]
    refine ⟨_, range, rfl, fun _ => hhanded,
      henveloped.imp fun _ _ h => h.mono le_rfl hhanded.fits, hapart, ?_⟩
    dsimp only
    rw [(StreamBuffer.commit_frame _ currentTick).1, hhanded.ring.1, hhanded.ring.2]
    exact hhanded.inside

/-- A batch that is recorded fits. -/
theorem fits_of_recordDownloads {stream : DownloadStream} {gpuTick currentTick : ℕ} {gpu : ℕ → ℕ}
    {copies : List DownloadCopy} {batch : Batch}
    (h : recordDownloads stream.buffer stream.ring gpuTick currentTick gpu copies = some batch) :
    Fits copies := by
  unfold recordDownloads at h
  split at h
  · cases h
  · next hzero =>
    obtain ⟨hinside, hsize⟩ := reservationSize_eq_some hzero
    exact ⟨hinside, by omega⟩
  · next reserved _ hreserved =>
    obtain ⟨hinside, hsize⟩ := reservationSize_eq_some hreserved
    refine ⟨hinside, ?_⟩
    by_contra hlarge
    rw [Nat.zero_add] at hsize
    have hnone := stream.map_none (hsize ▸ not_le.1 hlarge) gpuTick gpu
    dsimp only at h
    rw [hnone] at h
    cases h

/-- **`RecordDownloads`** records a batch exactly if it fits. -/
theorem recordDownloads_isSome (stream : DownloadStream) (gpuTick currentTick : ℕ) (gpu : ℕ → ℕ)
    (copies : List DownloadCopy) :
    (recordDownloads stream.buffer stream.ring gpuTick currentTick gpu copies).isSome ↔
      Fits copies := by
  constructor
  · intro h
    obtain ⟨batch, hbatch⟩ := Option.isSome_iff_exists.1 h
    exact fits_of_recordDownloads hbatch
  · intro h
    obtain ⟨batch, -, hbatch, -⟩ := h.recorded stream gpuTick currentTick gpu
    exact hbatch ▸ rfl

/-! ### The copies on the GPU -/

/-- The stores of the copies. -/
def commandStores (device : Owner → ℕ → UInt8) (commands : List BufferCopy) : List (ℕ × UInt8) :=
  commands.flatMap fun command =>
    copyStores command.size command.sourceOffset command.destinationOffset (device command.owner)

theorem execute_eq_storeAll (device : Owner → ℕ → UInt8) (commands : List BufferCopy)
    (stream : ℕ → UInt8) :
    execute device commands stream = storeAll (commandStores device commands) stream := by
  induction commands generalizing stream with
  | nil => rfl
  | cons command commands ih =>
    show execute device commands (copyObject _ _ _ _ stream) = _
    rw [ih, copyObject_eq_storeAll]
    exact (storeAll_append _ _ _).symm

/-- **After the copies a slot has the bytes of its envelope**: the slots are apart, so no other
copy reaches into it. -/
theorem execute_slot {recorded : List (BufferCopy × DownloadRange)}
    (hapart : recorded.Pairwise Apart) {r : BufferCopy × DownloadRange} (hr : r ∈ recorded)
    (device : Owner → ℕ → UInt8) (stream : ℕ → UInt8) {i : ℕ} (hi : i < r.1.size) :
    execute device (recorded.map Prod.fst) stream (r.1.destinationOffset + i) =
      device r.1.owner (r.1.sourceOffset + i) := by
  rw [execute_eq_storeAll]
  refine storeAll_of_agree ?_ ?_
  · exact List.mem_flatMap.2 ⟨r.1, List.mem_map_of_mem hr, mem_copyStores.2 ⟨i, hi, rfl⟩⟩
  · intro store hstore hplace
    obtain ⟨command, hcommand, hcopy⟩ := List.mem_flatMap.1 hstore
    obtain ⟨r', hr', rfl⟩ := List.mem_map.1 hcommand
    obtain ⟨j, hj, rfl⟩ := mem_copyStores.1 hcopy
    dsimp only at hplace
    -- two slots that share a byte are one
    have hsame : r' = r := by
      by_contra hne
      let either (r r' : BufferCopy × DownloadRange) : Prop := Apart r r' ∨ Apart r' r
      have hsymm : Std.Symm either := ⟨fun _ _ => Or.symm⟩
      have heither : recorded.Pairwise either := hapart.imp Or.inl
      rcases heither.forall hr' hr hne with h | h
      all_goals
        unfold Apart at h
        omega
    subst hsame
    rw [Nat.add_left_cancel hplace]

/-! ### The backing -/

/-- The entries of the backing store, which are disjoint, and the size of the backing. -/
structure GuestMap where
  maps : MapEntries
  disjoint : GuestAddressSpace.Disjoint maps
  backingSize : ℕ

/-- The position of the backing that has the byte of an address. -/
def GuestMap.position (guest : GuestMap) (a : ℕ) : Option ℕ := offsetAt guest.maps a

/-- The byte of the guest at an address. -/
def GuestMap.byte (guest : GuestMap) (backing : ℕ → UInt8) (a : ℕ) : Option UInt8 :=
  (guest.position a).map backing

/-- The range has bytes, ends in the address space, and is backed. -/
def GuestMap.Backs (guest : GuestMap) (address size : ℕ) : Prop :=
  0 < size ∧ address + size ≤ uint64Max ∧
    ∀ i < size, ∃ p, guest.position (address + i) = some p ∧ p < guest.backingSize

/-- The stores of the bytes `first`, …, `first + count - 1` that go to the range at `address`. -/
def GuestMap.storesFrom (guest : GuestMap) (address first count : ℕ) (source : ℕ → UInt8) :
    List (ℕ × UInt8) :=
  (List.range' first count).filterMap fun i =>
    (guest.position (address + i)).map fun p => (p, source i)

/-- The stores of a range of the guest's memory. -/
def GuestMap.stores (guest : GuestMap) (address size : ℕ) (source : ℕ → UInt8) :
    List (ℕ × UInt8) :=
  guest.storesFrom address 0 size source

theorem GuestMap.mem_stores {guest : GuestMap} {address size : ℕ} {source : ℕ → UInt8}
    {store : ℕ × UInt8} :
    store ∈ guest.stores address size source ↔
      ∃ i < size, guest.position (address + i) = some store.1 ∧ store.2 = source i := by
  unfold stores storesFrom
  simp only [List.mem_filterMap, List.mem_range'_1, Nat.zero_le, true_and, Nat.zero_add,
    Option.map_eq_some_iff]
  constructor
  · rintro ⟨i, hi, p, hp, rfl⟩
    exact ⟨i, hi, hp, rfl⟩
  · rintro ⟨i, hi, hp, hv⟩
    exact ⟨i, hi, store.1, hp, Prod.ext rfl hv.symm⟩

theorem GuestMap.storesFrom_congr {guest : GuestMap} {address first count : ℕ}
    {source source' : ℕ → UInt8}
    (h : ∀ i, first ≤ i → i < first + count → source i = source' i) :
    guest.storesFrom address first count source = guest.storesFrom address first count source' := by
  refine List.filterMap_congr fun i hi => ?_
  obtain ⟨hle, hlt⟩ := List.mem_range'_1.1 hi
  rw [h i hle hlt]

theorem GuestMap.storesFrom_add (guest : GuestMap) (address first count count' : ℕ)
    (source : ℕ → UInt8) :
    guest.storesFrom address first (count + count') source =
      guest.storesFrom address first count source ++
        guest.storesFrom address (first + count) count' source := by
  unfold storesFrom
  rw [← List.range'_append_1, List.filterMap_append]

/-- What the entry that is found for an address says about the addresses behind it. -/
theorem GuestMap.position_of_find {guest : GuestMap} {a b : ℕ} {entry : MapEntry}
    (h : findContainingUnlocked guest.maps a = some entry) (hle : a ≤ b)
    (hlt : b < entry.vaddr + entry.size) :
    entry.vaddr ≤ a ∧ guest.position b = some (entry.backingOffset + (b - entry.vaddr)) := by
  obtain ⟨hmem, hfirst, -⟩ := guest.disjoint.entryAt_iff.1 (guest.disjoint.find_iff.1 h)
  have hentry := guest.disjoint.entryAt_iff.2 ⟨hmem, hfirst.trans hle, hlt⟩
  refine ⟨hfirst, ?_⟩
  unfold position offsetAt
  rw [hentry]
  rfl

/-- A part of a transfer: the stores of its addresses, by one entry. -/
theorem GuestMap.storesFrom_part {guest : GuestMap} {vaddr current count : ℕ} {entry : MapEntry}
    (h : findContainingUnlocked guest.maps current = some entry) (hle : vaddr ≤ current)
    (hlt : current + count ≤ entry.vaddr + entry.size) (source : ℕ → UInt8) :
    guest.storesFrom vaddr (current - vaddr) count source =
      copyStores count (current - vaddr) (entry.backingOffset + current - entry.vaddr) source := by
  unfold storesFrom copyStores
  rw [List.range'_eq_map_range, List.filterMap_map]
  refine List.filterMap_eq_map_iff_forall_eq_some.2 fun i hi => ?_
  have hi' := List.mem_range.1 hi
  obtain ⟨hfirst, hposition⟩ := position_of_find h (b := current + i) (by omega) (by omega)
  have haddress : vaddr + (current - vaddr + i) = current + i := by omega
  show (guest.position (vaddr + (current - vaddr + i))).map _ = _
  rw [haddress, hposition]
  have hoffset : entry.backingOffset + (current + i - entry.vaddr) =
      entry.backingOffset + current - entry.vaddr + i := by omega
  rw [hoffset]
  rfl

/-- The second loop of `TryTransferBacking`. -/
theorem GuestMap.transfer_eq (guest : GuestMap) {vaddr last : ℕ} (source : ℕ → UInt8)
    {current : ℕ} (hle : vaddr ≤ current) (hlast : current ≤ last)
    {parts : List (MapEntry × ℕ)}
    (hwalk : walk (findContainingUnlocked guest.maps) (fun entry => entry.vaddr + entry.size) last
      current = some parts) (backing : ℕ → UInt8) :
    parts.foldl (fun backing (entry, current) =>
        copyObject (min last (entry.vaddr + entry.size) - current) (current - vaddr)
          (entry.backingOffset + current - entry.vaddr) source backing) backing =
      storeAll (guest.storesFrom vaddr (current - vaddr) (last - current) source) backing := by
  induction current using Prosperismo.GuestAddressSpace.walk.induct
      (fun entry : MapEntry => entry.vaddr + entry.size) last
    generalizing parts backing with
  | case1 current hlt ih =>
    rw [walk, if_pos hlt] at hwalk
    obtain ⟨entry, hfind, hwalk⟩ := Option.bind_eq_some_iff.1 hwalk
    split at hwalk
    · next hstop =>
      obtain ⟨rest, hrest, rfl⟩ := Option.map_eq_some_iff.1 hwalk
      have hcount : last - current = min last (entry.vaddr + entry.size) - current +
          (last - min last (entry.vaddr + entry.size)) := by omega
      have hnext : current - vaddr + (min last (entry.vaddr + entry.size) - current) =
          min last (entry.vaddr + entry.size) - vaddr := by omega
      rw [List.foldl_cons, ih entry hstop (by omega) (by omega) hrest]
      dsimp only
      rw [copyObject_eq_storeAll, hcount, guest.storesFrom_add, storeAll_append, hnext,
        storesFrom_part hfind hle (by omega)]
    · cases hwalk
  | case2 current hnot =>
    rw [walk, if_neg hnot] at hwalk
    cases hwalk
    have hzero : last - current = 0 := by omega
    rw [hzero]
    rfl

/-- The first loop of `TryTransferBacking`. -/
theorem GuestMap.transfer_ok (guest : GuestMap) {last current : ℕ} {parts : List (MapEntry × ℕ)}
    (hwalk : walk (findContainingUnlocked guest.maps) (fun entry => entry.vaddr + entry.size) last
      current = some parts) :
    (parts.all fun (entry, current) =>
        rangeOk guest.backingSize (entry.backingOffset + current - entry.vaddr)
          (min last (entry.vaddr + entry.size) - current)) = true ↔
      ∀ a, current ≤ a → a < last → ∃ p, guest.position a = some p ∧ p < guest.backingSize := by
  induction current using Prosperismo.GuestAddressSpace.walk.induct
      (fun entry : MapEntry => entry.vaddr + entry.size) last
    generalizing parts with
  | case1 current hlt ih =>
    rw [walk, if_pos hlt] at hwalk
    obtain ⟨entry, hfind, hwalk⟩ := Option.bind_eq_some_iff.1 hwalk
    split at hwalk
    · next hstop =>
      obtain ⟨rest, hrest, rfl⟩ := Option.map_eq_some_iff.1 hwalk
      rw [List.all_cons, Bool.and_eq_true, ih entry hstop hrest]
      have hfirst := (position_of_find hfind le_rfl hstop).1
      unfold rangeOk
      rw [decide_eq_true_iff]
      constructor
      · rintro ⟨hpart, hall⟩ a hle ha
        by_cases hin : a < entry.vaddr + entry.size
        · exact ⟨_, (position_of_find hfind hle hin).2, by omega⟩
        · exact hall a (by omega) ha
      · intro hall
        refine ⟨?_, fun a hle ha => hall a (by omega) ha⟩
        -- the last byte of the part has a position in the backing
        have hend : min last (entry.vaddr + entry.size) - 1 < entry.vaddr + entry.size := by omega
        obtain ⟨p, hp, hbound⟩ :=
          hall (min last (entry.vaddr + entry.size) - 1) (by omega) (by omega)
        obtain rfl := Option.some.inj (hp.symm.trans (position_of_find hfind (by omega) hend).2)
        omega
    · cases hwalk
  | case2 current hnot =>
    rw [walk, if_neg hnot] at hwalk
    cases hwalk
    exact ⟨fun _ a hle ha => absurd (hle.trans_lt ha) hnot, fun _ => rfl⟩

/-- The first loop finds an entry for every address that has a position. -/
theorem GuestMap.walk_isSome {guest : GuestMap} {vaddr size : ℕ} (h : guest.Backs vaddr size) :
    ∃ parts, walk (findContainingUnlocked guest.maps) (fun entry => entry.vaddr + entry.size)
      (vaddr + size) vaddr = some parts := by
  refine Option.isSome_iff_exists.1 ?_
  refine (GuestAddressSpace.walk_isSome_iff _ _ (fun a => guest.position a ≠ none) ?_ ?_
    (vaddr + size) vaddr).2 ?_
  · intro a hnone hposition
    exact hposition (Option.map_eq_none_iff.2 (guest.disjoint.find_none hnone))
  · intro a entry hfind
    have hlt := (guest.disjoint.entryAt_iff.1 (guest.disjoint.find_iff.1 hfind)).2.2
    refine ⟨hlt, fun b hle hb => ?_⟩
    rw [(position_of_find hfind hle hb).2]
    exact Option.some_ne_none _
  · intro a hle hlt
    obtain ⟨i, rfl⟩ := Nat.exists_eq_add_of_le hle
    obtain ⟨p, hp, -⟩ := h.2.2 i (by omega)
    exact hp ▸ Option.some_ne_none p

/-- **`WriteBacking`** writes exactly the bytes of a range that is backed. -/
theorem writeBacking_eq_some {guest : GuestMap} {vaddr size : ℕ} {source backing : ℕ → UInt8}
    {backing' : ℕ → UInt8} :
    writeBacking guest.maps guest.backingSize vaddr source size backing = some backing' ↔
      guest.Backs vaddr size ∧ backing' = storeAll (guest.stores vaddr size source) backing := by
  have htransfer : ∀ parts, walk (findContainingUnlocked guest.maps)
      (fun entry => entry.vaddr + entry.size) (vaddr + size) vaddr = some parts → _ :=
    fun parts hwalk => guest.transfer_eq source le_rfl (Nat.le_add_right vaddr size) hwalk backing
  rw [Nat.sub_self, Nat.add_sub_cancel_left] at htransfer
  constructor
  · intro h
    unfold writeBacking at h
    split at h
    · cases h
    · next hrange =>
      dsimp only at h
      split at h
      · cases h
      · next parts hwalk =>
        split at h
        · next hok =>
          rw [htransfer parts hwalk] at h
          refine ⟨⟨by omega, by omega, fun i hi => ?_⟩, (Option.some.inj h).symm⟩
          exact (guest.transfer_ok hwalk).1 hok (vaddr + i) (by omega) (by omega)
        · cases h
  · rintro ⟨hbacks, rfl⟩
    obtain ⟨parts, hwalk⟩ := GuestMap.walk_isSome hbacks
    obtain ⟨hpos, hend, hall⟩ := hbacks
    have hok := (guest.transfer_ok hwalk).2 fun a hle hlt => by
      obtain ⟨i, rfl⟩ := Nat.exists_eq_add_of_le hle
      exact hall i (by omega)
    unfold writeBacking
    rw [if_neg (by omega)]
    dsimp only
    rw [hwalk]
    dsimp only
    rw [if_pos hok, htransfer parts hwalk]
    rfl

/-! ### Publishing -/

/-- **`PublishDownloads`** writes exactly the bytes of its ranges, in their order. -/
theorem publishDownloads_eq_some {guest : GuestMap} {streamSize : ℕ} {mapped : ℕ → UInt8}
    {downloads : List DownloadRange}
    (hinside : ∀ range ∈ downloads, range.offset + range.size ≤ streamSize)
    {backing backing' : ℕ → UInt8} :
    publishDownloads guest.maps guest.backingSize streamSize mapped downloads backing =
        some backing' ↔
      (∀ range ∈ downloads, guest.Backs range.address range.size) ∧
        backing' = storeAll (downloads.flatMap fun range =>
          guest.stores range.address range.size fun i => mapped (range.offset + i)) backing := by
  induction downloads generalizing backing with
  | nil =>
    constructor
    · intro h
      exact ⟨fun range hrange => absurd hrange List.not_mem_nil, (Option.some.inj h).symm⟩
    · rintro ⟨-, rfl⟩
      rfl
  | cons range downloads ih =>
    obtain ⟨hrange, hrest⟩ := List.forall_mem_cons.1 hinside
    rw [publishDownloads, if_neg (by omega), Option.bind_eq_some_iff, List.flatMap_cons,
      storeAll_append, List.forall_mem_cons]
    constructor
    · rintro ⟨middle, hwrite, hpublish⟩
      obtain ⟨hbacks, rfl⟩ := writeBacking_eq_some.1 hwrite
      obtain ⟨hall, rfl⟩ := (ih hrest).1 hpublish
      exact ⟨⟨hbacks, hall⟩, rfl⟩
    · rintro ⟨⟨hbacks, hall⟩, rfl⟩
      exact ⟨_, writeBacking_eq_some.2 ⟨hbacks, rfl⟩, (ih hrest).2 ⟨hall, rfl⟩⟩

/-! ### The bytes of a batch -/

/-- The bytes of a copy in its owner. -/
def DownloadCopy.bytes (copy : DownloadCopy) (device : Owner → ℕ → UInt8) (i : ℕ) : UInt8 :=
  match copy.owner with
  | none => 0
  | some owner => device owner (copy.sourceOffset + i)

/-- The stores of a batch: for each copy, each of its bytes at its address. -/
def batchStores (guest : GuestMap) (device : Owner → ℕ → UInt8) (copies : List DownloadCopy) :
    List (ℕ × UInt8) :=
  copies.flatMap fun copy => guest.stores copy.address copy.size (copy.bytes device)

/-- What the publication of a batch does to the guest's memory. -/
structure Moved (guest : GuestMap) (device : Owner → ℕ → UInt8) (copies : List DownloadCopy)
    (backing backing' : ℕ → UInt8) : Prop where
  /-- The bytes are written in the order of the copies, and nothing else is. -/
  stores : backing' = storeAll (batchStores guest device copies) backing
  /-- An address that shares its position with no address of a copy keeps its byte. -/
  untouched : ∀ a, (∀ copy ∈ copies, ∀ i < copy.size,
    guest.position (copy.address + i) ≠ guest.position a) →
      guest.byte backing' a = guest.byte backing a
  /-- An address of a copy has the byte of the owner, unless another byte of the batch has the
  same position. -/
  moved : ∀ copy ∈ copies, ∀ i < copy.size, (∀ copy' ∈ copies, ∀ j < copy'.size,
    guest.position (copy'.address + j) = guest.position (copy.address + i) →
      copy'.bytes device j = copy.bytes device i) →
      guest.byte backing' (copy.address + i) = some (copy.bytes device i)

/-- What follows from the list of the stores. -/
theorem Moved.of_stores {guest : GuestMap} {device : Owner → ℕ → UInt8}
    {copies : List DownloadCopy} {backing : ℕ → UInt8}
    (hbacks : ∀ copy ∈ copies, guest.Backs copy.address copy.size) :
    Moved guest device copies backing (storeAll (batchStores guest device copies) backing) where
  stores := rfl
  untouched a ha := by
    unfold GuestMap.byte
    cases hposition : guest.position a with
    | none => rfl
    | some p =>
      refine congrArg some (storeAll_of_not_mem fun store hstore hp => ?_)
      obtain ⟨copy, hcopy, hstore⟩ := List.mem_flatMap.1 hstore
      obtain ⟨i, hi, hplace, -⟩ := GuestMap.mem_stores.1 hstore
      exact ha copy hcopy i hi (by rw [hplace, hp, hposition])
  moved copy hcopy i hi hagree := by
    obtain ⟨p, hp, -⟩ := (hbacks copy hcopy).2.2 i hi
    unfold GuestMap.byte
    rw [hp]
    refine congrArg some (storeAll_of_agree ?_ ?_)
    · exact List.mem_flatMap.2 ⟨copy, hcopy, GuestMap.mem_stores.2 ⟨i, hi, hp, rfl⟩⟩
    · rintro store hstore rfl
      obtain ⟨copy', hcopy', hstore⟩ := List.mem_flatMap.1 hstore
      obtain ⟨j, hj, hplace, hv⟩ := GuestMap.mem_stores.1 hstore
      exact hv.trans (hagree copy' hcopy' j hj (hplace.trans hp.symm))

/-- The range of a copy in the stream is inside of its slot. -/
theorem Enveloped.inside {range : Range} {copy : DownloadCopy}
    {recorded : BufferCopy × DownloadRange} (h : Enveloped range copy recorded) :
    recorded.2.offset + recorded.2.size ≤ range.last := by
  have hle := h.source_le
  have hsource := h.le_source
  have hlast := h.le_last
  rw [h.download]
  dsimp only
  omega

/-- The stream has the bytes of a copy where its range is, as long as it has what the copies have
left there. -/
theorem Enveloped.bytes {range : Range} {copy : DownloadCopy}
    {recorded : BufferCopy × DownloadRange} (h : Enveloped range copy recorded)
    {device : Owner → ℕ → UInt8} {mapped : ℕ → UInt8}
    (hmapped : ∀ i < recorded.1.size, mapped (recorded.1.destinationOffset + i) =
      device recorded.1.owner (recorded.1.sourceOffset + i)) {i : ℕ} (hi : i < copy.size) :
    mapped (recorded.2.offset + i) = copy.bytes device i := by
  have hle := h.source_le
  have hsource := h.le_source
  have hprefix := hmapped (copy.sourceOffset - recorded.1.sourceOffset + i) (by omega)
  have hoffset : recorded.1.sourceOffset + (copy.sourceOffset - recorded.1.sourceOffset + i) =
      copy.sourceOffset + i := by omega
  rw [hoffset, ← Nat.add_assoc] at hprefix
  unfold DownloadCopy.bytes
  rw [h.download, h.owner]
  exact hprefix

/-- The ranges that are published say the same as the copies. -/
theorem downloads_eq_batchStores {guest : GuestMap} {range : Range} {copies : List DownloadCopy}
    {recorded : List (BufferCopy × DownloadRange)}
    (henveloped : List.Forall₂ (Enveloped range) copies recorded)
    {device : Owner → ℕ → UInt8} {mapped : ℕ → UInt8}
    (hmapped : ∀ r ∈ recorded, ∀ i < r.1.size, mapped (r.1.destinationOffset + i) =
      device r.1.owner (r.1.sourceOffset + i)) :
    ((∀ range ∈ recorded.map Prod.snd, guest.Backs range.address range.size) ↔
      ∀ copy ∈ copies, guest.Backs copy.address copy.size) ∧
    ((recorded.map Prod.snd).flatMap fun range =>
      guest.stores range.address range.size fun i => mapped (range.offset + i)) =
        batchStores guest device copies := by
  induction henveloped with
  | nil =>
    exact ⟨⟨fun _ copy hcopy => absurd hcopy List.not_mem_nil,
      fun _ range hrange => absurd hrange List.not_mem_nil⟩, rfl⟩
  | @cons copy r copies recorded hfirst _ ih =>
    obtain ⟨hmapped, hrest⟩ := List.forall_mem_cons.1 hmapped
    obtain ⟨hbacks, hstores⟩ := ih hrest
    have haddress : r.2.address = copy.address := by rw [hfirst.download]
    have hsize : r.2.size = copy.size := by rw [hfirst.download]
    constructor
    · rw [List.map_cons, List.forall_mem_cons, List.forall_mem_cons, hbacks, haddress, hsize]
    · rw [List.map_cons, List.flatMap_cons, hstores, haddress, hsize]
      unfold batchStores
      rw [List.flatMap_cons]
      congr 1
      exact GuestMap.storesFrom_congr fun i _ hi =>
        hfirst.bytes hmapped ((Nat.zero_add copy.size) ▸ hi)

/-! ### The result -/

/-- **Downloads move exactly the dirty bytes.** For every state of the download stream and every
list of copies: a batch is recorded exactly if every envelope is inside of its owner and the slots
have room in the stream, and the program stops otherwise. The slots of a batch are aligned to
dwords, apart, and inside of one reservation. When the batch is published, after the GPU has
executed its copies and before the slots are used again, the guest's memory gets the bytes of the
copies from their owners, and no other byte of it changes; the program stops if the guest has no
backing for a byte. -/
theorem downloads_move_dirty_bytes (stream : DownloadStream) (gpuTick currentTick : ℕ)
    (gpu : ℕ → ℕ) (copies : List DownloadCopy) :
    ((recordDownloads stream.buffer stream.ring gpuTick currentTick gpu copies).isSome ↔
      (∀ copy ∈ copies, copy.Inside) ∧ batchSize copies ≤ downloadSize) ∧
    ∀ batch, recordDownloads stream.buffer stream.ring gpuTick currentTick gpu copies =
        some batch →
      (∃ range, Slotted stream gpuTick gpu copies batch range) ∧
      ∀ (guest : GuestMap) (device : Owner → ℕ → UInt8) (contents mapped : ℕ → UInt8),
        (∀ command ∈ batch.commands, ∀ i < command.size,
          mapped (command.destinationOffset + i) =
            execute device batch.commands contents (command.destinationOffset + i)) →
        ∀ backing,
          ((publishDownloads guest.maps guest.backingSize stream.buffer.size mapped batch.downloads
            backing).isSome ↔ ∀ copy ∈ copies, guest.Backs copy.address copy.size) ∧
          ∀ backing', publishDownloads guest.maps guest.backingSize stream.buffer.size mapped
              batch.downloads backing = some backing' →
            Moved guest device copies backing backing' := by
  refine ⟨recordDownloads_isSome stream gpuTick currentTick gpu copies, fun batch hbatch => ?_⟩
  have hfits := fits_of_recordDownloads hbatch
  obtain ⟨batch', range, hrecorded, hslotted⟩ := hfits.recorded stream gpuTick currentTick gpu
  obtain rfl : batch' = batch := Option.some.inj (hrecorded.symm.trans hbatch)
  refine ⟨⟨range, hslotted⟩, fun guest device contents mapped hmapped backing => ?_⟩
  have hslots : ∀ r ∈ batch'.recorded, ∀ i < r.1.size,
      mapped (r.1.destinationOffset + i) = device r.1.owner (r.1.sourceOffset + i) := by
    intro r hr i hi
    rw [hmapped r.1 (List.mem_map_of_mem hr) i hi]
    exact execute_slot hslotted.apart hr device contents hi
  obtain ⟨hbacks, hstores⟩ :=
    @downloads_eq_batchStores guest range copies batch'.recorded hslotted.enveloped device mapped
      hslots
  have hinside : ∀ download ∈ batch'.downloads,
      download.offset + download.size ≤ stream.buffer.size := by
    intro download hdownload
    obtain ⟨r, hr, rfl⟩ := List.mem_map.1 hdownload
    obtain ⟨copy, hcopy, henveloped⟩ := exists_enveloped hslotted.enveloped hr
    exact henveloped.inside.trans (hslotted.reserved (List.ne_nil_of_mem hcopy)).inside
  have hpublish : ∀ backing', publishDownloads guest.maps guest.backingSize stream.buffer.size
      mapped batch'.downloads backing = some backing' ↔
        (∀ copy ∈ copies, guest.Backs copy.address copy.size) ∧
          backing' = storeAll (batchStores guest device copies) backing := by
    intro backing'
    rw [publishDownloads_eq_some hinside, ← hstores, ← hbacks]
    rfl
  refine ⟨⟨fun h => ?_, fun h => ?_⟩, fun backing' h => ?_⟩
  · obtain ⟨backing', h⟩ := Option.isSome_iff_exists.1 h
    exact ((hpublish backing').1 h).1
  · exact Option.isSome_iff_exists.2 ⟨_, (hpublish _).2 ⟨h, rfl⟩⟩
  · obtain ⟨hall, rfl⟩ := (hpublish backing').1 h
    exact .of_stores hall

/-- A download stream before its first use, whose memory is coherent. -/
def DownloadStream.new : DownloadStream where
  buffer := ⟨downloadSize, true, true, 64⟩
  ring := .new
  mapped := rfl
  size_eq := rfl
  atom_dvd := ⟨4, rfl⟩
  offset_le := Nat.zero_le _

/-- Two copies that are not aligned: bytes 5 to 11 of a page, and its last byte. -/
example : (recordDownloads DownloadStream.new.buffer DownloadStream.new.ring 0 1 (fun _ => 0)
    [⟨some ⟨0, 4096, by decide⟩, 5, 0x2005, 7⟩, ⟨some ⟨0, 4096, by decide⟩, 4095, 0x2fff, 1⟩]).map
      Batch.downloads = some [⟨0x2005, 7, 1⟩, ⟨0x2fff, 1, 67⟩] := by
  rfl

/-- A copy of a whole owner of 32 MiB and a dword. -/
def wideCopy : DownloadCopy where
  owner := some ⟨0, downloadSize + 4, by
    unfold downloadSize uint64Max
    omega⟩
  sourceOffset := 0
  address := 0x1000
  size := downloadSize + 4

/-- **A batch that does not fit the stream.** The copy is inside of its owner, but the program
stops. -/
theorem wideCopy_refused :
    (∃ owner, wideCopy.owner = some owner ∧ wideCopy.sourceOffset + wideCopy.size ≤ owner.size ∧
      0 < wideCopy.size ∧ 4 ∣ owner.size) ∧
    recordDownloads DownloadStream.new.buffer DownloadStream.new.ring 0 1 (fun _ => 0) [wideCopy] =
      none := by
  constructor
  · refine ⟨_, rfl, ?_, ?_, ⟨8388609, rfl⟩⟩
    all_goals
      unfold wideCopy downloadSize
      dsimp only
      omega
  · refine Option.not_isSome_iff_eq_none.1 fun h => ?_
    obtain ⟨-, hroom⟩ := (recordDownloads_isSome DownloadStream.new 0 1 _ _).1 h
    unfold batchSize alignDownload wideCopy DownloadCopy.envelopeSize DownloadCopy.last downloadSize
      downloadAlignment at hroom
    simp at hroom

end Prosperismo.BufferCache
