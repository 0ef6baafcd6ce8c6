import Mathlib.Data.List.Forall2
import Mathlib.Data.List.Pairwise
import Mathlib.Order.Lattice.Nat
import Prosperismo.BufferCache.Model
import Prosperismo.StreamBuffer.Disjoint

/-!
# The slots of a batch

Both loops of `RecordDownloads` go over the same envelopes, so what the second one needs is what
the first one has summed up (`batchSize`), and no check of the second loop fails.

* `downloadEnvelope_eq`: the envelope is there exactly if it is inside of the owner
  (`Inside`); for an owner that consists of whole dwords this says that the copy is.
* `reservationSize_eq_some`, `reservationSize_of_le`: the first loop.
* `DownloadStream.map`: the reservation. It is refused only if it is larger than the stream.
* `recordCopies_spec`: the second loop. Each copy has its slot (`Enveloped`), and the slots come
  one after another.
-/

namespace Prosperismo.BufferCache

open StreamBuffer (Ring alignUp alignUp_spec normalizeReservation normalizeReservation_spec
  uint64Max)

/-! ### Envelopes -/

/-- The end of the envelope in the owner. -/
def DownloadCopy.last (copy : DownloadCopy) : ℕ := (copy.sourceOffset + copy.size + 3) / 4 * 4

/-- The size of the envelope. -/
def DownloadCopy.envelopeSize (copy : DownloadCopy) : ℕ :=
  copy.last - copy.sourceOffset / 4 * 4

/-- The copy has bytes, and its envelope is inside of its owner. -/
def DownloadCopy.Inside (copy : DownloadCopy) : Prop :=
  0 < copy.size ∧ ∃ owner, copy.owner = some owner ∧ copy.last ≤ owner.size

/-- **`DownloadEnvelope`**. -/
theorem downloadEnvelope_eq_some {copy : DownloadCopy} {envelope : ℕ × ℕ} :
    downloadEnvelope copy = some envelope ↔
      copy.Inside ∧ envelope = (copy.sourceOffset / 4 * 4, copy.envelopeSize) := by
  unfold downloadEnvelope DownloadCopy.Inside DownloadCopy.envelopeSize
  cases howner : copy.owner with
  | none =>
    dsimp only
    constructor
    · intro h
      cases h
    · rintro ⟨⟨-, owner, h, -⟩, -⟩
      cases h
  | some owner =>
    have hlast : copy.sourceOffset + copy.size ≤ copy.last := by
      unfold DownloadCopy.last
      omega
    have hle := owner.size_le
    dsimp only
    split
    · next hout =>
      constructor
      · intro h
        cases h
      · rintro ⟨⟨hsize, other, hother, hinside⟩, -⟩
        cases hother
        omega
    · next hin =>
      have hdword : 4 ∣ copy.last := Nat.dvd_mul_left 4 _
      split
      · -- the end of the envelope would not be in range, so it is not inside either
        next hwide =>
        constructor
        · intro h
          cases h
        · rintro ⟨⟨-, other, hother, hinside⟩, -⟩
          cases hother
          unfold uint64Max at hwide hle
          omega
      · split
        · next hend =>
          constructor
          · intro h
            cases h
          · rintro ⟨⟨-, other, hother, hinside⟩, -⟩
            cases hother
            exact absurd hinside (not_le.2 hend)
        · next hend =>
          constructor
          · intro h
            exact ⟨⟨by omega, owner, rfl, not_lt.1 hend⟩, (Option.some.inj h).symm⟩
          · rintro ⟨-, rfl⟩
            rfl

/-! ### The first loop -/

/-- The bytes of the stream that a batch needs. -/
def batchSize (copies : List DownloadCopy) : ℕ :=
  (copies.map fun copy => alignDownload copy.envelopeSize).sum

@[simp] theorem batchSize_nil : batchSize [] = 0 := rfl

@[simp] theorem batchSize_cons (copy : DownloadCopy) (copies : List DownloadCopy) :
    batchSize (copy :: copies) = alignDownload copy.envelopeSize + batchSize copies :=
  List.sum_cons

theorem le_alignDownload (size : ℕ) : size ≤ alignDownload size := by
  unfold alignDownload downloadAlignment
  omega

theorem dvd_alignDownload (size : ℕ) : downloadAlignment ∣ alignDownload size :=
  Nat.dvd_mul_left _ _

/-- What the first loop has if it comes to its end. -/
theorem reservationSize_eq_some {copies : List DownloadCopy} {reserved result : ℕ}
    (h : reservationSize copies reserved = some result) :
    (∀ copy ∈ copies, copy.Inside) ∧ result = reserved + batchSize copies := by
  induction copies generalizing reserved with
  | nil => exact ⟨fun copy hcopy => absurd hcopy List.not_mem_nil, (Option.some.inj h).symm⟩
  | cons copy copies ih =>
    rw [reservationSize] at h
    split at h
    · cases h
    · next first size henvelope =>
      obtain ⟨hinside, heq⟩ := downloadEnvelope_eq_some.1 henvelope
      obtain ⟨-, rfl⟩ := Prod.mk.inj heq
      split at h
      · cases h
      · split at h
        · cases h
        · obtain ⟨hall, rfl⟩ := ih h
          refine ⟨List.forall_mem_cons.2 ⟨hinside, hall⟩, ?_⟩
          rw [batchSize_cons, Nat.add_assoc]

/-- The first loop comes to its end if the sum is in range, with some room. -/
theorem reservationSize_of_le {copies : List DownloadCopy} {reserved : ℕ}
    (hinside : ∀ copy ∈ copies, copy.Inside)
    (hle : reserved + batchSize copies + downloadAlignment ≤ uint64Max) :
    reservationSize copies reserved = some (reserved + batchSize copies) := by
  induction copies generalizing reserved with
  | nil => rfl
  | cons copy copies ih =>
    obtain ⟨hcopy, hall⟩ := List.forall_mem_cons.1 hinside
    have hsize := le_alignDownload copy.envelopeSize
    rw [batchSize_cons] at hle ⊢
    rw [reservationSize, downloadEnvelope_eq_some.2 ⟨hcopy, rfl⟩]
    dsimp only
    rw [if_neg (by omega), if_neg (by omega), ih hall (by omega), Nat.add_assoc]

/-- A batch with a copy needs a slot. -/
theorem batchSize_pos {copies : List DownloadCopy} (hinside : ∀ copy ∈ copies, copy.Inside)
    (hne : copies ≠ []) : 0 < batchSize copies := by
  obtain ⟨copy, rest, rfl⟩ := List.exists_cons_of_ne_nil hne
  have hpos := (hinside copy List.mem_cons_self).1
  have hle := le_alignDownload copy.envelopeSize
  have henvelope : 0 < copy.envelopeSize := by
    unfold DownloadCopy.envelopeSize DownloadCopy.last
    omega
  rw [batchSize_cons]
  omega

/-! ### The reservation -/

/-- 32 MiB, what the constructor of the cache gives the download stream. -/
def downloadSize : ℕ := 32 * 1024 * 1024

/-- The download stream: memory of the given size that is mapped to the host. The device promises
that its atom is a power of two and not above 256. No range that was handed out has ended behind
the stream. -/
structure DownloadStream where
  buffer : StreamBuffer.Buffer
  ring : Ring
  mapped : buffer.mapped = true
  size_eq : buffer.size = downloadSize
  atom_dvd : buffer.atom ∣ 256
  offset_le : ring.offset ≤ buffer.size

/-- Rounding up stays below every bound that is a multiple. -/
theorem alignUp_le {value alignment result bound : ℕ} (h : alignUp value alignment = some result)
    (hle : value ≤ bound) (hdvd : alignment ∣ bound) : result ≤ bound := by
  unfold alignUp at h
  split at h
  · exact Option.some.inj h ▸ hle
  · split at h
    · exact Option.some.inj h ▸ hle
    · next hne hmod =>
      split at h
      · cases h
      · obtain rfl := Option.some.inj h
        -- a bound that is a multiple is not in the middle of a step
        obtain ⟨n, rfl⟩ := hdvd
        have hdiv := Nat.div_add_mod value alignment
        have hlt : value / alignment < n := by
          refine (Nat.div_lt_iff_lt_mul (Nat.pos_of_ne_zero hne)).2 ?_
          refine lt_of_le_of_ne (Nat.mul_comm alignment n ▸ hle) fun heq => hmod ?_
          rw [heq, Nat.mul_mod_left]
        have hstep : alignment * (value / alignment + 1) ≤ alignment * n :=
          Nat.mul_le_mul_left _ hlt
        rw [Nat.mul_add, Nat.mul_one] at hstep
        have hmodlt := Nat.mod_lt value (Nat.pos_of_ne_zero hne)
        omega

/-- Rounding up comes to a result where the next multiple is in range. -/
theorem alignUp_isSome {value alignment : ℕ} (h : value + alignment ≤ uint64Max) :
    ∃ result, alignUp value alignment = some result := by
  unfold alignUp
  split
  · exact ⟨_, rfl⟩
  · split
    · exact ⟨_, rfl⟩
    · rw [if_neg (by omega)]
      exact ⟨_, rfl⟩

/-- A reservation that fits the stream does so when it is rounded up to atoms. -/
theorem DownloadStream.normalize (stream : DownloadStream) {size : ℕ} (hsize : size ≤ downloadSize) :
    ∃ mappedSize alignment, normalizeReservation stream.buffer.coherent stream.buffer.atom size
      downloadAlignment = some (mappedSize, alignment) ∧ mappedSize ≤ downloadSize ∧
      alignment ≤ 64 * 256 := by
  have hatom : stream.buffer.atom ≤ 256 := Nat.le_of_dvd (by omega) stream.atom_dvd
  unfold normalizeReservation
  split
  · refine ⟨size, downloadAlignment, rfl, hsize, ?_⟩
    unfold downloadAlignment
    omega
  · obtain ⟨mappedSize, hmapped⟩ : ∃ mappedSize, alignUp size stream.buffer.atom =
        some mappedSize := by
      refine alignUp_isSome ?_
      unfold downloadSize at hsize
      unfold uint64Max
      omega
    have hquotient : downloadAlignment / Nat.gcd downloadAlignment stream.buffer.atom ≤ 64 :=
      Nat.div_le_self _ _
    have hpos : 0 < stream.buffer.atom := Nat.pos_of_dvd_of_pos stream.atom_dvd (by omega)
    have hroom : 64 ≤ uint64Max / stream.buffer.atom := by
      rw [Nat.le_div_iff_mul_le hpos]
      unfold uint64Max
      omega
    rw [hmapped]
    dsimp only
    rw [if_neg fun hover => absurd (hover.2.trans_le hquotient) (not_lt.2 hroom)]
    refine ⟨mappedSize, _, rfl, ?_, ?_⟩
    · refine alignUp_le hmapped hsize (stream.atom_dvd.trans ?_)
      unfold downloadSize
      exact ⟨131072, rfl⟩
    · rw [if_neg (by unfold downloadAlignment; omega)]
      exact Nat.mul_le_mul hquotient hatom

/-- A `Map` that may wait gets past the watches. -/
theorem waitPending_ok (requested : ℕ) (gpu : ℕ → ℕ) (watches : List StreamBuffer.Watch)
    (waitCursor waitBound gpuTick : ℕ) :
    (StreamBuffer.waitPending requested true gpu watches waitCursor waitBound gpuTick).ok =
      true := by
  induction watches generalizing waitCursor waitBound gpuTick with
  | nil => rfl
  | cons watch watches ih =>
    unfold StreamBuffer.waitPending
    split
    · dsimp only
      rw [if_neg fun h => Bool.false_ne_true h.2]
      exact ih _ _ _
    · rfl

theorem waitPendingOperations_ok (watches : List StreamBuffer.Watch) (mark : Option ℕ)
    (requested waitCursor waitBound gpuTick : ℕ) (gpu : ℕ → ℕ) :
    (StreamBuffer.waitPendingOperations watches mark requested true waitCursor waitBound gpuTick
      gpu).ok = true := by
  cases mark with
  | none => rfl
  | some mark => exact waitPending_ok requested gpu _ waitCursor waitBound gpuTick

/-- A range of the stream: where it begins, and where it ends. -/
structure Range where
  first : ℕ
  last : ℕ

/-- `Map` has handed out the range. -/
structure Handed (stream : DownloadStream) (size : ℕ) (mapped : StreamBuffer.Mapped)
    (range : Range) : Prop where
  offset : mapped.offset = some range.first
  ring : mapped.ring.offset = range.first ∧ range.first + mapped.ring.mappedSize = range.last
  aligned : downloadAlignment ∣ range.first
  fits : range.first + size ≤ range.last
  inside : range.last ≤ stream.buffer.size

/-- **The reservation** is refused only if it is larger than the stream. -/
theorem DownloadStream.map (stream : DownloadStream) {size : ℕ} (hsize : size ≤ downloadSize)
    (gpuTick : ℕ) (gpu : ℕ → ℕ) :
    ∃ range, Handed stream size
      (stream.ring.map stream.buffer size downloadAlignment true gpuTick gpu) range := by
  obtain ⟨mappedSize, alignment, hnormal, hmapped, halignment⟩ := stream.normalize hsize
  obtain ⟨hle, hdvd⟩ := normalizeReservation_spec hnormal
  obtain ⟨hne, hdvd⟩ := hdvd (by unfold downloadAlignment; omega)
  have hoffset := stream.offset_le
  have hstream := stream.size_eq
  obtain ⟨alignedOffset, hup⟩ : ∃ alignedOffset,
      alignUp stream.ring.offset alignment = some alignedOffset := by
    refine alignUp_isSome ?_
    unfold downloadSize at hstream
    unfold uint64Max
    omega
  have haligned : downloadAlignment ∣ alignedOffset := hdvd.trans ((alignUp_spec hup).2 hne)
  unfold Ring.map
  rw [if_neg fun h => Bool.false_ne_true (h.symm.trans stream.mapped), hnormal]
  dsimp only
  have hfits : mappedSize ≤ stream.buffer.size := hstream ▸ hmapped
  rw [if_neg (not_lt.2 hfits), hup]
  dsimp only
  split
  · -- a new lap
    unfold Ring.wrap
    dsimp only
    rw [if_pos (waitPendingOperations_ok _ _ _ _ _ _ _)]
    exact ⟨⟨0, mappedSize⟩, rfl, ⟨rfl, Nat.zero_add _⟩, dvd_zero _, (Nat.zero_add _).trans_le hle,
      hfits⟩
  · next hstay =>
    have hend : alignedOffset + mappedSize ≤ stream.buffer.size := by omega
    unfold Ring.stay
    dsimp only
    rw [if_pos (waitPendingOperations_ok _ _ _ _ _ _ _)]
    exact ⟨⟨alignedOffset, alignedOffset + mappedSize⟩, rfl, ⟨rfl, rfl⟩, haligned,
      Nat.add_le_add_left hle _, hend⟩

/-- A reservation that is larger than the stream. -/
theorem DownloadStream.map_none (stream : DownloadStream) {size : ℕ} (hsize : downloadSize < size)
    (gpuTick : ℕ) (gpu : ℕ → ℕ) :
    (stream.ring.map stream.buffer size downloadAlignment true gpuTick gpu).offset = none := by
  unfold Ring.map
  rw [if_neg fun h => Bool.false_ne_true (h.symm.trans stream.mapped)]
  split
  · rfl
  · next mappedSize alignment hnormal =>
    rw [if_pos]
    exact stream.size_eq ▸ hsize.trans_le (normalizeReservation_spec hnormal).1

/-! ### The second loop -/

/-- What is recorded and returned for a copy, with its slot inside of the range. -/
structure Enveloped (range : Range) (copy : DownloadCopy) (recorded : BufferCopy × DownloadRange) :
    Prop where
  owner : copy.owner = some recorded.1.owner
  /-- Whole dwords are copied. -/
  source_aligned : 4 ∣ recorded.1.sourceOffset
  destination_aligned : 4 ∣ recorded.1.destinationOffset
  size_aligned : 4 ∣ recorded.1.size
  /-- The envelope is inside of the owner. -/
  source_inside : recorded.1.sourceOffset + recorded.1.size ≤ recorded.1.owner.size
  /-- The bytes of the copy are inside of the envelope. -/
  source_le : recorded.1.sourceOffset ≤ copy.sourceOffset
  le_source : copy.sourceOffset + copy.size ≤ recorded.1.sourceOffset + recorded.1.size
  /-- The slot is inside of the reservation. -/
  first_le : range.first ≤ recorded.1.destinationOffset
  le_last : recorded.1.destinationOffset + recorded.1.size ≤ range.last
  /-- In the stream, the bytes have the place in the slot that they have in the envelope. -/
  download : recorded.2 = ⟨copy.address, copy.size,
    recorded.1.destinationOffset + (copy.sourceOffset - recorded.1.sourceOffset)⟩

theorem Enveloped.mono {range range' : Range} {copy : DownloadCopy}
    {recorded : BufferCopy × DownloadRange} (h : Enveloped range copy recorded)
    (hfirst : range'.first ≤ range.first) (hlast : range.last ≤ range'.last) :
    Enveloped range' copy recorded :=
  { h with
    first_le := hfirst.trans h.first_le
    le_last := h.le_last.trans hlast }

/-- One slot ends where a later one begins, or before that. -/
def Apart (recorded later : BufferCopy × DownloadRange) : Prop :=
  recorded.1.destinationOffset + recorded.1.size ≤ later.1.destinationOffset

/-- Whatever is recorded is so for a copy. -/
theorem exists_enveloped {range : Range} {copies : List DownloadCopy}
    {recorded : List (BufferCopy × DownloadRange)}
    (h : List.Forall₂ (Enveloped range) copies recorded) {r : BufferCopy × DownloadRange}
    (hr : r ∈ recorded) : ∃ copy ∈ copies, Enveloped range copy r := by
  induction h with
  | nil => exact absurd hr List.not_mem_nil
  | cons hfirst _ ih =>
    rcases List.mem_cons.1 hr with rfl | hr
    · exact ⟨_, List.mem_cons_self, hfirst⟩
    · obtain ⟨copy, hcopy, henveloped⟩ := ih hr
      exact ⟨copy, List.mem_cons_of_mem _ hcopy, henveloped⟩

/-- **The second loop** of `RecordDownloads` has room for every copy. -/
theorem recordCopies_spec {streamSize baseOffset : ℕ} (hbase : downloadAlignment ∣ baseOffset)
    {copies : List DownloadCopy} {cursor : ℕ} (hcursor : downloadAlignment ∣ cursor)
    (hinside : ∀ copy ∈ copies, copy.Inside)
    (hroom : baseOffset + cursor + batchSize copies ≤ streamSize) :
    ∃ recorded, recordCopies streamSize baseOffset copies cursor = some recorded ∧
      List.Forall₂ (Enveloped ⟨baseOffset + cursor, baseOffset + cursor + batchSize copies⟩) copies
        recorded ∧ recorded.Pairwise Apart := by
  induction copies generalizing cursor with
  | nil => exact ⟨[], rfl, .nil, .nil⟩
  | cons copy copies ih =>
    obtain ⟨hcopy, hall⟩ := List.forall_mem_cons.1 hinside
    obtain ⟨hpos, owner, howner, hlast⟩ := hcopy
    have hslot := le_alignDownload copy.envelopeSize
    rw [batchSize_cons] at hroom ⊢
    obtain ⟨recorded, hrecorded, henveloped, hapart⟩ :=
      ih ((Nat.dvd_add_right hcursor).2 (dvd_alignDownload copy.envelopeSize)) hall (by omega)
    have hcovers : copy.sourceOffset + copy.size ≤ copy.last := by
      unfold DownloadCopy.last
      omega
    have hsum : copy.sourceOffset / 4 * 4 + copy.envelopeSize = copy.last := by
      unfold DownloadCopy.envelopeSize
      omega
    have hdword : 4 ∣ copy.envelopeSize :=
      Nat.dvd_sub (Nat.dvd_mul_left 4 _) (Nat.dvd_mul_left 4 _)
    have hplace : 4 ∣ baseOffset + cursor := by
      have h4 : 4 ∣ downloadAlignment := ⟨16, rfl⟩
      exact Nat.dvd_add (h4.trans hbase) (h4.trans hcursor)
    let command : BufferCopy :=
      ⟨owner, copy.sourceOffset / 4 * 4, baseOffset + cursor, copy.envelopeSize⟩
    let range : DownloadRange :=
      ⟨copy.address, copy.size, baseOffset + cursor + (copy.sourceOffset - copy.sourceOffset / 4 * 4)⟩
    refine ⟨(command, range) :: recorded, ?_, .cons ?_ ?_, List.pairwise_cons.2 ⟨?_, hapart⟩⟩
    · rw [recordCopies, downloadEnvelope_eq_some.2 ⟨⟨hpos, owner, howner, hlast⟩, rfl⟩, howner]
      dsimp only
      rw [copyFrom, if_neg (by omega), hrecorded]
      rfl
    · exact
        { owner := howner
          source_aligned := Nat.dvd_mul_left 4 _
          destination_aligned := hplace
          size_aligned := hdword
          source_inside := hsum.trans_le hlast
          source_le := Nat.div_mul_le_self _ _
          le_source := hcovers.trans_eq hsum.symm
          first_le := le_rfl
          le_last := show baseOffset + cursor + copy.envelopeSize ≤ _ by
            dsimp only
            omega
          download := rfl }
    · refine henveloped.imp fun _ _ h => h.mono ?_ ?_
      · exact Nat.add_le_add_left (Nat.le_add_right _ _) _
      · dsimp only
        omega
    · -- the slots of the rest begin behind this one
      intro later hlater
      obtain ⟨_, -, hslot'⟩ := exists_enveloped henveloped hlater
      show baseOffset + cursor + copy.envelopeSize ≤ _
      refine le_trans ?_ hslot'.first_le
      dsimp only
      omega

end Prosperismo.BufferCache
