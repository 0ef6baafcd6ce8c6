import Prosperismo.Dirents.Model

/-!
# The records of a directory

The loop over the entries keeps the vector of the form "records, then zeros up to the end of the
block" (`Laid`). A record is written at the first of the zeros (`writeRecord_spec`), and padding the
last record lets it take in the zeros that are left (`padLast_spec`), so that what is built is
exactly a sequence of records, none of which crosses the end of a block. -/

namespace Prosperismo.Dirents

/-- What stands in a record in front of its length. -/
def recordHead (entry : DirEntry) : List UInt8 := littleEndian 4 (hash entry.name).toNat

/-- What stands in a record behind its length. -/
def recordTail (entry : DirEntry) (reclen : ℕ) : List UInt8 :=
  [if entry.isFile then 8 else 4] ++ [UInt8.ofNat entry.name.length] ++ entry.name ++
    List.replicate (reclen - 8 - entry.name.length) 0

/-- The record of an entry, with its length. -/
def record (entry : DirEntry) (reclen : ℕ) : List UInt8 :=
  recordHead entry ++ littleEndian 2 reclen ++ recordTail entry reclen

/-- Records one behind the other. -/
def records (recs : List (DirEntry × ℕ)) : List UInt8 := recs.flatMap fun r => record r.1 r.2

/-- The length of records. -/
def extent (recs : List (DirEntry × ℕ)) : ℕ := (recs.map Prod.snd).sum

/-- Records that begin at an offset: each has room for its name and the zero behind it, and none
crosses the end of a block. -/
def Packed : ℕ → List (DirEntry × ℕ) → Prop
  | _, [] => True
  | offset, r :: recs =>
    r.1.name.length + 9 ≤ r.2 ∧ offset % dirBlockSize + r.2 ≤ dirBlockSize ∧
      Packed (offset + r.2) recs

/-! ### Lengths -/

theorem length_record {entry : DirEntry} {reclen : ℕ} (h : entry.name.length + 8 ≤ reclen) :
    (record entry reclen).length = reclen := by
  unfold record recordHead recordTail
  simp only [List.length_append, length_littleEndian, List.length_singleton, List.length_replicate]
  omega

@[simp] theorem records_nil : records [] = [] := rfl

@[simp] theorem records_cons (r : DirEntry × ℕ) (recs : List (DirEntry × ℕ)) :
    records (r :: recs) = record r.1 r.2 ++ records recs := rfl

@[simp] theorem records_append (recs recs' : List (DirEntry × ℕ)) :
    records (recs ++ recs') = records recs ++ records recs' := List.flatMap_append

@[simp] theorem extent_nil : extent [] = 0 := rfl

@[simp] theorem extent_cons (r : DirEntry × ℕ) (recs : List (DirEntry × ℕ)) :
    extent (r :: recs) = r.2 + extent recs := rfl

@[simp] theorem extent_append (recs recs' : List (DirEntry × ℕ)) :
    extent (recs ++ recs') = extent recs + extent recs' := by
  unfold extent
  rw [List.map_append, List.sum_append]

theorem packed_cons {offset : ℕ} {r : DirEntry × ℕ} {recs : List (DirEntry × ℕ)} :
    Packed offset (r :: recs) ↔ r.1.name.length + 9 ≤ r.2 ∧
      offset % dirBlockSize + r.2 ≤ dirBlockSize ∧ Packed (offset + r.2) recs := .rfl

theorem packed_append {offset : ℕ} {recs recs' : List (DirEntry × ℕ)} :
    Packed offset (recs ++ recs') ↔ Packed offset recs ∧ Packed (offset + extent recs) recs' := by
  induction recs generalizing offset with
  | nil => exact (true_and _).symm.to_iff
  | cons r recs ih =>
    rw [List.cons_append, packed_cons, packed_cons, ih, extent_cons, Nat.add_assoc, and_assoc,
      and_assoc]

theorem Packed.length_records {offset : ℕ} {recs : List (DirEntry × ℕ)} (h : Packed offset recs) :
    (records recs).length = extent recs := by
  induction recs generalizing offset with
  | nil => rfl
  | cons r recs ih =>
    obtain ⟨hname, -, hrest⟩ := h
    rw [records_cons, List.length_append, ih hrest, length_record (Nat.le_of_succ_le hname),
      extent_cons]

/-! ### One record -/

/-- **A record is written** at the first of the zeros. -/
theorem writeRecord_spec {b : Build} {before : List UInt8} {room reclen : ℕ} {entry : DirEntry}
    (hdirents : b.dirents = before ++ List.replicate room 0)
    (hoffset : b.direntOffset = before.length) (hname : entry.name.length + 9 ≤ reclen)
    (hroom : reclen ≤ room) :
    writeRecord b entry reclen = some { b with
      dirents := before ++ record entry reclen ++ List.replicate (room - reclen) 0
      direntOffset := b.direntOffset + reclen
      lastReclenOffset := some (b.direntOffset + 4) } := by
  have hstore : ∀ (written data : List UInt8) (offset room : ℕ), offset = before.length +
      written.length → data.length ≤ room →
      storeBytes (before ++ written ++ List.replicate room 0) offset data =
        some (before ++ (written ++ data) ++ List.replicate (room - data.length) 0) := by
    intro written data offset room hat hfits
    rw [storeBytes_zeros (hat.trans (List.length_append).symm) hfits, List.append_assoc before]
  -- each field is written behind the one before it
  have hfirst := hstore [] (littleEndian 4 (hash entry.name).toNat) b.direntOffset room hoffset
    (by rw [length_littleEndian]; omega)
  rw [List.append_nil, ← hdirents, List.nil_append] at hfirst
  unfold writeRecord
  rw [hfirst]
  simp only [Option.bind_eq_bind, Option.bind_some]
  rw [hstore _ _ _ _ (by simp [hoffset]) (by simp; omega)]
  simp only [Option.bind_some]
  rw [hstore _ _ _ _ (by simp [hoffset]) (by simp; omega)]
  simp only [Option.bind_some]
  rw [hstore _ _ _ _ (by simp [hoffset]) (by simp; omega)]
  simp only [Option.bind_some]
  rw [hstore _ _ _ _ (by simp [hoffset]) (by simp; omega)]
  simp only [Option.bind_some]
  rw [hstore _ _ _ _ (by simp [hoffset]; omega) (by simp; omega)]
  simp only [Option.bind_some, length_littleEndian, List.length_singleton]
  refine congrArg some (congrArg (fun dirents => Build.mk dirents _ _ _) ?_)
  -- the zeros behind the name belong to the record
  have hzeros : [0] ++ List.replicate (room - 4 - 2 - 1 - 1 - entry.name.length - 1) (0 : UInt8) =
      List.replicate (reclen - 8 - entry.name.length) 0 ++ List.replicate (room - reclen) 0 := by
    rw [List.replicate_append_replicate, List.singleton_append, ← List.replicate_succ]
    congr 1
    omega
  unfold record recordHead recordTail
  simp only [List.append_assoc]
  rw [hzeros]

/-- **The last record is padded**: it takes in the zeros that are left of its block. -/
theorem padLast_spec {b : Build} {before : List UInt8} {room reclen : ℕ} {entry : DirEntry}
    (hdirents : b.dirents = before ++ record entry reclen ++ List.replicate room 0)
    (hlast : b.lastReclenOffset = some (before.length + 4))
    (hroom : b.nextCeiling - b.direntOffset = room) (hname : entry.name.length + 8 ≤ reclen)
    (hsmall : reclen < 256 ^ 2) :
    padLast b = some (before ++ record entry (reclen + room)) := by
  have hhead : (recordHead entry).length = 4 := length_littleEndian _ _
  have hzeros : recordTail entry reclen ++ List.replicate room 0 =
      recordTail entry (reclen + room) := by
    unfold recordTail
    rw [List.append_assoc _ (List.replicate _ _), List.replicate_append_replicate]
    congr 2
    omega
  have hparts : b.dirents = (before ++ recordHead entry) ++ littleEndian 2 reclen ++
      recordTail entry (reclen + room) := by
    rw [hdirents, ← hzeros]
    unfold record
    simp only [List.append_assoc]
  have hoffset : before.length + 4 = (before ++ recordHead entry).length := by
    rw [List.length_append, hhead]
  have hload : loadBytes b.dirents (before.length + 4) 2 = some (littleEndian 2 reclen) := by
    have hmiddle : loadBytes ((before ++ recordHead entry) ++ littleEndian 2 reclen ++
        recordTail entry (reclen + room)) (before.length + 4) (littleEndian 2 reclen).length =
        some (littleEndian 2 reclen) := loadBytes_middle hoffset
    rwa [length_littleEndian, ← hparts] at hmiddle
  unfold padLast
  rw [hlast]
  dsimp only
  rw [hload, Option.bind_eq_bind, Option.bind_some, ofLittleEndian_littleEndian hsmall, hroom,
    hparts, storeBytes_middle hoffset (by rw [length_littleEndian, length_littleEndian])]
  unfold record
  simp only [List.append_assoc]

/-! ### The loop over the entries -/

/-- Where the length of the last record stands. -/
def lastReclen (recs : List (DirEntry × ℕ)) : Option ℕ :=
  if recs = [] then none else some (extent recs.dropLast + 4)

/-- The invariant of the loop: records, and zeros up to the end of the block. -/
structure Laid (b : Build) (recs : List (DirEntry × ℕ)) : Prop where
  packed : Packed 0 recs
  dirents : b.dirents = records recs ++ List.replicate (b.nextCeiling - b.direntOffset) 0
  offset : b.direntOffset = extent recs
  le_ceiling : b.direntOffset ≤ b.nextCeiling
  ceiling_lt : b.nextCeiling < b.direntOffset + dirBlockSize
  ceiling : b.nextCeiling % dirBlockSize = 0
  last : b.lastReclenOffset = lastReclen recs

theorem laid_nil : Laid ⟨[], 0, 0, none⟩ [] where
  packed := trivial
  dirents := rfl
  offset := rfl
  le_ceiling := Nat.le_refl _
  ceiling_lt := by decide
  ceiling := rfl
  last := rfl

/-- **The end of a block.** The last record is padded, and the records end where the block ends. -/
theorem Laid.padLast {b : Build} {recs : List (DirEntry × ℕ)} (h : Laid b recs) :
    ∃ recs', recs'.map Prod.fst = recs.map Prod.fst ∧ Packed 0 recs' ∧
      extent recs' = b.nextCeiling ∧ lastReclen recs' = b.lastReclenOffset ∧
      Dirents.padLast b = some (records recs') := by
  obtain ⟨hpacked, hdirents, hoffset, hle, hlt, hceiling, hlast⟩ := h
  rcases recs.eq_nil_or_concat' with rfl | ⟨init, ⟨entry, reclen⟩, rfl⟩
  · -- nothing has been written yet
    have hzero : b.nextCeiling = 0 := by
      rw [hoffset, extent_nil, Nat.zero_add] at hlt
      rw [← hceiling, Nat.mod_eq_of_lt hlt]
    refine ⟨[], rfl, trivial, hzero.symm, hlast.symm, ?_⟩
    unfold Dirents.padLast
    rw [hlast, hdirents, hzero, Nat.zero_sub]
    rfl
  · obtain ⟨hinit, hname, hblock, -⟩ := packed_append.1 hpacked
    rw [extent_append, extent_cons, extent_nil, Nat.add_zero] at hoffset
    dsimp only at hname hblock hoffset
    set room := b.nextCeiling - b.direntOffset with hroom
    have hend : extent init + (reclen + room) = b.nextCeiling := by omega
    have hlast' : lastReclen (init ++ [(entry, reclen + room)]) = b.lastReclenOffset := by
      rw [hlast]
      unfold lastReclen
      rw [if_neg (List.append_ne_nil_of_right_ne_nil _ (List.cons_ne_nil _ _)),
        if_neg (List.append_ne_nil_of_right_ne_nil _ (List.cons_ne_nil _ _)), List.dropLast_concat,
        List.dropLast_concat]
    refine ⟨init ++ [(entry, reclen + room)], ?_, ?_, ?_, hlast', ?_⟩
    · rw [List.map_append, List.map_append]
      rfl
    · refine packed_append.2 ⟨hinit, ?_, ?_, trivial⟩
      · dsimp only
        omega
      · -- the record begins in the block at whose end it ends
        unfold dirBlockSize at *
        dsimp only
        omega
    · rw [extent_append, extent_cons, extent_nil, Nat.add_zero]
      exact hend
    · have hwritten : b.dirents = records init ++ record entry reclen ++
          List.replicate room 0 := by
        rw [hdirents, records_append, records_cons, records_nil, List.append_nil]
      have hlastAt : b.lastReclenOffset = some ((records init).length + 4) := by
        rw [hinit.length_records, hlast]
        unfold lastReclen
        rw [if_neg (List.append_ne_nil_of_right_ne_nil _ (List.cons_ne_nil _ _)),
          List.dropLast_concat]
      have hsmall : reclen < 256 ^ 2 := by
        unfold dirBlockSize at hblock
        omega
      rw [padLast_spec hwritten hlastAt hroom.symm (Nat.le_of_succ_le hname) hsmall,
        records_append, records_cons, records_nil, List.append_nil]

/-- The length of a record before it is padded. -/
theorem reclen_bounds (length : ℕ) :
    length + 9 ≤ alignUp (direntMetaSize + length + 1) 4 ∧
      alignUp (direntMetaSize + length + 1) 4 ≤ length + 12 := by
  unfold alignUp direntMetaSize
  omega

/-- A record is added where there is room for it in the block. -/
theorem writeRecord_laid {b : Build} {recs : List (DirEntry × ℕ)} {entry : DirEntry} {reclen : ℕ}
    (hpacked : Packed 0 recs)
    (hdirents : b.dirents = records recs ++ List.replicate (b.nextCeiling - b.direntOffset) 0)
    (hoffset : b.direntOffset = extent recs) (hceiling : b.nextCeiling % dirBlockSize = 0)
    (hblock : b.nextCeiling ≤ b.direntOffset + dirBlockSize)
    (hname : entry.name.length + 9 ≤ reclen) (hfits : b.direntOffset + reclen ≤ b.nextCeiling) :
    ∃ b', writeRecord b entry reclen = some b' ∧ Laid b' (recs ++ [(entry, reclen)]) := by
  have hlength : b.direntOffset = (records recs).length := by rw [hpacked.length_records, hoffset]
  have hroom : reclen ≤ b.nextCeiling - b.direntOffset := by omega
  refine ⟨_, writeRecord_spec hdirents hlength hname hroom, ?_⟩
  constructor
  case packed =>
    refine packed_append.2 ⟨hpacked, hname, ?_, trivial⟩
    rw [Nat.zero_add, ← hoffset]
    -- the room for the record is in one block
    unfold dirBlockSize at hceiling hblock ⊢
    omega
  case dirents =>
    rw [records_append, records_cons, records_nil, List.append_nil, ← Nat.sub_sub]
  case offset =>
    rw [extent_append, extent_cons, extent_nil, ← hoffset]
    rfl
  case le_ceiling => exact hfits
  case ceiling_lt =>
    dsimp only
    omega
  case ceiling => exact hceiling
  case last =>
    unfold lastReclen
    rw [if_neg (List.append_ne_nil_of_right_ne_nil _ (List.cons_ne_nil _ _)), List.dropLast_concat,
      hoffset]

/-- **One entry.** -/
theorem Laid.addEntry {b : Build} {recs : List (DirEntry × ℕ)} (h : Laid b recs) {entry : DirEntry}
    (hname : entry.name.length ≤ 255) :
    ∃ b' recs', Dirents.addEntry b entry = some b' ∧ Laid b' recs' ∧
      recs'.map Prod.fst = recs.map Prod.fst ++ [entry] := by
  obtain ⟨hmin, hmax⟩ := reclen_bounds entry.name.length
  unfold Dirents.addEntry
  rw [if_neg (Nat.not_lt.2 hname)]
  dsimp only
  set reclen := alignUp (direntMetaSize + entry.name.length + 1) 4
  split
  · -- a new block, behind the padded records
    obtain ⟨recs', hentries, hpacked, hextent, -, hpad⟩ := h.padLast
    have hlength : (records recs').length = b.nextCeiling := by rw [hpacked.length_records, hextent]
    set block : Build := { b with
      dirents := records recs' ++ List.replicate (b.nextCeiling + dirBlockSize - b.nextCeiling) 0
      nextCeiling := b.nextCeiling + dirBlockSize
      direntOffset := b.nextCeiling } with hblock
    have hnext : nextBlock b = some block := by
      unfold nextBlock
      rw [hpad, Option.bind_eq_bind, Option.bind_some]
      dsimp only
      rw [hblock, ← hlength, List.take_length]
    have hceiling : block.nextCeiling % dirBlockSize = 0 := by
      rw [hblock]
      dsimp only
      rw [Nat.add_mod_right]
      exact h.ceiling
    have hfits : block.direntOffset + reclen ≤ block.nextCeiling := by
      rw [hblock]
      unfold dirBlockSize
      dsimp only
      omega
    rw [hnext, Option.bind_eq_bind, Option.bind_some]
    obtain ⟨b', hwrite, hlaid⟩ := writeRecord_laid hpacked rfl hextent.symm hceiling
      (Nat.le_refl _) hmin hfits
    refine ⟨b', _, hwrite, hlaid, ?_⟩
    rw [List.map_append, hentries]
    rfl
  · next hfits =>
    rw [Option.bind_eq_bind, Option.bind_some]
    obtain ⟨b', hwrite, hlaid⟩ := writeRecord_laid h.packed h.dirents h.offset h.ceiling
      h.ceiling_lt.le hmin (Nat.not_lt.1 hfits)
    refine ⟨b', _, hwrite, hlaid, ?_⟩
    rw [List.map_append]
    rfl

/-- **The records of a directory**: one for each entry, in order, none across the end of a block,
and together a number of blocks. -/
theorem buildDirents_spec {dents : List DirEntry} (hnames : ∀ e ∈ dents, e.name.length ≤ 255) :
    ∃ recs, recs.map Prod.fst = dents ∧ Packed 0 recs ∧
      buildDirents dents = some (records recs, extent recs) := by
  have hloop : ∀ (dents : List DirEntry) (b : Build) (recs : List (DirEntry × ℕ)), Laid b recs →
      (∀ e ∈ dents, e.name.length ≤ 255) → ∃ b' recs', dents.foldlM addEntry b = some b' ∧
        Laid b' recs' ∧ recs'.map Prod.fst = recs.map Prod.fst ++ dents := by
    intro dents
    induction dents with
    | nil => exact fun b recs h _ => ⟨b, recs, rfl, h, (List.append_nil _).symm⟩
    | cons entry dents ih =>
      intro b recs h hnames
      obtain ⟨hname, hnames⟩ := List.forall_mem_cons.1 hnames
      obtain ⟨b', recs', hadd, hlaid, hentries⟩ := h.addEntry hname
      obtain ⟨b'', recs'', hrest, hlaid', hentries'⟩ := ih b' recs' hlaid hnames
      refine ⟨b'', recs'', ?_, hlaid', ?_⟩
      · rw [List.foldlM_cons, hadd]
        exact hrest
      · rw [hentries', hentries, List.append_assoc, List.singleton_append]
  obtain ⟨b, recs, hbuild, hlaid, hentries⟩ := hloop dents _ [] laid_nil hnames
  obtain ⟨recs', hentries', hpacked, hextent, -, hpad⟩ := hlaid.padLast
  refine ⟨recs', hentries'.trans hentries, hpacked, ?_⟩
  unfold buildDirents
  rw [hbuild, Option.bind_eq_bind, Option.bind_some, hpad, Option.bind_eq_bind, Option.bind_some,
    hextent]

end Prosperismo.Dirents
