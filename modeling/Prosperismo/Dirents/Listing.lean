import Prosperismo.Dirents.Layout
import Mathlib.Data.List.Forall2

/-!
# What a directory listing gives

A call continues at the end of a record (`kernelGetdirentries_spec`): it skips the records that were
given before, and copies those that fit into the buffer. As no record is longer than a block, and a
buffer has room for one, each call gives at least one record of those that are left.

`getdirentries_listing` is about any sequence of calls; `parseDirents` reads its data back. -/

namespace Prosperismo.Dirents

section Records

/-! ### Reading a record -/

variable {before behind : List UInt8} {entry : DirEntry} {reclen : ℕ}

theorem load_reclen (before : List UInt8) :
    loadBytes (before ++ record entry reclen ++ behind) (before.length + 4) 2 =
      some (littleEndian 2 reclen) := by
  have hoffset : before.length + 4 = (before ++ recordHead entry).length := by
    rw [List.length_append]
    exact congrArg _ (length_littleEndian _ _).symm
  have hmiddle : loadBytes ((before ++ recordHead entry) ++ littleEndian 2 reclen ++
      (recordTail entry reclen ++ behind)) (before.length + 4) (littleEndian 2 reclen).length =
      some (littleEndian 2 reclen) := loadBytes_middle hoffset
  rw [length_littleEndian] at hmiddle
  unfold record
  simpa only [List.append_assoc] using hmiddle

theorem load_type (before : List UInt8) :
    loadBytes (before ++ record entry reclen ++ behind) (before.length + 6) 1 =
      some [if entry.isFile then 8 else 4] := by
  have hoffset : before.length + 6 =
      (before ++ recordHead entry ++ littleEndian 2 reclen).length := by
    rw [List.length_append, List.length_append, length_littleEndian]
    exact congrArg (fun n => before.length + n + 2) (length_littleEndian _ _).symm
  have hmiddle : loadBytes ((before ++ recordHead entry ++ littleEndian 2 reclen) ++
      [if entry.isFile then 8 else 4] ++ ([UInt8.ofNat entry.name.length] ++ entry.name ++
        List.replicate (reclen - 8 - entry.name.length) 0 ++ behind)) (before.length + 6) 1 =
      some [if entry.isFile then 8 else 4] := loadBytes_middle hoffset
  unfold record recordTail
  simpa only [List.append_assoc] using hmiddle

theorem load_namlen (before : List UInt8) :
    loadBytes (before ++ record entry reclen ++ behind) (before.length + 7) 1 =
      some [UInt8.ofNat entry.name.length] := by
  have hoffset : before.length + 7 = (before ++ recordHead entry ++ littleEndian 2 reclen ++
      [if entry.isFile then 8 else 4]).length := by
    rw [List.length_append, List.length_append, List.length_append, length_littleEndian]
    exact congrArg (fun n => before.length + n + 2 + 1) (length_littleEndian _ _).symm
  have hmiddle : loadBytes ((before ++ recordHead entry ++ littleEndian 2 reclen ++
      [if entry.isFile then 8 else 4]) ++ [UInt8.ofNat entry.name.length] ++ (entry.name ++
        List.replicate (reclen - 8 - entry.name.length) 0 ++ behind)) (before.length + 7) 1 =
      some [UInt8.ofNat entry.name.length] := loadBytes_middle hoffset
  unfold record recordTail
  simpa only [List.append_assoc] using hmiddle

theorem load_name (before : List UInt8) :
    loadBytes (before ++ record entry reclen ++ behind) (before.length + 8) entry.name.length =
      some entry.name := by
  have hoffset : before.length + 8 = (before ++ recordHead entry ++ littleEndian 2 reclen ++
      [if entry.isFile then 8 else 4] ++ [UInt8.ofNat entry.name.length]).length := by
    rw [List.length_append, List.length_append, List.length_append, List.length_append,
      length_littleEndian]
    exact congrArg (fun n => before.length + n + 2 + 1 + 1) (length_littleEndian _ _).symm
  have hmiddle : loadBytes ((before ++ recordHead entry ++ littleEndian 2 reclen ++
      [if entry.isFile then 8 else 4] ++ [UInt8.ofNat entry.name.length]) ++ entry.name ++
        (List.replicate (reclen - 8 - entry.name.length) 0 ++ behind)) (before.length + 8)
      entry.name.length = some entry.name := loadBytes_middle hoffset
  unfold record recordTail
  simpa only [List.append_assoc] using hmiddle

/-- The length of a name, as its byte. -/
theorem toNat_namlen (hname : entry.name.length ≤ 255) :
    ofLittleEndian [UInt8.ofNat entry.name.length] = entry.name.length := by
  unfold ofLittleEndian ofLittleEndian
  rw [UInt8.toNat_ofNat', Nat.mul_zero, Nat.add_zero, Nat.mod_eq_of_lt (Nat.lt_succ_of_le hname)]

/-! ### One call -/

/-- The names of records have between 1 and 255 bytes. -/
def Named (recs : List (DirEntry × ℕ)) : Prop :=
  ∀ r ∈ recs, 1 ≤ r.1.name.length ∧ r.1.name.length ≤ 255

/-- The records that fit into a buffer, behind what stands there. -/
def fitting (alignedCount : ℕ) : ℕ → List (DirEntry × ℕ) → List (DirEntry × ℕ)
  | _, [] => []
  | written, r :: recs =>
    if written + r.2 ≤ alignedCount then r :: fitting alignedCount (written + r.2) recs else []

theorem fitting_initial {alignedCount written : ℕ} {recs : List (DirEntry × ℕ)} :
    fitting alignedCount written recs <+: recs := by
  induction recs generalizing written with
  | nil => exact List.prefix_rfl
  | cons r recs ih =>
    unfold fitting
    split
    · exact List.prefix_cons_inj r |>.2 ih
    · exact List.nil_prefix

theorem extent_fitting {alignedCount written : ℕ} {recs : List (DirEntry × ℕ)}
    (hwritten : written ≤ alignedCount) :
    written + extent (fitting alignedCount written recs) ≤ alignedCount := by
  induction recs generalizing written with
  | nil => exact hwritten
  | cons r recs ih =>
    unfold fitting
    split
    · next hfits =>
      rw [extent_cons, ← Nat.add_assoc]
      exact ih hfits
    · exact hwritten

variable {offset alignedCount fuel : ℕ} {given rest : List (DirEntry × ℕ)} {written : List UInt8}

/-- **One round** of the loop, at the begin of a record. -/
theorem copyLoop_record {workingOffset : ℕ} (hname : entry.name.length + 9 ≤ reclen)
    (hblock : reclen ≤ dirBlockSize)
    (hnamed : 1 ≤ entry.name.length ∧ entry.name.length ≤ 255) (hbefore : before.length = offset) :
    copyLoop (before ++ record entry reclen ++ behind) alignedCount (fuel + 1) offset workingOffset
        written =
      if workingOffset ≥ reclen then
        copyLoop (before ++ record entry reclen ++ behind) alignedCount fuel (offset + reclen)
          (workingOffset - reclen) written
      else if written.length + reclen > alignedCount then some written
      else
        (loadBytes (before ++ record entry reclen ++ behind) (offset + workingOffset)
          (reclen - workingOffset)).bind fun copied =>
            copyLoop (before ++ record entry reclen ++ behind) alignedCount fuel (offset + reclen) 0
              (written ++ copied) := by
  subst hbefore
  have hlength : (record entry reclen).length = reclen := length_record (Nat.le_of_succ_le hname)
  have hinside : before.length < (before ++ record entry reclen ++ behind).length := by
    rw [List.length_append, List.length_append, hlength]
    omega
  have hreclen : ofLittleEndian (littleEndian 2 reclen) = reclen := by
    refine ofLittleEndian_littleEndian (Nat.lt_of_le_of_lt hblock ?_)
    unfold dirBlockSize
    decide
  have hnonzero : ¬ (entry.name.length = 0 ∨ reclen = 0) := by omega
  rw [copyLoop, if_pos hinside, load_reclen, Option.bind_eq_bind, Option.bind_some]
  dsimp only
  rw [load_namlen, Option.bind_some, hreclen, toNat_namlen hnamed.2, if_neg hnonzero]

/-- **Skipping** what was given before. -/
theorem copyLoop_skip (hpacked : Packed offset given) (hnamed : Named given)
    (hbefore : before.length = offset) :
    copyLoop (before ++ records given ++ behind) alignedCount (given.length + fuel) offset
        (extent given) written =
      copyLoop (before ++ records given ++ behind) alignedCount fuel (offset + extent given) 0
        written := by
  induction given generalizing offset before with
  | nil =>
    rw [List.length_nil, Nat.zero_add]
    rfl
  | cons r given ih =>
    obtain ⟨hname, hblock, hrest⟩ := hpacked
    obtain ⟨hfirst, hothers⟩ := List.forall_mem_cons.1 hnamed
    have hlength : (record r.1 r.2).length = r.2 := length_record (Nat.le_of_succ_le hname)
    have hsame : before ++ records (r :: given) ++ behind =
        before ++ record r.1 r.2 ++ (records given ++ behind) := by
      rw [records_cons]
      simp only [List.append_assoc]
    have hnext : before ++ record r.1 r.2 ++ (records given ++ behind) =
        (before ++ record r.1 r.2) ++ records given ++ behind := by
      simp only [List.append_assoc]
    rw [hsame, List.length_cons, Nat.add_right_comm, copyLoop_record hname
      ((Nat.le_add_left _ _).trans hblock) hfirst hbefore, extent_cons,
      if_pos (Nat.le_add_right _ _), Nat.add_sub_cancel_left, hnext,
      ih hrest hothers (by rw [List.length_append, hlength, hbefore]), Nat.add_assoc]

/-- **Copying** what fits. -/
theorem copyLoop_copy (hpacked : Packed offset rest) (hnamed : Named rest)
    (hbefore : before.length = offset) (hfuel : rest.length < fuel) :
    copyLoop (before ++ records rest) alignedCount fuel offset 0 written =
      some (written ++ records (fitting alignedCount written.length rest)) := by
  obtain ⟨fuel, rfl⟩ := Nat.exists_eq_succ_of_ne_zero (Nat.ne_of_gt (Nat.zero_lt_of_lt hfuel))
  induction rest generalizing offset before fuel written with
  | nil =>
    have houtside : ¬ offset < (before ++ records []).length := by
      rw [records_nil, List.append_nil, hbefore]
      exact Nat.lt_irrefl _
    rw [copyLoop, if_neg houtside]
    exact congrArg some (List.append_nil _).symm
  | cons r rest ih =>
    obtain ⟨hname, hblock, hrest⟩ := hpacked
    obtain ⟨hfirst, hothers⟩ := List.forall_mem_cons.1 hnamed
    have hlength : (record r.1 r.2).length = r.2 := length_record (Nat.le_of_succ_le hname)
    have hpositive : ¬ 0 ≥ r.2 := by omega
    rw [records_cons, ← List.append_assoc, copyLoop_record hname
      ((Nat.le_add_left _ _).trans hblock) hfirst hbefore, if_neg hpositive]
    unfold fitting
    split
    · next hfull =>
      rw [if_neg (Nat.not_le.2 hfull), records_nil, List.append_nil]
    · next hfits =>
      have hload : loadBytes (before ++ record r.1 r.2 ++ records rest) (offset + 0) (r.2 - 0) =
          some (record r.1 r.2) := by
        have hmiddle : loadBytes (before ++ record r.1 r.2 ++ records rest) (offset + 0)
            (record r.1 r.2).length = some (record r.1 r.2) := loadBytes_middle hbefore.symm
        rwa [hlength] at hmiddle
      obtain ⟨fuel, rfl⟩ := Nat.exists_eq_succ_of_ne_zero
        (Nat.ne_of_gt (Nat.zero_lt_of_lt (Nat.lt_of_succ_lt_succ hfuel)))
      rw [hload, Option.bind_some, ih hrest hothers (by rw [List.length_append, hlength, hbefore])
        fuel (Nat.lt_of_succ_lt_succ hfuel), if_pos (Nat.not_lt.1 hfits), records_cons,
        List.length_append, hlength, List.append_assoc]

/-- There are no more records than bytes. -/
theorem Packed.length_le {recs : List (DirEntry × ℕ)} (h : Packed offset recs) :
    recs.length ≤ extent recs := by
  induction recs generalizing offset with
  | nil => exact Nat.le_refl 0
  | cons r recs ih =>
    obtain ⟨hname, -, hrest⟩ := h
    rw [List.length_cons, extent_cons, Nat.add_comm]
    exact Nat.add_le_add (by omega) (ih hrest)

/-- **The loop** skips what was given before and copies what fits. -/
theorem copyLoop_spec (hpacked : Packed 0 (given ++ rest)) (hnamed : Named (given ++ rest))
    (alignedCount : ℕ) :
    copyLoop (records (given ++ rest)) alignedCount ((records (given ++ rest)).length + 1) 0
        (extent given) [] = some (records (fitting alignedCount 0 rest)) := by
  obtain ⟨hgiven, hrest⟩ := packed_append.1 hpacked
  obtain ⟨hnamedGiven, hnamedRest⟩ := List.forall_mem_append.1 hnamed
  obtain ⟨fuel, hrounds⟩ : ∃ fuel, (records (given ++ rest)).length + 1 =
      given.length + (rest.length + fuel + 1) := by
    have hle := hpacked.length_le
    rw [← hpacked.length_records, List.length_append] at hle
    obtain ⟨fuel, hfuel⟩ := Nat.exists_eq_add_of_le hle
    exact ⟨fuel, by omega⟩
  rw [Nat.zero_add] at hrest
  have hskip : copyLoop ([] ++ records given ++ records rest) alignedCount
      (given.length + (rest.length + fuel + 1)) 0 (extent given) [] =
      copyLoop ([] ++ records given ++ records rest) alignedCount (rest.length + fuel + 1)
        (0 + extent given) 0 [] := copyLoop_skip hgiven hnamedGiven rfl
  have hcopy : copyLoop (records given ++ records rest) alignedCount (rest.length + fuel + 1)
      (extent given) 0 [] = some ([] ++ records (fitting alignedCount 0 rest)) :=
    copyLoop_copy hrest hnamedRest hgiven.length_records (by omega)
  rw [List.nil_append, Nat.zero_add] at hskip
  rw [hrounds, records_append, hskip, hcopy, List.nil_append]

theorem Packed.initial {recs recs' : List (DirEntry × ℕ)} (h : Packed offset recs)
    (hinitial : recs' <+: recs) : Packed offset recs' := by
  obtain ⟨behind, rfl⟩ := hinitial
  exact (packed_append.1 h).1

/-- A directory that is open, and the records of it that were given before. -/
structure Listing (file : File) (given rest : List (DirEntry × ℕ)) : Prop where
  directory : file.directory = true
  opened : file.opened = true
  offset : file.dentsOffset = extent given
  build : buildDirents file.dents = some (records (given ++ rest), extent (given ++ rest))
  packed : Packed 0 (given ++ rest)
  named : Named (given ++ rest)

/-- **One call** gives the records that come next and fit into the buffer. -/
theorem kernelGetdirentries_spec {fd nbytes : ℤ} {file : File} (h : Listing file given rest)
    (hfd : descriptorMin ≤ fd) (hbytes : dirBlockSize ≤ nbytes) :
    kernelGetdirentries fd false (some file) nbytes =
      some (.listed (extent given) (records (fitting (alignDown nbytes.toNat dirBlockSize) 0 rest))
        { file with
          dentsOffset :=
            extent given + extent (fitting (alignDown nbytes.toNat dirBlockSize) 0 rest) }) := by
  have hrest := (packed_append.1 h.packed).2
  have hvalid : ¬ (!file.directory || decide (nbytes < dirBlockSize)) = true := by
    rw [h.directory, decide_eq_false (not_lt.2 hbytes)]
    exact Bool.false_ne_true
  have hopened : ¬ (!file.opened) = true := by
    rw [h.opened]
    exact Bool.false_ne_true
  unfold kernelGetdirentries
  rw [if_neg (not_lt.2 hfd), if_neg Bool.false_ne_true]
  dsimp only
  rw [if_neg hvalid, if_neg hopened, h.build, Option.bind_eq_bind, Option.bind_some]
  dsimp only
  rw [h.offset, copyLoop_spec h.packed h.named, Option.bind_eq_bind, Option.bind_some]
  rcases rest with _ | ⟨r, rest⟩
  · -- everything was given before
    rw [List.append_nil, if_pos (Nat.le_refl _), ← h.offset]
    rfl
  · have hleft : ¬ extent given ≥ extent (given ++ r :: rest) := by
      obtain ⟨hname, -⟩ := packed_cons.1 hrest
      rw [extent_append, extent_cons]
      omega
    have hcopied : (records (fitting (alignDown nbytes.toNat dirBlockSize) 0 (r :: rest))).length =
        extent (fitting (alignDown nbytes.toNat dirBlockSize) 0 (r :: rest)) :=
      (hrest.initial fitting_initial).length_records
    rw [if_neg hleft, hcopied]

end Records

/-! ### Reading the data back -/

/-- A record as a reader finds it: where it begins, its length, its type and its name. -/
structure Dirent where
  offset : ℕ
  reclen : ℕ
  isFile : Bool
  name : List UInt8

/-- The entry that a record is about. -/
def Dirent.entry (d : Dirent) : DirEntry := ⟨d.name, d.isFile⟩

/-- The type of a record. -/
def direntType : List UInt8 → Option Bool
  | [8] => some true
  | [4] => some false
  | _ => none

/-- A reader of directory data, which goes from record to record by their lengths. A record has to
have room for its name and the zero behind it. -/
def parseDirents : ℕ → ℕ → List UInt8 → Option (List Dirent)
  | 0, _, bytes => if bytes.isEmpty then some [] else none
  | fuel + 1, offset, bytes =>
    if bytes.isEmpty then some []
    else do
      let reclen ← loadBytes bytes 4 2
      let isFile ← (loadBytes bytes 6 1).bind direntType
      let namlen ← loadBytes bytes 7 1
      let name ← loadBytes bytes 8 (ofLittleEndian namlen)
      let reclen := ofLittleEndian reclen
      if reclen < name.length + 9 ∨ bytes.length < reclen then none
      else do
        let rest ← parseDirents fuel (offset + reclen) (bytes.drop reclen)
        some (⟨offset, reclen, isFile, name⟩ :: rest)

/-- What a reader finds in records that begin at an offset. -/
def found : ℕ → List (DirEntry × ℕ) → List Dirent
  | _, [] => []
  | offset, r :: recs => ⟨offset, r.2, r.1.isFile, r.1.name⟩ :: found (offset + r.2) recs

theorem map_entry_found {offset : ℕ} {recs : List (DirEntry × ℕ)} :
    (found offset recs).map Dirent.entry = recs.map Prod.fst := by
  induction recs generalizing offset with
  | nil => rfl
  | cons r recs ih => exact congrArg (r.1 :: ·) ih

/-- A record of a listing lies in one block. -/
def Dirent.InBlock (d : Dirent) : Prop :=
  d.offset / dirBlockSize = (d.offset + d.reclen - 1) / dirBlockSize

theorem Packed.inBlock {offset : ℕ} {recs : List (DirEntry × ℕ)} (h : Packed offset recs) :
    ∀ d ∈ found offset recs, d.InBlock := by
  induction recs generalizing offset with
  | nil => exact List.forall_mem_nil _
  | cons r recs ih =>
    obtain ⟨hname, hblock, hrest⟩ := h
    refine List.forall_mem_cons.2 ⟨?_, ih hrest⟩
    unfold Dirent.InBlock
    unfold dirBlockSize at hblock ⊢
    dsimp only
    omega

/-- **Records are read back.** -/
theorem parseDirents_records {offset fuel : ℕ} {recs : List (DirEntry × ℕ)}
    (hpacked : Packed offset recs) (hnamed : Named recs) (hfuel : recs.length ≤ fuel) :
    parseDirents fuel offset (records recs) = some (found offset recs) := by
  induction recs generalizing offset fuel with
  | nil =>
    cases fuel <;> rfl
  | cons r recs ih =>
    obtain ⟨fuel, rfl⟩ := Nat.exists_eq_succ_of_ne_zero (Nat.ne_of_gt (Nat.zero_lt_of_lt hfuel))
    obtain ⟨hname, hblock, hrest⟩ := hpacked
    obtain ⟨hfirst, hothers⟩ := List.forall_mem_cons.1 hnamed
    have hlength : (record r.1 r.2).length = r.2 := length_record (Nat.le_of_succ_le hname)
    have hreclen : ofLittleEndian (littleEndian 2 r.2) = r.2 := by
      refine ofLittleEndian_littleEndian
        (Nat.lt_of_le_of_lt ((Nat.le_add_left _ _).trans hblock) ?_)
      unfold dirBlockSize
      decide
    have htype : direntType [if r.1.isFile then 8 else 4] = some r.1.isFile := by
      cases r.1.isFile <;> rfl
    have hnonempty : ¬ (record r.1 r.2 ++ records recs).isEmpty = true := by
      rw [List.isEmpty_iff_length_eq_zero, List.length_append, hlength]
      omega
    have hload4 : loadBytes (record r.1 r.2 ++ records recs) 4 2 = some (littleEndian 2 r.2) :=
      load_reclen []
    have hload6 : loadBytes (record r.1 r.2 ++ records recs) 6 1 =
        some [if r.1.isFile then 8 else 4] := load_type []
    have hload7 : loadBytes (record r.1 r.2 ++ records recs) 7 1 =
        some [UInt8.ofNat r.1.name.length] := load_namlen []
    have hload8 : loadBytes (record r.1 r.2 ++ records recs) 8 r.1.name.length = some r.1.name :=
      load_name []
    have hroom : ¬ (r.2 < r.1.name.length + 9 ∨
        (record r.1 r.2 ++ records recs).length < r.2) := by
      rw [List.length_append, hlength]
      omega
    have hdrop : (record r.1 r.2 ++ records recs).drop r.2 = records recs := by
      have hleft : (record r.1 r.2 ++ records recs).drop (record r.1 r.2).length = records recs :=
        List.drop_left
      rwa [hlength] at hleft
    rw [records_cons, parseDirents, if_neg hnonempty, hload4, hload6, hload7]
    simp only [Option.bind_eq_bind, Option.bind_some, htype, toNat_namlen hfirst.2, hload8, hreclen,
      hdrop, if_neg hroom, ih hrest hothers (Nat.le_of_succ_le_succ hfuel)]
    rfl

/-! ### A sequence of calls -/

/-- Calls of `KernelGetdirentries` one after the other, with the sizes of their buffers: the data
that each of them has written. -/
def listings (fd : ℤ) : File → List ℤ → Option (List (List UInt8))
  | _, [] => some []
  | file, nbytes :: sizes => do
    match ← kernelGetdirentries fd false (some file) nbytes with
    | .listed _ data file =>
      let outputs ← listings fd file sizes
      some (data :: outputs)
    | _ => none

/-- Data that lists some entries: a reader finds a record for each of them, in order, and each
record lies in one block. -/
def Lists (bytes : List UInt8) (dents : List DirEntry) : Prop :=
  ∃ listed, parseDirents bytes.length 0 bytes = some listed ∧ listed.map Dirent.entry = dents ∧
    ∀ d ∈ listed, d.InBlock

/-- What a sequence of calls gives of a directory. -/
structure Complete (dents : List DirEntry) (sizes : List ℤ) (outputs : List (List UInt8)) :
    Prop where
  /-- A call writes no more than its buffer holds. -/
  bounded : List.Forall₂ (fun nbytes data => (data.length : ℤ) ≤ nbytes) sizes outputs
  /-- All the data lists the entries from the first one on. -/
  lists : ∃ k, Lists outputs.flatten (dents.take k)
  /-- A call returns 0 only when everything has been listed. -/
  zero : ∀ before later, outputs = before ++ [] :: later → Lists before.flatten dents
  /-- A call returns 0 when there are more calls than entries. -/
  ends : dents.length < sizes.length → [] ∈ outputs

variable {given rest : List (DirEntry × ℕ)}

theorem Packed.lists {recs : List (DirEntry × ℕ)} (hpacked : Packed 0 recs) (hnamed : Named recs) :
    Lists (records recs) (recs.map Prod.fst) := by
  refine ⟨found 0 recs, parseDirents_records hpacked hnamed ?_, map_entry_found, hpacked.inBlock⟩
  rw [hpacked.length_records]
  exact hpacked.length_le

/-- **A call gives something** as long as something is left. -/
theorem fitting_eq_nil {nbytes : ℤ} (hbytes : dirBlockSize ≤ nbytes) {offset : ℕ}
    (hpacked : Packed offset rest)
    (hnone : fitting (alignDown nbytes.toNat dirBlockSize) 0 rest = []) : rest = [] := by
  rcases rest with _ | ⟨r, rest⟩
  · rfl
  · obtain ⟨-, hblock, -⟩ := packed_cons.1 hpacked
    have hroom : dirBlockSize ≤ alignDown nbytes.toNat dirBlockSize := by
      unfold alignDown dirBlockSize at *
      omega
    unfold fitting at hnone
    rw [if_pos (by omega)] at hnone
    cases hnone

/-- **The calls** give records, chunk by chunk. -/
theorem listings_chunks {fd : ℤ} (hfd : descriptorMin ≤ fd) {sizes : List ℤ}
    (hsizes : ∀ nbytes ∈ sizes, (dirBlockSize : ℤ) ≤ nbytes) {file : File}
    (h : Listing file given rest) :
    ∃ (chunks : List (List (DirEntry × ℕ))) (left : List (DirEntry × ℕ)),
      listings fd file sizes = some (chunks.map records) ∧ rest = chunks.flatten ++ left ∧
      List.Forall₂ (fun nbytes chunk => ((records chunk).length : ℤ) ≤ nbytes) sizes chunks ∧
      (∀ before later, chunks = before ++ [] :: later → rest = before.flatten) ∧
      (rest.length < sizes.length → [] ∈ chunks) := by
  induction sizes generalizing file given rest with
  | nil => exact ⟨[], rest, rfl, rfl, .nil, fun before later heq => absurd heq.symm
      (List.append_ne_nil_of_right_ne_nil _ (List.cons_ne_nil _ _)),
      fun hlt => absurd hlt (Nat.not_lt_zero _)⟩
  | cons nbytes sizes ih =>
    obtain ⟨hbytes, hsizes⟩ := List.forall_mem_cons.1 hsizes
    have hcall := kernelGetdirentries_spec h hfd hbytes
    have hrest := (packed_append.1 h.packed).2
    set chunk := fitting (alignDown nbytes.toNat dirBlockSize) 0 rest with hchunk
    obtain ⟨rest', hsplit⟩ : chunk <+: rest := fitting_initial
    have hfile : Listing { file with dentsOffset := extent given + extent chunk } (given ++ chunk)
        rest' := by
      have hsame : given ++ chunk ++ rest' = given ++ rest := by rw [List.append_assoc, hsplit]
      refine ⟨h.directory, h.opened, (extent_append _ _).symm, ?_, ?_, ?_⟩
      · rw [hsame]
        exact h.build
      · rw [hsame]
        exact h.packed
      · rw [hsame]
        exact h.named
    obtain ⟨chunks, left, hlistings, hleft, hbounded, hzero, hends⟩ := ih hsizes hfile
    refine ⟨chunk :: chunks, left, ?_, ?_, .cons ?_ hbounded, ?_, ?_⟩
    · unfold listings
      rw [hcall, Option.bind_eq_bind, Option.bind_some]
      dsimp only
      rw [hlistings]
      rfl
    · rw [List.flatten_cons, List.append_assoc, ← hleft, hsplit]
    · have hfits : 0 + extent chunk ≤ alignDown nbytes.toNat dirBlockSize :=
        extent_fitting (Nat.zero_le _)
      have hlength : (records chunk).length = extent chunk :=
        (hrest.initial fitting_initial).length_records
      rw [hlength]
      unfold alignDown dirBlockSize at hfits
      unfold dirBlockSize at hbytes
      omega
    · intro before later heq
      rcases before with _ | ⟨first, before⟩
      · obtain ⟨hempty, -⟩ := List.cons.inj heq
        exact fitting_eq_nil hbytes hrest hempty
      · obtain ⟨rfl, hbefore⟩ := List.cons.inj heq
        rw [List.flatten_cons, ← hzero before later hbefore, hsplit]
    · intro hlt
      rcases hempty : chunk with _ | ⟨r, others⟩
      · exact List.mem_cons_self
      · -- fewer records are left for the other calls
        refine List.mem_cons_of_mem _ (hends ?_)
        rw [← hsplit, hempty, List.length_append, List.length_cons, List.length_cons] at hlt
        omega

theorem flatten_records (chunks : List (List (DirEntry × ℕ))) :
    (chunks.map records).flatten = records chunks.flatten := by
  induction chunks with
  | nil => rfl
  | cons chunk chunks ih =>
    rw [List.map_cons, List.flatten_cons, List.flatten_cons, records_append, ih]

theorem records_eq_nil {recs : List (DirEntry × ℕ)} (h : records recs = []) : recs = [] := by
  rcases recs with _ | ⟨r, recs⟩
  · rfl
  · exact absurd (List.append_eq_nil_iff.1 h).1 (List.cons_ne_nil _ _)

/-- **A directory is listed completely**, whatever the sizes of the buffers are. -/
theorem getdirentries_listing {fd : ℤ} {file : File} (hfd : descriptorMin ≤ fd)
    (hdirectory : file.directory = true) (hopened : file.opened = true)
    (hstart : file.dentsOffset = 0)
    (hnames : ∀ e ∈ file.dents, 1 ≤ e.name.length ∧ e.name.length ≤ 255) {sizes : List ℤ}
    (hsizes : ∀ nbytes ∈ sizes, 512 ≤ nbytes) :
    ∃ outputs, listings fd file sizes = some outputs ∧ Complete file.dents sizes outputs := by
  obtain ⟨recs, hentries, hpacked, hbuild⟩ := buildDirents_spec fun e he => (hnames e he).2
  have hnamed : Named recs := by
    intro r hr
    exact hnames r.1 (hentries ▸ List.mem_map_of_mem hr)
  have hlisting : Listing file [] recs := ⟨hdirectory, hopened, hstart, hbuild, hpacked, hnamed⟩
  obtain ⟨chunks, left, hlistings, hleft, hbounded, hzero, hends⟩ :=
    listings_chunks hfd hsizes hlisting
  have hall : Lists (records recs) file.dents := hentries ▸ hpacked.lists hnamed
  refine ⟨_, hlistings, ?_, ⟨chunks.flatten.length, ?_⟩, ?_, ?_⟩
  · exact List.forall₂_map_right_iff.2 hbounded
  · have hinitial : chunks.flatten <+: recs := ⟨left, hleft.symm⟩
    have hlists := (hpacked.initial hinitial).lists fun r hr => hnamed r (hinitial.subset hr)
    have htake : file.dents.take chunks.flatten.length = chunks.flatten.map Prod.fst := by
      rw [← hentries, ← List.map_take, hleft, List.take_left]
    rwa [flatten_records, htake]
  · intro before later heq
    obtain ⟨first, behind, rfl, rfl, hbehind⟩ := List.map_eq_append_iff.1 heq
    obtain ⟨chunk, others, rfl, hchunk, -⟩ := List.map_eq_cons_iff.1 hbehind
    obtain rfl := records_eq_nil hchunk
    rw [flatten_records, ← hzero first others rfl]
    exact hall
  · intro hlt
    rw [← hentries, List.length_map] at hlt
    exact List.mem_map.2 ⟨[], hends hlt, rfl⟩

/-- `getdirentries_listing` for a directory with one file. -/
theorem getdirentries_listing_one : ∃ outputs,
    listings 3 ⟨true, true, [⟨[0x61], true⟩], 0⟩ [512, 512] = some outputs ∧
      Complete [⟨[0x61], true⟩] [512, 512] outputs :=
  getdirentries_listing (by decide) rfl rfl rfl (by decide) (by decide)

end Prosperismo.Dirents
