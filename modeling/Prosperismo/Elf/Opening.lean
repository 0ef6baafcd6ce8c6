import Prosperismo.Elf.Model
import Prosperismo.Base.Except

/-!
# What `LoadSegment` accesses and delivers

`LoadSegment` looks at the program header of each segment of a SELF until one holds the file offset,
and takes its index from the file (`findSegment_spec`). What it delivers is right when the bytes are
no more than a read can ask for and lie in the file (`readAt_delivers`). -/

namespace Prosperismo.Loader

/-! ### The search -/

/-- The segment and the program header that hold a file offset: the first ones of the file. -/
def holderOf (phdrs : List Phdr) (segs : List SelfSegment) (fileOffset : ℕ) :
    Option (SelfSegment × Phdr) :=
  segs.findSome? fun seg =>
    if seg.isBlocked then
      (phdrs[seg.phdrId]?.filter fun phdr => phdr.holds fileOffset).map (seg, ·)
    else none

/-- The segments whose program header does not exist stand behind one that holds the offset. -/
def IndicesOk (phdrs : List Phdr) (segs : List SelfSegment) (fileOffset : ℕ) : Prop :=
  ∀ before seg after, segs = before ++ seg :: after → seg.isBlocked = true →
    phdrs.length ≤ seg.phdrId → (holderOf phdrs before fileOffset).isSome

variable {phdrs : List Phdr} {segs : List SelfSegment} {fileOffset : ℕ}

theorem holderOf_cons (seg : SelfSegment) :
    holderOf phdrs (seg :: segs) fileOffset =
      (if seg.isBlocked then
        (phdrs[seg.phdrId]?.filter fun phdr => phdr.holds fileOffset).map (seg, ·)
      else none).or (holderOf phdrs segs fileOffset) := by
  unfold holderOf
  rw [List.findSome?_cons]
  split
  · next heq => rw [heq, Option.some_or]
  · next heq => rw [heq, Option.none_or]

/-- A segment that does not hold the offset and has its program header is passed over. -/
theorem indicesOk_cons {seg : SelfSegment}
    (hindex : seg.isBlocked = true → seg.phdrId < phdrs.length)
    (hother : (if seg.isBlocked then
        (phdrs[seg.phdrId]?.filter fun phdr => phdr.holds fileOffset).map (seg, ·)
      else none) = none) :
    IndicesOk phdrs (seg :: segs) fileOffset ↔ IndicesOk phdrs segs fileOffset := by
  constructor
  · rintro h before seg' after rfl hblocked hle
    have hholder := h (seg :: before) seg' after rfl hblocked hle
    rwa [holderOf_cons, hother, Option.none_or] at hholder
  · intro h before seg' after hsplit hblocked hle
    rcases before with _ | ⟨first, before⟩
    · obtain ⟨rfl, -⟩ := List.cons.inj hsplit
      exact absurd (hindex hblocked) (Nat.not_lt.2 hle)
    · obtain ⟨rfl, hrest⟩ := List.cons.inj hsplit
      rw [holderOf_cons, hother, Option.none_or]
      exact h before seg' after hrest hblocked hle

/-- **The search** finds the first holder, or accesses a program header that does not exist. -/
theorem findSegment_spec :
    (IndicesOk phdrs segs fileOffset →
      findSegment phdrs fileOffset segs = .ok (holderOf phdrs segs fileOffset)) ∧
    (¬ IndicesOk phdrs segs fileOffset →
      findSegment phdrs fileOffset segs = .error .outOfTable) := by
  induction segs with
  | nil =>
    refine ⟨fun _ => rfl, fun h => absurd ?_ h⟩
    intro before seg after hsplit
    exact absurd hsplit.symm (List.append_ne_nil_of_right_ne_nil _ (List.cons_ne_nil _ _))
  | cons seg segs ih =>
    unfold findSegment
    rcases hblocked : seg.isBlocked with _ | _
    · have hnone : (if seg.isBlocked then
          (phdrs[seg.phdrId]?.filter fun phdr => phdr.holds fileOffset).map (seg, ·)
        else none) = none := by
        rw [hblocked]
        rfl
      rw [indicesOk_cons (fun h => absurd (hblocked.symm.trans h) Bool.false_ne_true) hnone,
        holderOf_cons, hnone, Option.none_or, if_neg Bool.false_ne_true]
      exact ih
    · rw [if_pos rfl]
      rcases hphdr : phdrs[seg.phdrId]? with _ | phdr
      · -- the program header does not exist
        refine ⟨fun h => ?_, fun _ => rfl⟩
        have hfirst := h [] seg segs rfl hblocked (List.getElem?_eq_none_iff.1 hphdr)
        exact absurd hfirst Bool.false_ne_true
      · dsimp only
        have hindex : seg.phdrId < phdrs.length := (List.getElem?_eq_some_iff.1 hphdr).1
        rcases hholds : phdr.holds fileOffset with _ | _
        · have hnone : (if seg.isBlocked then
              (phdrs[seg.phdrId]?.filter fun phdr => phdr.holds fileOffset).map (seg, ·)
            else none) = none := by
            rw [hblocked, if_pos rfl, hphdr, Option.filter_some, hholds]
            rfl
          rw [indicesOk_cons (fun _ => hindex) hnone, holderOf_cons, hnone, Option.none_or,
            if_neg Bool.false_ne_true]
          exact ih
        · have hsome : (if seg.isBlocked then
              (phdrs[seg.phdrId]?.filter fun phdr => phdr.holds fileOffset).map (seg, ·)
            else none) = some (seg, phdr) := by
            rw [hblocked, if_pos rfl, hphdr, Option.filter_some, hholds]
            rfl
          rw [holderOf_cons, hsome, Option.some_or, if_pos rfl]
          refine ⟨fun _ => rfl, fun h => absurd ?_ h⟩
          intro before seg' after hsplit hblocked' hle
          rcases before with _ | ⟨first, before⟩
          · obtain ⟨rfl, -⟩ := List.cons.inj hsplit
            exact absurd hindex (Nat.not_lt.2 hle)
          · obtain ⟨rfl, -⟩ := List.cons.inj hsplit
            rw [holderOf_cons, hsome, Option.some_or]
            rfl

/-! ### The read -/

/-- Bytes that stand in a file from an offset on. -/
def StoredAt (content : List UInt8) (start : ℕ) (bytes : List UInt8) : Prop :=
  ∀ j < bytes.length, content[start + j]? = bytes[j]?

/-- **A seek and a read** deliver the bytes at an offset exactly when there are no more of them than
a read can ask for, and the file has them. The offset may have been computed with 64 bits. -/
theorem readAt_delivers {elf : Elf64} {start offset size : ℕ}
    (hlength : elf.file.content.length < 9223372036854775808)
    (hoffset : offset = start ∨ offset = wrap64 start) :
    ((elf.readAt offset size).1.length = size ∧
        StoredAt elf.file.content start (elf.readAt offset size).1) ↔
      size = 0 ∨ size < 4294967296 ∧ start + size ≤ elf.file.content.length := by
  have hdata : (elf.readAt offset size).1 =
      ((elf.file.seek offset).content.drop (elf.file.seek offset).position).take
        (size % 4294967296) := rfl
  constructor
  · rintro ⟨hsize, hstored⟩
    by_cases hzero : size = 0
    · exact .inl hzero
    · have hle : (elf.readAt offset size).1.length ≤ size % 4294967296 := by
        rw [hdata, List.length_take]
        exact Nat.min_le_left _ _
      have hlast := hstored (size - 1) (by omega)
      have hinside : size - 1 < (elf.readAt offset size).1.length := by omega
      rw [List.getElem?_eq_getElem hinside] at hlast
      have hend := (List.getElem?_eq_some_iff.1 hlast).1
      exact .inr ⟨by omega, by omega⟩
  · rintro (rfl | ⟨hsmall, hend⟩)
    · refine ⟨by rw [hdata]; rfl, fun j hj => ?_⟩
      rw [hdata] at hj
      exact absurd hj (Nat.not_lt_zero _)
    · by_cases hzero : size = 0
      · subst hzero
        refine ⟨by rw [hdata]; rfl, fun j hj => ?_⟩
        rw [hdata] at hj
        exact absurd hj (Nat.not_lt_zero _)
      · -- the offset is in the file, so that the seek goes there
        have hsame : offset = start := by
          rcases hoffset with hsame | hwrap
          · exact hsame
          · rw [hwrap]
            exact Nat.mod_eq_of_lt (by omega)
        have hseek : elf.file.seek offset = { elf.file with position := start } := by
          unfold File.seek
          rw [hsame, if_pos (by omega)]
        rw [hseek, Nat.mod_eq_of_lt hsmall] at hdata
        have hsize : (elf.readAt offset size).1.length = size := by
          rw [hdata, List.length_take, List.length_drop]
          exact Nat.min_eq_left (by dsimp only; omega)
        refine ⟨hsize, fun j hj => ?_⟩
        rw [hsize] at hj
        rw [hdata, List.getElem?_take_of_lt hj, List.getElem?_drop]

end Prosperismo.Loader

/-!
# `LoadSegment` and `Open`

Each of them ends in one of three ways: it accesses a program header that does not exist, it stops
the process, or it gives what was read (`loadSegment_spec`, `loadTables_spec`). The index of a
program header is taken from a segment of the SELF and is never checked, so that the first outcome
depends on the file alone. -/

namespace Prosperismo.Loader

/-- The header of a table that `Open` reads. -/
def Phdr.isTable (phdr : Phdr) : Prop := phdr.type = ptDynamic ∨ phdr.type = ptOsDynlibdata

namespace Elf64

/-- The segment that holds a file offset, with its program header. -/
def holder (elf : Elf64) (fileOffset : ℕ) : Option (SelfSegment × Phdr) :=
  holderOf (elf.phdr.getD []) elf.selfSegments fileOffset

/-- The program headers that `LoadSegment` looks at exist. -/
def IndicesExist (elf : Elf64) (fileOffset : ℕ) : Prop :=
  elf.self.isSome = true → ∀ phdrs, elf.phdr = some phdrs →
    IndicesOk phdrs elf.selfSegments fileOffset

/-- Where a SELF stores what the ELF has at a file offset: in the segment that holds it, or behind
the segments. -/
def start (self : SelfHeader) (fileOffset : ℕ) : Option (SelfSegment × Phdr) → ℕ
  | some (seg, phdr) => fileOffset - phdr.offset + seg.offset
  | none => self.fileSize

/-- The checks of `LoadSegment` on what it has found. -/
def Fits (elf : Elf64) (self : SelfHeader) (fileOffset size : ℕ) :
    Option (SelfSegment × Phdr) → Prop
  | some (seg, phdr) => seg.decompressedSize = phdr.filesz ∧
      seg.compressedSize = seg.decompressedSize ∧
      wrap64 (fileOffset - phdr.offset + size) ≤ seg.decompressedSize
  | none => sub64 elf.file.content.length self.fileSize = size

/-- `LoadSegment` does not stop the process. -/
def Accepts (elf : Elf64) (fileOffset size : ℕ) : Prop :=
  ∀ self, elf.self = some self →
    elf.phdr.isSome = true ∧ elf.Fits self fileOffset size (elf.holder fileOffset)

theorem loadFrom_of_fits {elf : Elf64} {self : SelfHeader} {fileOffset size : ℕ}
    {found : Option (SelfSegment × Phdr)} (h : elf.Fits self fileOffset size found) :
    ∃ offset, elf.loadFrom self fileOffset size found = .ok (elf.readAt offset size) ∧
      (offset = start self fileOffset found ∨ offset = wrap64 (start self fileOffset found)) := by
  rcases found with _ | ⟨seg, phdr⟩
  · exact ⟨self.fileSize, if_pos h, .inl rfl⟩
  · obtain ⟨hequal, hcompressed, hsize⟩ := h
    refine ⟨wrap64 (fileOffset - phdr.offset + seg.offset), ?_, .inr rfl⟩
    unfold loadFrom
    dsimp only
    rw [if_neg (not_not.2 hequal), if_neg (not_not.2 hcompressed), if_neg (Nat.not_lt.2 hsize)]

theorem loadFrom_of_not_fits {elf : Elf64} {self : SelfHeader} {fileOffset size : ℕ}
    {found : Option (SelfSegment × Phdr)} (h : ¬ elf.Fits self fileOffset size found) :
    elf.loadFrom self fileOffset size found = .error .exit := by
  rcases found with _ | ⟨seg, phdr⟩
  · exact if_neg h
  · unfold loadFrom
    dsimp only
    split_ifs with hequal hcompressed hsize
    · rfl
    · rfl
    · rfl
    · exact absurd ⟨not_not.1 hequal, not_not.1 hcompressed, Nat.not_lt.1 hsize⟩ h

/-- **`LoadSegment`**: an access outside of the program headers, a stop, or a read. -/
theorem loadSegment_spec (elf : Elf64) (fileOffset size : ℕ) :
    (¬ elf.IndicesExist fileOffset → elf.loadSegment fileOffset size = .error .outOfTable) ∧
    (elf.IndicesExist fileOffset → ¬ elf.Accepts fileOffset size →
      elf.loadSegment fileOffset size = .error .exit) ∧
    (elf.IndicesExist fileOffset → elf.Accepts fileOffset size → ∃ offset,
      elf.loadSegment fileOffset size = .ok (elf.readAt offset size) ∧
      ∀ self, elf.self = some self → offset = start self fileOffset (elf.holder fileOffset) ∨
        offset = wrap64 (start self fileOffset (elf.holder fileOffset))) := by
  unfold IndicesExist Accepts loadSegment
  rcases hself : elf.self with _ | self
  · refine ⟨fun h => absurd (fun hnone => absurd hnone Bool.false_ne_true) h,
      fun _ h => absurd (fun _ hnone => by cases hnone) h,
      fun _ _ => ⟨fileOffset, rfl, fun _ hnone => by cases hnone⟩⟩
  · rcases hphdr : elf.phdr with _ | phdrs
    · refine ⟨fun h => absurd (fun _ _ hnone => by cases hnone) h, fun _ _ => rfl,
        fun _ h => absurd (h self rfl).1 Bool.false_ne_true⟩
    · have hholder : elf.holder fileOffset = holderOf phdrs elf.selfSegments fileOffset := by
        unfold holder
        rw [hphdr]
        rfl
      obtain ⟨hfound, hbad⟩ := @findSegment_spec phdrs elf.selfSegments fileOffset
      have hindices : ((some self).isSome = true → ∀ phdrs', some phdrs = some phdrs' →
          IndicesOk phdrs' elf.selfSegments fileOffset) ↔
          IndicesOk phdrs elf.selfSegments fileOffset :=
        ⟨fun h => h rfl phdrs rfl, fun h _ phdrs' heq => Option.some.inj heq ▸ h⟩
      rw [hindices, hholder]
      dsimp only
      refine ⟨fun h => by rw [hbad h]; rfl, fun h haccepts => ?_, fun h haccepts => ?_⟩
      · rw [hfound h]
        refine loadFrom_of_not_fits fun hfits => haccepts fun self' heq => ⟨rfl, ?_⟩
        obtain rfl := Option.some.inj heq
        exact hfits
      · rw [hfound h]
        obtain ⟨offset, hread, hoffset⟩ := loadFrom_of_fits (haccepts self rfl).2
        refine ⟨offset, hread, fun self' heq => ?_⟩
        obtain rfl := Option.some.inj heq
        exact hoffset

/-! ### `Open` -/

/-- The file after a seek or a read. -/
def moved (elf : Elf64) (position : ℕ) : Elf64 :=
  { elf with file := { elf.file with position := position } }

/-- The file while `Open` reads its tables. -/
def opening (elf : Elf64) (position : ℕ) (dynamic dynamicData : Option (List UInt8)) : Elf64 :=
  { elf.moved position with dynamic := dynamic, dynamicData := dynamicData }

theorem readAt_moved (elf : Elf64) (offset size : ℕ) :
    ∃ position, (elf.readAt offset size).2 = elf.moved position := by
  have hcontent : (elf.file.seek offset).content = elf.file.content := by
    unfold File.seek
    split <;> rfl
  have hread : (elf.readAt offset size).2 = { elf with file :=
      ⟨(elf.file.seek offset).content, (elf.readAt offset size).2.file.position⟩ } := rfl
  refine ⟨(elf.readAt offset size).2.file.position, ?_⟩
  rw [hread, hcontent]
  rfl

/-- `LoadSegment` changes nothing but the position. -/
theorem loadSegment_moved {elf elf' : Elf64} {fileOffset size : ℕ} {data : List UInt8}
    (h : elf.loadSegment fileOffset size = .ok (data, elf')) :
    ∃ position, elf' = elf.moved position := by
  obtain ⟨hindex, hexit, hread⟩ := elf.loadSegment_spec fileOffset size
  by_cases hindices : elf.IndicesExist fileOffset
  · by_cases haccepts : elf.Accepts fileOffset size
    · obtain ⟨offset, heq, -⟩ := hread hindices haccepts
      obtain ⟨position, hposition⟩ := elf.readAt_moved offset size
      rw [h] at heq
      exact ⟨position, (congrArg Prod.snd (Except.ok.inj heq)).trans hposition⟩
    · rw [h] at hexit
      cases hexit hindices haccepts
  · rw [h] at hindex
    cases hindex hindices

/-- The tables are read in turn, until one of them stops the process; `LoadSegment` looks for each
of them only at program headers that exist. -/
def TablesReady (elf : Elf64) : List Phdr → Prop
  | [] => True
  | phdr :: rest => (phdr.isTable → elf.IndicesExist phdr.offset) ∧
      ((phdr.isTable → elf.Accepts phdr.offset phdr.filesz) → elf.TablesReady rest)

/-- The bytes of a table. -/
theorem loadDynamic64_spec (elf : Elf64) (phdr : Phdr) :
    (¬ elf.IndicesExist phdr.offset → elf.loadDynamic64 phdr = .error .outOfTable) ∧
    (elf.IndicesExist phdr.offset → ¬ elf.Accepts phdr.offset phdr.filesz →
      elf.loadDynamic64 phdr = .error .exit) ∧
    (elf.IndicesExist phdr.offset → elf.Accepts phdr.offset phdr.filesz → ∃ data position,
      elf.loadDynamic64 phdr = .ok (data, elf.moved position)) := by
  obtain ⟨hindex, hexit, hread⟩ := elf.loadSegment_spec phdr.offset phdr.filesz
  unfold loadDynamic64
  refine ⟨fun h => by rw [hindex h]; rfl, fun h haccepts => by rw [hexit h haccepts]; rfl,
    fun h haccepts => ?_⟩
  obtain ⟨offset, heq, -⟩ := hread h haccepts
  obtain ⟨position, hposition⟩ := elf.readAt_moved offset phdr.filesz
  rw [heq]
  exact ⟨_, position, congrArg Except.ok (Prod.ext rfl hposition)⟩

/-- **One program header** of the loop of `Open`. -/
theorem loadTable_spec (elf : Elf64) (position : ℕ) (dynamic dynamicData : Option (List UInt8))
    (phdr : Phdr) :
    (¬ (phdr.isTable → elf.IndicesExist phdr.offset) →
      (elf.opening position dynamic dynamicData).loadTable phdr = .error .outOfTable) ∧
    ((phdr.isTable → elf.IndicesExist phdr.offset) →
      ¬ (phdr.isTable → elf.Accepts phdr.offset phdr.filesz) →
      (elf.opening position dynamic dynamicData).loadTable phdr = .error .exit) ∧
    ((phdr.isTable → elf.IndicesExist phdr.offset) →
      (phdr.isTable → elf.Accepts phdr.offset phdr.filesz) → ∃ position' dynamic' dynamicData',
        (elf.opening position dynamic dynamicData).loadTable phdr =
          .ok (elf.opening position' dynamic' dynamicData')) := by
  -- what the checks look at does not change while the tables are read
  have hdynamic : (¬ elf.IndicesExist phdr.offset →
        (elf.opening position dynamic dynamicData).loadDynamic64 phdr = .error .outOfTable) ∧
      (elf.IndicesExist phdr.offset → ¬ elf.Accepts phdr.offset phdr.filesz →
        (elf.opening position dynamic dynamicData).loadDynamic64 phdr = .error .exit) ∧
      (elf.IndicesExist phdr.offset → elf.Accepts phdr.offset phdr.filesz → ∃ data position',
        (elf.opening position dynamic dynamicData).loadDynamic64 phdr =
          .ok (data, (elf.opening position dynamic dynamicData).moved position')) :=
    (elf.opening position dynamic dynamicData).loadDynamic64_spec phdr
  obtain ⟨hindex, hexit, hread⟩ := hdynamic
  unfold loadTable
  by_cases hdyn : phdr.type = ptDynamic
  · have htable : phdr.isTable := .inl hdyn
    rw [if_pos hdyn]
    refine ⟨fun h => ?_, fun h haccepts => ?_, fun h haccepts => ?_⟩
    · rw [hindex fun hok => h fun _ => hok]
      rfl
    · rw [hexit (h htable) fun hok => haccepts fun _ => hok]
      rfl
    · obtain ⟨data, position', heq⟩ := hread (h htable) (haccepts htable)
      rw [heq]
      exact ⟨position', some data, dynamicData, rfl⟩
  · rw [if_neg hdyn]
    by_cases hdata : phdr.type = ptOsDynlibdata
    · have htable : phdr.isTable := .inr hdata
      rw [if_pos hdata]
      refine ⟨fun h => ?_, fun h haccepts => ?_, fun h haccepts => ?_⟩
      · rw [hindex fun hok => h fun _ => hok]
        rfl
      · rw [hexit (h htable) fun hok => haccepts fun _ => hok]
        rfl
      · obtain ⟨data, position', heq⟩ := hread (h htable) (haccepts htable)
        rw [heq]
        exact ⟨position', dynamic, some data, rfl⟩
    · have htable : ¬ phdr.isTable := fun h => h.elim hdyn hdata
      rw [if_neg hdata]
      exact ⟨fun h => absurd (fun hyes => absurd hyes htable) h,
        fun _ h => absurd (fun hyes => absurd hyes htable) h,
        fun _ _ => ⟨position, dynamic, dynamicData, rfl⟩⟩

/-- **The loop of `Open`** accesses only program headers that exist, exactly when the tables are
ready. -/
theorem loadTables_spec (elf : Elf64) {phdrs : List Phdr} {position : ℕ}
    {dynamic dynamicData : Option (List UInt8)} :
    (phdrs.foldlM loadTable (elf.opening position dynamic dynamicData) ≠ .error .outOfTable ↔
      elf.TablesReady phdrs) ∧
    ∀ elf', phdrs.foldlM loadTable (elf.opening position dynamic dynamicData) = .ok elf' →
      ∃ position' dynamic' dynamicData', elf' = elf.opening position' dynamic' dynamicData' := by
  induction phdrs generalizing position dynamic dynamicData with
  | nil =>
    rw [List.foldlM_nil]
    refine ⟨⟨fun _ => trivial, fun _ h => by cases h⟩, fun elf' h => ?_⟩
    exact ⟨position, dynamic, dynamicData, (Except.ok.inj h).symm⟩
  | cons phdr phdrs ih =>
    obtain ⟨hindex, hexit, hread⟩ := elf.loadTable_spec position dynamic dynamicData phdr
    rw [List.foldlM_cons]
    unfold TablesReady
    by_cases hindices : phdr.isTable → elf.IndicesExist phdr.offset
    · by_cases haccepts : phdr.isTable → elf.Accepts phdr.offset phdr.filesz
      · obtain ⟨position', dynamic', dynamicData', heq⟩ := hread hindices haccepts
        rw [heq]
        refine ⟨(ih.1).trans ⟨fun h => ⟨hindices, fun _ => h⟩, fun h => h.2 haccepts⟩, ih.2⟩
      · rw [hexit hindices haccepts]
        exact ⟨⟨fun _ => ⟨hindices, fun h => absurd h haccepts⟩, fun _ h => by cases h⟩,
          fun elf' h => by cases h⟩
    · rw [hindex hindices]
      exact ⟨⟨fun h => absurd rfl h, fun h => absurd h.1 hindices⟩, fun elf' h => by cases h⟩

end Elf64

/-- Before the tables are read there are none. -/
theorem Elf64.opening_of_none {elf : Elf64} (hdynamic : elf.dynamic = none)
    (hdata : elf.dynamicData = none) : elf.opening elf.file.position none none = elf := by
  unfold opening moved
  rw [← hdynamic]
  cases elf
  subst hdynamic hdata
  rfl

theorem readHeaders_opening (content : List UInt8) :
    (readHeaders content).opening (readHeaders content).file.position none none =
      readHeaders content := by
  refine Elf64.opening_of_none ?_ ?_ <;>
  · unfold readHeaders
    dsimp only
    split <;> rfl

/-- The section headers are as many as the header says. -/
theorem readHeaders_sections {content : List UInt8} {ehdr : Ehdr} {shdrs : List Shdr}
    (hehdr : (readHeaders content).ehdr = some ehdr)
    (hshdr : (readHeaders content).shdr = some shdrs) : shdrs.length = ehdr.shnum := by
  have hload : ∀ f offset num, (loadShdr64 f offset num).1 = some shdrs →
      shdrs.length = num := by
    intro f offset num h
    unfold loadShdr64 at h
    split_ifs at h with hzero
    obtain rfl := Option.some.inj h
    unfold tableOf
    rw [List.length_map, List.length_range]
  have hsections : ∀ f position header, (loadSections f position header).1 = some shdrs →
      shdrs.length = header.shnum := by
    intro f position header h
    refine hload f (wrap64 (position + header.shoff)) header.shnum ?_
    unfold loadSections at h
    split at h
    · cases h
    · next shdrs' f' heq =>
      rw [heq]
      split at h
      · exact h
      · exact h
  unfold readHeaders at hehdr hshdr
  dsimp only at hehdr hshdr
  split at hehdr
  · cases hehdr
  · next header heq =>
    rw [heq] at hshdr
    obtain rfl := Option.some.inj hehdr
    dsimp only at hshdr
    split_ifs at hshdr
    exact hsections _ _ _ hshdr

end Prosperismo.Loader
