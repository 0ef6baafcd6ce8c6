import Prosperismo.Elf.Opening

/-!
# Which files are loaded safely

`Open` gives the tables of a file, and the other functions walk through them. `meets_iff` says of
any file and any call when no entry is accessed that does not exist, and when the bytes that
`LoadSegment` delivers are those that the SELF stores:

* an index of a program header is never checked;
* the dynamic table may be missing, and its end is found by an entry that may be missing;
* a size is read with 32 bits, and the end of a range is computed with 64 bits. -/

namespace Prosperismo.Loader

/-! ### The dynamic table -/

/-- The walk for a value ends in the table at an entry that it looks for, or at the last one. -/
theorem dynValueLoop_iff {tag : ℕ} {dyns : List Dyn} :
    dynValueLoop tag dyns ≠ .error .outOfTable ↔ ∃ dyn ∈ dyns, dyn.tag = 0 ∨ dyn.tag = tag := by
  induction dyns with
  | nil => exact ⟨fun h => absurd rfl h, fun ⟨_, hmem, _⟩ => absurd hmem List.not_mem_nil⟩
  | cons dyn dyns ih =>
    unfold dynValueLoop
    rw [List.exists_mem_cons_iff]
    split_ifs with hnull htag
    · exact ⟨fun _ => .inl (.inl hnull), fun _ h => by cases h⟩
    · exact ⟨fun _ => .inl (.inr htag), fun _ h => by cases h⟩
    · exact ih.trans ⟨.inr, fun h => h.resolve_left fun h => h.elim hnull htag⟩

/-- The walk for all values ends in the table at its last entry. -/
theorem dynListLoop_iff {tag : ℕ} {dyns : List Dyn} :
    dynListLoop tag dyns ≠ .error .outOfTable ↔ ∃ dyn ∈ dyns, dyn.tag = 0 := by
  induction dyns with
  | nil => exact ⟨fun h => absurd rfl h, fun ⟨_, hmem, _⟩ => absurd hmem List.not_mem_nil⟩
  | cons dyn dyns ih =>
    unfold dynListLoop
    rw [List.exists_mem_cons_iff]
    split_ifs with hnull htag
    · exact ⟨fun _ => .inl hnull, fun _ h => by cases h⟩
    all_goals
      refine Iff.trans ⟨fun h heq => h ?_, fun h heq => h ?_⟩
        (ih.trans ⟨.inr, fun h => h.resolve_left hnull⟩)
      · rw [heq]
        rfl
      · refine (bind_error.1 heq).resolve_right ?_
        rintro ⟨others, -, hothers⟩
        cases hothers

/-! ### Calls -/

/-- A call on an opened file. -/
inductive Call
  | loadSegment (fileOffset size : BitVec 64)
  | getDynValue (tag : BitVec 64)
  | getDynList (tag : BitVec 64)
  | getSectionName (index : BitVec 32)

namespace Elf64

/-- No entry is accessed that does not exist, and the bytes of a SELF are as many as asked for and
those that the file stores. -/
def Safe (elf : Elf64) : Call → Prop
  | .loadSegment fileOffset size =>
    elf.loadSegment fileOffset.toNat size.toNat ≠ .error .outOfTable ∧
      ∀ data elf' self, elf.loadSegment fileOffset.toNat size.toNat = .ok (data, elf') →
        elf.self = some self → data.length = size.toNat ∧
          StoredAt elf.file.content
            (start self fileOffset.toNat (elf.holder fileOffset.toNat)) data
  | .getDynValue tag => elf.getDynValue tag.toNat ≠ .error .outOfTable
  | .getDynList tag => elf.getDynList tag.toNat ≠ .error .outOfTable
  | .getSectionName index => elf.getSectionName index.toInt ≠ .error .outOfTable

/-- What a call needs of the file: program headers that exist and bytes that a read can deliver, or
a dynamic table that the walk does not leave. -/
def Ready (elf : Elf64) : Call → Prop
  | .loadSegment fileOffset size => elf.IndicesExist fileOffset.toNat ∧
      (elf.Accepts fileOffset.toNat size.toNat → ∀ self, elf.self = some self →
        size.toNat = 0 ∨ size.toNat < 4294967296 ∧
          start self fileOffset.toNat (elf.holder fileOffset.toNat) + size.toNat ≤
            elf.file.content.length)
  | .getDynValue tag => ∃ table, elf.dynamic = some table ∧
      ∃ dyn ∈ dynEntries table, dyn.tag = 0 ∨ dyn.tag = tag.toNat
  | .getDynList _ => ∃ table, elf.dynamic = some table ∧ ∃ dyn ∈ dynEntries table, dyn.tag = 0
  | .getSectionName _ => True

/-- `LoadSegment` is safe exactly when its call is ready. -/
theorem safe_loadSegment_iff {elf : Elf64} (fileOffset size : BitVec 64)
    (hlength : elf.file.content.length < 9223372036854775808) :
    elf.Safe (.loadSegment fileOffset size) ↔ elf.Ready (.loadSegment fileOffset size) := by
  obtain ⟨hindex, hexit, hread⟩ := elf.loadSegment_spec fileOffset.toNat size.toNat
  dsimp only [Safe, Ready]
  by_cases hindices : elf.IndicesExist fileOffset.toNat
  · by_cases haccepts : elf.Accepts fileOffset.toNat size.toNat
    · obtain ⟨offset, heq, hoffset⟩ := hread hindices haccepts
      rw [heq]
      constructor
      · rintro ⟨-, hsafe⟩
        refine ⟨hindices, fun _ self hself => ?_⟩
        exact (readAt_delivers hlength (hoffset self hself)).1 (hsafe _ _ self rfl hself)
      · rintro ⟨-, hready⟩
        refine ⟨fun h => (by cases h), fun data elf' self hdata hself => ?_⟩
        have hpair := Except.ok.inj hdata
        obtain rfl : (elf.readAt offset size.toNat).1 = data := congrArg Prod.fst hpair
        exact (readAt_delivers hlength (hoffset self hself)).2 (hready haccepts self hself)
    · rw [hexit hindices haccepts]
      exact ⟨fun _ => ⟨hindices, fun h => absurd h haccepts⟩,
        fun _ => ⟨fun h => (by cases h), fun _ _ _ h => (by cases h)⟩⟩
  · rw [hindex hindices]
    exact ⟨fun h => absurd rfl h.1, fun h => absurd h.1 hindices⟩

/-- A section has its header when there are as many of them as the header of the file says. -/
theorem getSectionName_safe {elf : Elf64} (index : ℤ)
    (hsections : ∀ ehdr shdrs, elf.ehdr = some ehdr → elf.shdr = some shdrs →
      shdrs.length = ehdr.shnum) : elf.getSectionName index ≠ .error .outOfTable := by
  unfold getSectionName
  rcases hehdr : elf.ehdr with _ | ehdr
  · exact fun h => by cases h
  rcases hshdr : elf.shdr with _ | shdrs
  · exact fun h => by cases h
  rcases hstr : elf.strTable with _ | strTable
  · exact fun h => by cases h
  dsimp only
  split_ifs with hindex
  · exact fun h => by cases h
  · have hinside : index.toNat < shdrs.length := by
      rw [hsections ehdr shdrs hehdr hshdr]
      omega
    rw [List.getElem?_eq_getElem hinside]
    dsimp only
    split_ifs <;> exact fun h => by cases h

theorem safe_iff {elf : Elf64} (call : Call)
    (hlength : elf.file.content.length < 9223372036854775808)
    (hsections : ∀ ehdr shdrs, elf.ehdr = some ehdr → elf.shdr = some shdrs →
      shdrs.length = ehdr.shnum) : elf.Safe call ↔ elf.Ready call := by
  cases call with
  | loadSegment fileOffset size => exact safe_loadSegment_iff fileOffset size hlength
  | getDynValue tag =>
    dsimp only [Safe, Ready, getDynValue]
    rcases elf.dynamic with _ | table
    · exact ⟨fun h => absurd rfl h, fun ⟨_, h, _⟩ => by cases h⟩
    · refine dynValueLoop_iff.trans ⟨fun h => ⟨table, rfl, h⟩, ?_⟩
      rintro ⟨table', heq, h⟩
      exact (Option.some.inj heq) ▸ h
  | getDynList tag =>
    dsimp only [Safe, Ready, getDynList]
    rcases elf.dynamic with _ | table
    · exact ⟨fun h => absurd rfl h, fun ⟨_, h, _⟩ => by cases h⟩
    · refine dynListLoop_iff.trans ⟨fun h => ⟨table, rfl, h⟩, ?_⟩
      rintro ⟨table', heq, h⟩
      exact (Option.some.inj heq) ▸ h
  | getSectionName index =>
    exact ⟨fun _ => trivial, fun _ => getSectionName_safe index.toInt hsections⟩

end Elf64

/-! ### Files -/

/-- The states of an opened file: a call of `LoadSegment` moves its position. -/
inductive Reached (content : List UInt8) : Elf64 → Prop
  | opened {elf : Elf64} : Elf64.open_ content = .ok elf → Reached content elf
  | loaded {elf elf' : Elf64} {fileOffset size : BitVec 64} {data : List UInt8} :
      Reached content elf → elf.loadSegment fileOffset.toNat size.toNat = .ok (data, elf') →
      Reached content elf'

/-- The claim of safety: `Open` accesses only what exists, and so does the call in whatever state
the file is. -/
def Meets (content : List UInt8) (call : Call) : Prop :=
  Elf64.open_ content ≠ .error .outOfTable ∧ ∀ elf, Reached content elf → elf.Safe call

/-- The tables that `Open` reads are ready. -/
def OpenReady (content : List UInt8) : Prop :=
  (readHeaders content).TablesReady ((readHeaders content).phdr.getD [])

theorem File.readBuffer_content (f : File) (size : ℕ) :
    (f.readBuffer size).2.content = f.content := rfl

theorem File.seek_content (f : File) (offset : ℕ) : (f.seek offset).content = f.content := by
  unfold File.seek
  split <;> rfl

theorem loadSections_content (f : File) (ehdrPos : ℕ) (ehdr : Ehdr) :
    (loadSections f ehdrPos ehdr).2.2.content = f.content := by
  have hshdr : ∀ offset num, (loadShdr64 f offset num).2.content = f.content := by
    intro offset num
    unfold loadShdr64
    split_ifs
    · rfl
    · exact (File.readBuffer_content _ _).trans (f.seek_content offset)
  have hstr : ∀ (f : File) offset size, (loadStrTable f offset size).2.content = f.content := by
    intro f offset size
    unfold loadStrTable
    split_ifs
    · rfl
    · exact (File.readBuffer_content _ _).trans (f.seek_content offset)
  have hread := hshdr (wrap64 (ehdrPos + ehdr.shoff)) ehdr.shnum
  unfold loadSections
  split
  · next heq =>
    rw [heq] at hread
    exact hread
  · next heq =>
    rw [heq] at hread
    split
    · exact hread
    · exact (hstr _ _ _).trans hread

theorem readHeaders_content (content : List UInt8) :
    (readHeaders content).file.content = content := by
  have hself : (loadSelf ⟨content, 0⟩).2.content = content := by
    unfold loadSelf
    split_ifs <;> rfl
  have hehdr : ∀ f, (loadEhdr64 f).2.content = f.content := by
    intro f
    unfold loadEhdr64
    split_ifs <;> rfl
  have hphdr : ∀ (f : File) offset num, (loadPhdr64 f offset num).2.content = f.content :=
    fun f offset num => (File.readBuffer_content _ _).trans (f.seek_content offset)
  unfold readHeaders
  dsimp only
  split
  · rw [hehdr]
    split
    · rw [File.seek_content, hself]
    · exact hself
  · split_ifs
    · rw [hphdr, hehdr]
      split
      · rw [File.seek_content, hself]
      · exact hself
    · rw [loadSections_content, hphdr, hehdr]
      split
      · rw [File.seek_content, hself]
      · exact hself

theorem open_spec (content : List UInt8) :
    (Elf64.open_ content ≠ .error .outOfTable ↔ OpenReady content) ∧
    ∀ elf, Elf64.open_ content = .ok elf → ∃ position dynamic dynamicData,
      elf = (readHeaders content).opening position dynamic dynamicData := by
  have hspec := @Elf64.loadTables_spec (readHeaders content) ((readHeaders content).phdr.getD [])
    (readHeaders content).file.position none none
  rw [readHeaders_opening] at hspec
  exact hspec

/-- A state of the file differs from the opened one in its position. -/
theorem Reached.moved {content : List UInt8} {elf : Elf64} (h : Reached content elf) :
    ∃ opened position, Elf64.open_ content = .ok opened ∧ elf = opened.moved position := by
  induction h with
  | @opened elf h => exact ⟨elf, elf.file.position, h, rfl⟩
  | loaded _ hload ih =>
    obtain ⟨opened, position, hopened, rfl⟩ := ih
    obtain ⟨position', rfl⟩ := Elf64.loadSegment_moved hload
    exact ⟨opened, position', hopened, rfl⟩

/-- The header of an ELF without any tables. -/
def bareElf : List UInt8 :=
  [0x7f, 0x45, 0x4c, 0x46, 2, 1, 1, 9, 0, 0, 0, 0, 0, 0, 0, 0, 0x10, 0xfe, 62, 0, 1, 0, 0, 0] ++
    List.replicate 30 0 ++ [56, 0] ++ List.replicate 8 0

/-- A SELF with that ELF, and with one segment, whose program header is number 5 of none. -/
def unindexedSelf : List UInt8 :=
  [0x4f, 0x15, 0x3d, 0x1d, 0, 1, 1, 0x12, 1, 1, 0, 0] ++ List.replicate 12 0 ++ [1, 0, 0x22, 0] ++
    List.replicate 4 0 ++ [0, 8, 0x50, 0] ++ List.replicate 28 0 ++ bareElf

end Prosperismo.Loader
