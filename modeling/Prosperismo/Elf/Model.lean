import Prosperismo.Base.Bytes
import Mathlib.Data.List.GetD

/-!
# `Elf64`

The loader of ELF and SELF files: `Open`, `LoadSegment`, `GetDynValue`, `GetDynList` and
`GetSectionName`. A file is its bytes and a position in them. An access to an entry that a table
does not have is an outcome of its own, as is the stop of the process. -/

namespace Prosperismo.Loader

/-- How a function ends that gives no result. -/
inductive Stop
  /-- The process stops (`EXIT`, `EXIT_IF`, `EXIT_NOT_IMPLEMENTED`). -/
  | exit
  /-- An entry is accessed that does not exist. -/
  | outOfTable
  deriving DecidableEq

/-- An unsigned number of 64 bits. -/
def wrap64 (value : ℕ) : ℕ := value % 18446744073709551616

/-- A difference of unsigned numbers of 64 bits. -/
def sub64 (value value' : ℕ) : ℕ := wrap64 (value + 18446744073709551616 - value')

/-! ### Files -/

/-- `Common::File`, opened for reading. -/
structure File where
  content : List UInt8
  position : ℕ
  deriving DecidableEq

namespace File

/-- `Seek`, which fails and moves nothing when the offset is negative as a signed number. -/
def seek (f : File) (offset : ℕ) : File :=
  if offset < 9223372036854775808 then { f with position := offset } else f

/-- `Read`, whose size has 32 bits: the bytes that the file has there. -/
def read (f : File) (size : ℕ) : List UInt8 × File :=
  let data := (f.content.drop f.position).take (size % 4294967296)
  (data, { f with position := f.position + data.length })

/-- `Remaining`. -/
def remaining (f : File) : ℕ := f.content.length - f.position

/-- `Read` into a buffer of zeros. -/
def readBuffer (f : File) (size : ℕ) : List UInt8 × File :=
  let (data, f) := f.read size
  (data ++ List.replicate (size - data.length) 0, f)

end File

/-- A field of a packed structure. -/
def field (bytes : List UInt8) (offset count : ℕ) : ℕ :=
  ofLittleEndian ((bytes.drop offset).take count)

/-- The entries of a table. -/
def tableOf {α : Type} (parse : List UInt8 → α) (size num : ℕ) (bytes : List UInt8) : List α :=
  (List.range num).map fun i => parse (bytes.drop (i * size))

/-! ### The structures of the file -/

/-- `SelfHeader`. -/
structure SelfHeader where
  ident : List UInt8
  fileSize : ℕ
  segmentsNum : ℕ
  unknown : ℕ
  deriving DecidableEq

/-- `sizeof(SelfHeader)`. -/
def selfHeaderSize : ℕ := 32

def SelfHeader.ofBytes (bytes : List UInt8) : SelfHeader :=
  ⟨bytes.take 12, field bytes 16 8, field bytes 24 2, field bytes 26 2⟩

/-- `SelfSegment`. -/
structure SelfSegment where
  type : ℕ
  offset : ℕ
  compressedSize : ℕ
  decompressedSize : ℕ
  deriving DecidableEq

def SelfSegment.ofBytes (bytes : List UInt8) : SelfSegment :=
  ⟨field bytes 0 8, field bytes 8 8, field bytes 16 8, field bytes 24 8⟩

/-- Whether the segment holds what a program header is about. -/
def SelfSegment.isBlocked (seg : SelfSegment) : Bool := seg.type.testBit 11

/-- The index of that program header. -/
def SelfSegment.phdrId (seg : SelfSegment) : ℕ := seg.type / 1048576 % 4096

/-- `Elf64_Ehdr`. -/
structure Ehdr where
  ident : List UInt8
  type : ℕ
  machine : ℕ
  version : ℕ
  phoff : ℕ
  shoff : ℕ
  phentsize : ℕ
  phnum : ℕ
  shentsize : ℕ
  shnum : ℕ
  shstrndx : ℕ
  deriving DecidableEq

/-- `sizeof(Elf64_Ehdr)`. -/
def ehdrSize : ℕ := 64

def Ehdr.ofBytes (bytes : List UInt8) : Ehdr :=
  ⟨bytes.take 16, field bytes 16 2, field bytes 18 2, field bytes 20 4, field bytes 32 8,
    field bytes 40 8, field bytes 54 2, field bytes 56 2, field bytes 58 2, field bytes 60 2,
    field bytes 62 2⟩

/-- `Elf64_Phdr`. -/
structure Phdr where
  type : ℕ
  offset : ℕ
  filesz : ℕ
  deriving DecidableEq

/-- `sizeof(Elf64_Phdr)`. -/
def phdrSize : ℕ := 56

def Phdr.ofBytes (bytes : List UInt8) : Phdr := ⟨field bytes 0 4, field bytes 8 8, field bytes 32 8⟩

/-- `PT_DYNAMIC`. -/
def ptDynamic : ℕ := 2

/-- `PT_OS_DYNLIBDATA`. -/
def ptOsDynlibdata : ℕ := 0x61000000

/-- Whether the bytes of a program header lie at a file offset. Their end is computed with 64
bits. -/
def Phdr.holds (phdr : Phdr) (fileOffset : ℕ) : Bool :=
  decide (phdr.offset ≤ fileOffset) && decide (fileOffset < wrap64 (phdr.offset + phdr.filesz))

/-- `Elf64_Shdr`. -/
structure Shdr where
  name : ℕ
  offset : ℕ
  size : ℕ
  deriving DecidableEq

/-- `sizeof(Elf64_Shdr)`. -/
def shdrSize : ℕ := 64

def Shdr.ofBytes (bytes : List UInt8) : Shdr :=
  ⟨field bytes 0 4, field bytes 24 8, field bytes 32 8⟩

/-- `Elf64_Dyn`. -/
structure Dyn where
  tag : ℕ
  value : ℕ
  deriving DecidableEq

/-- `sizeof(Elf64_Dyn)`. -/
def dynSize : ℕ := 16

def Dyn.ofBytes (bytes : List UInt8) : Dyn := ⟨field bytes 0 8, field bytes 8 8⟩

/-- `Elf64`. -/
structure Elf64 where
  file : File
  self : Option SelfHeader
  selfSegments : List SelfSegment
  ehdr : Option Ehdr
  phdr : Option (List Phdr)
  shdr : Option (List Shdr)
  strTable : Option (List UInt8)
  dynamic : Option (List UInt8)
  dynamicData : Option (List UInt8)
  deriving DecidableEq

/-! ### Segments -/

/-- The loop of `LoadSegment` over the segments of a SELF. -/
def findSegment (phdrs : List Phdr) (fileOffset : ℕ) :
    List SelfSegment → Except Stop (Option (SelfSegment × Phdr))
  | [] => .ok none
  | seg :: segs =>
    if seg.isBlocked then
      match phdrs[seg.phdrId]? with
      | none => .error .outOfTable
      | some phdr =>
        if phdr.holds fileOffset then .ok (some (seg, phdr)) else findSegment phdrs fileOffset segs
    else findSegment phdrs fileOffset segs

/-- The bytes that a seek and a read give. -/
def Elf64.readAt (elf : Elf64) (offset size : ℕ) : List UInt8 × Elf64 :=
  let (data, file) := (elf.file.seek offset).read size
  (data, { elf with file := file })

/-- What `LoadSegment` does with the segment of a SELF that holds the file offset. -/
def Elf64.loadFrom (elf : Elf64) (self : SelfHeader) (fileOffset size : ℕ) :
    Option (SelfSegment × Phdr) → Except Stop (List UInt8 × Elf64)
  | some (seg, phdr) =>
    if seg.decompressedSize ≠ phdr.filesz then .error .exit
    else if seg.compressedSize ≠ seg.decompressedSize then .error .exit
    else if wrap64 (fileOffset - phdr.offset + size) > seg.decompressedSize then .error .exit
    else .ok (elf.readAt (wrap64 (fileOffset - phdr.offset + seg.offset)) size)
  | none =>
    if sub64 elf.file.content.length self.fileSize = size then .ok (elf.readAt self.fileSize size)
    else .error .exit

/-- `LoadSegment`: the bytes that it has written. -/
def Elf64.loadSegment (elf : Elf64) (fileOffset size : ℕ) : Except Stop (List UInt8 × Elf64) :=
  match elf.self with
  | none => .ok (elf.readAt fileOffset size)
  | some self =>
    match elf.phdr with
    | none => .error .exit
    | some phdrs => do
      let found ← findSegment phdrs fileOffset elf.selfSegments
      elf.loadFrom self fileOffset size found

/-! ### `Open` -/

/-- `IsSelf`, for a header that was read. -/
def SelfHeader.isSelf (self : SelfHeader) : Bool :=
  let knownMagic := self.ident.take 4 == [0x4f, 0x15, 0x3d, 0x1d] ||
    self.ident.take 4 == [0x54, 0x14, 0xf5, 0xee]
  let identTail := self.ident.drop 4
  knownMagic &&
    (identTail == [0x00, 0x01, 0x01, 0x12, 0x01, 0x01, 0x00, 0x00] && self.unknown == 0x22 ||
      identTail == [0x10, 0x01, 0x01, 0x12, 0x01, 0x01, 0x00, 0x10] && self.unknown == 0x32)

/-- `IsValid`, for a header that was read. -/
def Ehdr.isValid (ehdr : Ehdr) : Bool :=
  ehdr.ident.take 8 == [0x7f, 0x45, 0x4c, 0x46, 2, 1, 1, 9] &&
    (ehdr.ident.getD 8 0 == 0 || ehdr.ident.getD 8 0 == 2) &&
    (ehdr.type == 0xfe10 || ehdr.type == 0xfe18) && ehdr.machine == 62 && ehdr.version == 1 &&
    ehdr.phentsize == phdrSize && !(decide (ehdr.shentsize > 0) && ehdr.shentsize != shdrSize)

/-- `LoadSelf`. -/
def loadSelf (f : File) : Option SelfHeader × File :=
  if f.remaining < selfHeaderSize then (none, f)
  else
    let (bytes, f) := f.readBuffer selfHeaderSize
    (some (SelfHeader.ofBytes bytes), f)

/-- `LoadSelfSegments`. -/
def loadSelfSegments (f : File) (num : ℕ) : List SelfSegment × File :=
  let (bytes, f) := f.readBuffer (32 * num)
  (tableOf SelfSegment.ofBytes 32 num bytes, f)

/-- `LoadEhdr64`. -/
def loadEhdr64 (f : File) : Option Ehdr × File :=
  if f.remaining < ehdrSize then (none, f)
  else
    let (bytes, f) := f.readBuffer ehdrSize
    (some (Ehdr.ofBytes bytes), f)

/-- `LoadPhdr64`. -/
def loadPhdr64 (f : File) (offset num : ℕ) : List Phdr × File :=
  let (bytes, f) := (f.seek offset).readBuffer (phdrSize * num)
  (tableOf Phdr.ofBytes phdrSize num bytes, f)

/-- `LoadShdr64`. -/
def loadShdr64 (f : File) (offset num : ℕ) : Option (List Shdr) × File :=
  if num = 0 then (none, f)
  else
    let (bytes, f) := (f.seek offset).readBuffer (shdrSize * num)
    (some (tableOf Shdr.ofBytes shdrSize num bytes), f)

/-- `LoadStrTable`. -/
def loadStrTable (f : File) (offset size : ℕ) : Option (List UInt8) × File :=
  if size = 0 then (none, f)
  else
    let (bytes, f) := (f.seek offset).readBuffer size
    (some bytes, f)

/-- The part of `Open` that reads the section headers and their names; the size of the names has
32 bits. -/
def loadSections (f : File) (ehdrPos : ℕ) (ehdr : Ehdr) :
    Option (List Shdr) × Option (List UInt8) × File :=
  match loadShdr64 f (wrap64 (ehdrPos + ehdr.shoff)) ehdr.shnum with
  | (none, f) => (none, none, f)
  | (some shdrs, f) =>
    match shdrs[ehdr.shstrndx]? with
    | none => (some shdrs, none, f)
    | some strings =>
      let (strTable, f) := loadStrTable f strings.offset (strings.size % 4294967296)
      (some shdrs, strTable, f)

/-- The headers of a file: `Open`, up to its loop over the program headers. -/
def readHeaders (content : List UInt8) : Elf64 :=
  let (self, f) := loadSelf ⟨content, 0⟩
  let self := self.filter SelfHeader.isSelf
  let (segments, f) := match self with
    | none => ([], f.seek 0)
    | some self => loadSelfSegments f self.segmentsNum
  let ehdrPos := f.position
  let (ehdr, f) := loadEhdr64 f
  match ehdr.filter Ehdr.isValid with
  | none => ⟨f, self, segments, none, none, none, none, none, none⟩
  | some ehdr =>
    let (phdrs, f) := loadPhdr64 f (wrap64 (ehdrPos + ehdr.phoff)) ehdr.phnum
    let (shdrs, strTable, f) :=
      if self.isSome then (none, none, f) else loadSections f ehdrPos ehdr
    ⟨f, self, segments, some ehdr, some phdrs, shdrs, strTable, none, none⟩

/-- `LoadDynamic64`: the bytes that are not written are zeros. -/
def Elf64.loadDynamic64 (elf : Elf64) (phdr : Phdr) : Except Stop (List UInt8 × Elf64) := do
  let (data, elf) ← elf.loadSegment phdr.offset phdr.filesz
  .ok (data ++ List.replicate (phdr.filesz - data.length) 0, elf)

/-- The loop of `Open` over the program headers, for one of them. -/
def Elf64.loadTable (elf : Elf64) (phdr : Phdr) : Except Stop Elf64 :=
  if phdr.type = ptDynamic then do
    let (data, elf) ← elf.loadDynamic64 phdr
    .ok { elf with dynamic := some data }
  else if phdr.type = ptOsDynlibdata then do
    let (data, elf) ← elf.loadDynamic64 phdr
    .ok { elf with dynamicData := some data }
  else .ok elf

/-- `Open`. -/
def Elf64.open_ (content : List UInt8) : Except Stop Elf64 :=
  let elf := readHeaders content
  (elf.phdr.getD []).foldlM Elf64.loadTable elf

/-! ### Tables -/

/-- The entries of a dynamic table: those that lie in it wholly. -/
def dynEntries (table : List UInt8) : List Dyn :=
  tableOf Dyn.ofBytes dynSize (table.length / dynSize) table

/-- The loop of `GetDynValue`. -/
def dynValueLoop (tag : ℕ) : List Dyn → Except Stop (Option Dyn)
  | [] => .error .outOfTable
  | dyn :: rest =>
    if dyn.tag = 0 then .ok none
    else if dyn.tag = tag then .ok (some dyn)
    else dynValueLoop tag rest

/-- The loop of `GetDynList`. -/
def dynListLoop (tag : ℕ) : List Dyn → Except Stop (List Dyn)
  | [] => .error .outOfTable
  | dyn :: rest =>
    if dyn.tag = 0 then .ok []
    else do
      let others ← dynListLoop tag rest
      .ok (if dyn.tag = tag then dyn :: others else others)

/-- `GetDynValue`. -/
def Elf64.getDynValue (elf : Elf64) (tag : ℕ) : Except Stop (Option Dyn) :=
  match elf.dynamic with
  | none => .error .outOfTable
  | some table => dynValueLoop tag (dynEntries table)

/-- `GetDynList`. -/
def Elf64.getDynList (elf : Elf64) (tag : ℕ) : Except Stop (List Dyn) :=
  match elf.dynamic with
  | none => .error .outOfTable
  | some table => dynListLoop tag (dynEntries table)

/-- `GetSectionName`: a name ends in the table of names. -/
def Elf64.getSectionName (elf : Elf64) (index : ℤ) : Except Stop (Option (List UInt8)) :=
  match elf.ehdr, elf.shdr, elf.strTable with
  | some ehdr, some shdrs, some strTable =>
    if index < 0 ∨ index ≥ ehdr.shnum then .ok none
    else
      match shdrs[index.toNat]? with
      | none => .error .outOfTable
      | some shdr =>
        if shdr.name ≥ strTable.length then .ok none
        else if 0 ∈ strTable.drop shdr.name then
          .ok (some ((strTable.drop shdr.name).takeWhile (· != 0)))
        else .ok none
  | _, _, _ => .ok none

end Prosperismo.Loader
