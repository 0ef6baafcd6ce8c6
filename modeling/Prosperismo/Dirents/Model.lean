import Prosperismo.Base.Bytes

/-!
# `KernelGetdirentries`

The listing of an open directory. Each call builds the records of the whole directory, in blocks of
512 bytes, and copies those that come after what it has given before. A read or a write outside the
vector of the records is no result, as is a call that stops the process. -/

namespace Prosperismo.Dirents

/-- `Common::File::DirEntry`. -/
structure DirEntry where
  name : List UInt8
  isFile : Bool

/-- What `KernelGetdirentries` reads and writes of a `File`. -/
structure File where
  directory : Bool
  opened : Bool
  dents : List DirEntry
  dentsOffset : ℕ

/-- `DESCRIPTOR_MIN`. -/
def descriptorMin : ℤ := 3

/-- `DIR_BLOCK_SIZE`. -/
def dirBlockSize : ℕ := 512

/-- `DIRENT_META_SIZE`. -/
def direntMetaSize : ℕ := 8

/-- `AlignUp`, for an alignment that is a power of two. -/
def alignUp (value alignment : ℕ) : ℕ := (value + alignment - 1) / alignment * alignment

/-- `AlignDown`, for an alignment that is a power of two. -/
def alignDown (value alignment : ℕ) : ℕ := value / alignment * alignment

/-- One byte of `Common::hash`. -/
def hashByte (hash : BitVec 32) (byte : UInt8) : BitVec 32 :=
  let hash := hash + byte.toBitVec.setWidth 32
  let hash := hash + hash <<< 10
  hash ^^^ hash >>> 6

/-- The loop of `Common::hash` over groups of four bytes, and its `switch`, which takes the bytes
that are left from the last one to the first one. -/
def hashLoop (hash : BitVec 32) : List UInt8 → BitVec 32
  | b₀ :: b₁ :: b₂ :: b₃ :: rest =>
    hashLoop (hashByte (hashByte (hashByte (hashByte hash b₀) b₁) b₂) b₃) rest
  | rest => rest.reverse.foldl hashByte hash

/-- `Common::hash`. -/
def hash (key : List UInt8) : BitVec 32 :=
  let hash := hashLoop 0 key
  let hash := hash + hash <<< 3
  let hash := hash ^^^ hash >>> 11
  hash + hash <<< 15

/-! ### Building the records -/

/-- The variables of the loop over the entries. -/
structure Build where
  dirents : List UInt8
  nextCeiling : ℕ
  direntOffset : ℕ
  lastReclenOffset : Option ℕ

/-- The last record is made to reach to the end of its block. -/
def padLast (b : Build) : Option (List UInt8) :=
  match b.lastReclenOffset with
  | none => some b.dirents
  | some lastReclenOffset => do
    let lastReclen ← loadBytes b.dirents lastReclenOffset 2
    storeBytes b.dirents lastReclenOffset
      (littleEndian 2 (ofLittleEndian lastReclen + (b.nextCeiling - b.direntOffset)))

/-- A new block is begun. -/
def nextBlock (b : Build) : Option Build := do
  let dirents ← padLast b
  let direntOffset := b.nextCeiling
  let nextCeiling := b.nextCeiling + dirBlockSize
  some { b with
    dirents := dirents.take direntOffset ++ List.replicate (nextCeiling - direntOffset) 0
    nextCeiling := nextCeiling
    direntOffset := direntOffset }

/-- The record of an entry is written. -/
def writeRecord (b : Build) (entry : DirEntry) (reclen : ℕ) : Option Build := do
  let dirents ← storeBytes b.dirents b.direntOffset (littleEndian 4 (hash entry.name).toNat)
  let dirents ← storeBytes dirents (b.direntOffset + 4) (littleEndian 2 reclen)
  let dirents ← storeBytes dirents (b.direntOffset + 6) [if entry.isFile then 8 else 4]
  let dirents ← storeBytes dirents (b.direntOffset + 7) [UInt8.ofNat entry.name.length]
  let dirents ← storeBytes dirents (b.direntOffset + 8) entry.name
  let dirents ← storeBytes dirents (b.direntOffset + 8 + entry.name.length) [0]
  some { b with
    dirents := dirents
    direntOffset := b.direntOffset + reclen
    lastReclenOffset := some (b.direntOffset + 4) }

/-- The loop over the entries, for one of them. -/
def addEntry (b : Build) (entry : DirEntry) : Option Build :=
  if entry.name.length > 255 then none
  else do
    let reclen := alignUp (direntMetaSize + entry.name.length + 1) 4
    let b ← if b.direntOffset + reclen > b.nextCeiling then nextBlock b else some b
    writeRecord b entry reclen

/-- The records of a directory, and their size. -/
def buildDirents (dents : List DirEntry) : Option (List UInt8 × ℕ) := do
  let b ← dents.foldlM addEntry ⟨[], 0, 0, none⟩
  let dirents ← padLast b
  some (dirents, b.nextCeiling)

/-! ### Copying them -/

/-- The loop that skips what has been given and copies the records that fit; `fuel` bounds its
rounds, and `written` is what stands in the buffer. -/
def copyLoop (dirents : List UInt8) (alignedCount : ℕ) :
    ℕ → ℕ → ℕ → List UInt8 → Option (List UInt8)
  | 0, _, _, _ => none
  | fuel + 1, direntBufferOffset, workingOffset, written =>
    if direntBufferOffset < dirents.length then do
      let reclen ← loadBytes dirents (direntBufferOffset + 4) 2
      let reclen := ofLittleEndian reclen
      let namlen ← loadBytes dirents (direntBufferOffset + 7) 1
      let namlen := ofLittleEndian namlen
      if namlen = 0 ∨ reclen = 0 then some written
      else if workingOffset ≥ reclen then
        copyLoop dirents alignedCount fuel (direntBufferOffset + reclen) (workingOffset - reclen)
          written
      else if written.length + reclen > alignedCount then some written
      else do
        let record ← loadBytes dirents (direntBufferOffset + workingOffset) (reclen - workingOffset)
        copyLoop dirents alignedCount fuel (direntBufferOffset + reclen) 0 (written ++ record)
    else some written

/-- What `KernelGetdirentries` answers: an error, or the bytes that it has written to the buffer,
with the `*basep` and the file afterwards. -/
inductive Answer
  | ebadf
  | efault
  | einval
  | listed (base : ℕ) (data : List UInt8) (file : File)

/-- `KernelGetdirentries`; `file` is what the descriptor stands for. -/
def kernelGetdirentries (fd : ℤ) (bufIsNull : Bool) (file : Option File) (nbytes : ℤ) :
    Option Answer :=
  if fd < descriptorMin then some .ebadf
  else if bufIsNull then some .efault
  else
    match file with
    | none => some .ebadf
    | some file =>
      if !file.directory || nbytes < dirBlockSize then some .einval
      else if !file.opened then none
      else do
        let (dirents, directorySize) ← buildDirents file.dents
        if file.dentsOffset ≥ directorySize then some (.listed file.dentsOffset [] file)
        else do
          let written ← copyLoop dirents (alignDown nbytes.toNat dirBlockSize)
            (dirents.length + 1) 0 file.dentsOffset []
          some (.listed file.dentsOffset written
            { file with dentsOffset := file.dentsOffset + written.length })

end Prosperismo.Dirents
