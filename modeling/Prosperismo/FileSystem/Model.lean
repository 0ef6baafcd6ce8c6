import Mathlib.Algebra.Order.Ring.Int
import Prosperismo.Base.Run

/-!
# File descriptors

`FileDescriptors` and the file calls of `kernel/fileSystem.cpp`, one call after
another, as they are built outside of Windows. A call that stops the process has
no result but an `Exit`.

What the host answers is given with each call: which paths exist, whether it can
open, create or truncate a file, how large a file is, how much a read or a write
moves and where it leaves the position. Seeking and telling are exact, so the
model keeps the position of an open host file. The contents of files and of
buffers are left out, and of the network only its answer is kept.
-/

namespace Prosperismo.FileSystem

/-! ### Results -/

/-- The errors of the calls; `posix` is what `PosixToKernel` makes of an error of
the network. -/
inductive KernelError
  | eperm
  | enoent
  | eio
  | ebadf
  | eacces
  | efault
  | eexist
  | enotdir
  | einval
  | espipe
  | posix (posixErrno : ℤ)
  deriving DecidableEq, Repr

/-- `KERNEL_ERROR_UNKNOWN`. -/
def kernelErrorUnknown : ℤ := -2147352576

/-- The value that a call returns for an error. -/
def KernelError.code : KernelError → ℤ
  | eperm => -2147352575
  | enoent => -2147352574
  | eio => -2147352571
  | ebadf => -2147352567
  | eacces => -2147352563
  | efault => -2147352562
  | eexist => -2147352559
  | enotdir => -2147352556
  | einval => -2147352554
  | espipe => -2147352547
  | posix posixErrno => kernelErrorUnknown + posixErrno

/-- What a call returns. -/
abbrev Answer := Except KernelError ℤ

/-- Why the process stops: something that is not implemented, the check that a
descriptor's object is opened, or another check of the implementation. -/
inductive Exit
  | notImplemented
  | notOpened
  | internal
  deriving DecidableEq, Repr

/-! ### The table -/

/-- `SpecialFile`. -/
inductive SpecialFile
  | none
  | random
  deriving DecidableEq, Repr

/-- `Common::File::DirEntry`. -/
structure DirEntry where
  name : String
  isFile : Bool
  deriving DecidableEq, Repr

/-- `File`. Of the host file `f` there is its position, if it is open; of the
mutex, how often the caller holds it. An object is told from others by when it
was made. -/
structure File where
  id : ℕ
  f : Option ℕ
  name : String
  realName : String
  opened : Bool
  directory : Bool
  append : Bool
  syncWrites : Bool
  special : SpecialFile
  mutex : ℕ
  dents : List DirEntry
  dentsOffset : ℕ
  deriving DecidableEq, Repr

/-- `FileDescriptors`, and the number of objects made so far. -/
structure State where
  files : List (Option File)
  made : ℕ
  deriving DecidableEq, Repr

/-- `DESCRIPTOR_MIN`. -/
def descriptorMin : ℕ := 3

/-- No descriptor is in use. -/
def State.initial : State := ⟨[], 0⟩

/-- A new object. -/
def State.newFile (s : State) : File :=
  { id := s.made, f := none, name := "", realName := "", opened := false, directory := false
    append := false, syncWrites := false, special := .none, mutex := 0, dents := []
    dentsOffset := 0 }

/-- `CreateDescriptor`: the first free place, or a new one at the end. -/
def State.createDescriptor (s : State) : State × ℕ :=
  match s.files.findIdx? Option.isNone with
  | some index => (⟨s.files.set index (some s.newFile), s.made + 1⟩, index + descriptorMin)
  | none => (⟨s.files ++ [some s.newFile], s.made + 1⟩, s.files.length + descriptorMin)

/-- `GetFile`; a number below `DESCRIPTOR_MIN` gives an index that is too large. -/
def State.getFile (s : State) (d : ℤ) : Option File :=
  if d < descriptorMin then none else (s.files[(d - descriptorMin).toNat]?).join

/-- What is written through the pointer that `GetFile` gave. -/
def State.putFile (s : State) (d : ℤ) (file : File) : State :=
  { s with files := s.files.set (d - descriptorMin).toNat (some file) }

/-- `DeleteDescriptor`. -/
def State.deleteDescriptor (s : State) (d : ℤ) : Except Exit State :=
  match s.getFile d with
  | none => .error .internal
  | some file =>
    if file.opened then .error .internal
    else .ok { s with files := s.files.set (d - descriptorMin).toNat none }

/-! ### `Common::File` -/

/-- `Tell`. -/
def File.tell (file : File) : Except Exit ℕ :=
  match file.f with
  | none => .error .internal
  | some pos => .ok pos

/-- `Size`, with the answer of the host. -/
def File.size (file : File) (size : ℕ) : Except Exit ℕ :=
  match file.f with
  | none => .error .internal
  | some _ => .ok size

/-- `Seek`. -/
def File.seek (file : File) (offset : ℕ) : Except Exit File :=
  match file.f with
  | none => .error .internal
  | some _ => .ok { file with f := some offset }

/-- `Read` and `Write`, with the position at which the host leaves the file. -/
def File.transfer (file : File) (pos : ℕ) : Except Exit File := file.seek pos

/-- The object after `f.Seek(f.Size())`, which is done only for appending. -/
def File.seekEnd (file : File) (append : Bool) (size : ℕ) : Except Exit File :=
  if append then (file.size size).bind file.seek else .ok file

/-- `IsInvalid`. -/
def File.isInvalid (file : File) : Bool := file.f.isNone

/-- `Lock` of the mutex, which is recursive. -/
def File.lock (file : File) : File := { file with mutex := file.mutex + 1 }

/-- `Unlock` of the mutex. -/
def File.unlock (file : File) : File := { file with mutex := file.mutex - 1 }

/-! ### The calls -/

/-- `IsRandomDevice`. -/
def isRandomDevice (path : String) : Bool := path == "/dev/random" || path == "/dev/urandom"

/-- `Common::File::Mode`, as far as it is used. -/
inductive Mode
  | read
  | write
  | readWrite
  deriving DecidableEq, Repr

/-- `rw_mode` of `KernelOpen`. -/
def rwMode (flags : BitVec 32) : Option Mode :=
  if flags &&& 0x3 = 0 then some .read
  else if flags &&& 0x3 = 1 then some .write
  else if flags &&& 0x3 = 2 then some .readWrite
  else none

/-- A bit of the flags. -/
def flag (flags mask : BitVec 32) : Bool := flags &&& mask ≠ 0

/-- What the host answers to `KernelOpen`. -/
structure OpenHost where
  realDirectory : String
  realFilename : String
  dirExist : Bool
  fileExist : Bool
  entries : List DirEntry
  create : Bool
  open' : Bool
  truncate : Bool
  size : ℕ
  deriving DecidableEq, Repr

/-- A failure of `KernelOpen` that gives the descriptor back. -/
def fail (s : State) (d : ℤ) (error : KernelError) : Except Exit (State × Answer) :=
  (s.deleteDescriptor d).map fun s => (s, .error error)

/-- The part of `KernelOpen` for a directory. -/
def openDirectory (s : State) (descriptor : ℤ) (file : File) (flags : BitVec 32) (mode : Mode)
    (host : OpenHost) : Except Exit (State × Answer) :=
  let trunc := flag flags 0x0400
  let creat := flag flags 0x0200
  let directory := flag flags 0x00020000
  if !host.dirExist then fail (s.putFile descriptor file) descriptor .enotdir
  else if !directory ∧ mode ≠ .read then .error .notImplemented
  else if !directory ∧ (trunc ∨ creat) then .error .notImplemented
  else
    let file := { file with dents := host.entries, dentsOffset := 0, directory := true }
    .ok (s.putFile descriptor { file with opened := true }, .ok descriptor)

/-- The part of `KernelOpen` for a file of the host. -/
def openHostFile (s : State) (descriptor : ℤ) (file : File) (flags : BitVec 32) (host : OpenHost) :
    Except Exit (State × Answer) :=
  let append := flag flags 0x0008
  let creat := flag flags 0x0200
  let trunc := flag flags 0x0400
  let excl := flag flags 0x0800
  if excl ∧ creat ∧ host.fileExist then fail (s.putFile descriptor file) descriptor .eexist
  else
    let result := if creat ∧ (!host.fileExist ∨ trunc) then host.create else host.open'
    let file := if result then { file with f := some 0 } else file
    let result := if result ∧ trunc then host.truncate else result
    do
      let file ← file.seekEnd (result && append) host.size
      if !result ∨ file.isInvalid then fail (s.putFile descriptor file) descriptor .eacces
      else .ok (s.putFile descriptor { file with opened := true }, .ok descriptor)

/-- `KernelOpen`. -/
def kernelOpen (s : State) (path : Option String) (flags : BitVec 32) (host : OpenHost) :
    Except Exit (State × Answer) :=
  match path with
  | none => .ok (s, .error .einval)
  | some path =>
    let fsync := flag flags 0x0080
    let sync := flag flags 0x0080
    let creat := flag flags 0x0200
    let trunc := flag flags 0x0400
    let dsync := flag flags 0x1000
    let directory := flag flags 0x00020000
    match rwMode flags with
    | none => .error .notImplemented
    | some mode =>
      if directory ∧ mode ≠ .read then .error .notImplemented
      else if directory ∧ (trunc ∨ creat) then .error .notImplemented
      else
        let (s, descriptor) := s.createDescriptor
        match s.getFile descriptor with
        | none => .error .internal
        | some file =>
          if file.opened ∨ file.directory then .error .internal
          else
            let file := { file with
              name := path, append := flag flags 0x0008, syncWrites := fsync || sync || dsync }
            if !directory ∧ isRandomDevice path then
              .ok (s.putFile descriptor
                { file with realName := path, special := .random, opened := true }, .ok descriptor)
            else
              let file := { file with
                realName := if directory then host.realDirectory else host.realFilename }
              if trunc ∧ mode = .read then .ok (s.putFile descriptor file, .error .eacces)
              else if !creat ∧ !host.dirExist ∧ !host.fileExist then
                fail (s.putFile descriptor file) descriptor .enoent
              else if directory ∨ host.dirExist then openDirectory s descriptor file flags mode host
              else openHostFile s descriptor file flags host

/-- What the host and the network answer to a call on a descriptor: the answer of
the network if the number is a socket, the size of the file, the bytes moved and
the position after that, and whether the standard streams took everything. -/
structure IoHost where
  socket : Option Answer
  size : ℕ
  moved : ℕ
  pos : ℕ
  written : Bool
  deriving DecidableEq, Repr

/-- `KernelClose`. -/
def kernelClose (s : State) (d : ℤ) (host : IoHost) : Except Exit (State × Answer) :=
  if d < descriptorMin then .ok (s, .error .eperm)
  else
    match host.socket with
    | some answer => .ok (s, answer)
    | none =>
      match s.getFile d with
      | none => .ok (s, .error .ebadf)
      | some file =>
        if !file.opened then .error .notOpened
        else
          let file := if !file.directory ∧ file.special = .none then { file with f := none }
            else file
          ((s.putFile d { file with opened := false }).deleteDescriptor d).map fun s => (s, .ok 0)

/-- `UINT_MAX`. -/
def uintMax : ℕ := 0xffffffff

/-- `KernelRead`. -/
def kernelRead (s : State) (d : ℤ) (buf : Bool) (nbytes : ℕ) (host : IoHost) :
    Except Exit (State × Answer) :=
  if d < descriptorMin then .ok (s, .error .eperm)
  else if !buf then .ok (s, .error .efault)
  else
    match host.socket with
    | some answer => .ok (s, answer)
    | none =>
      match s.getFile d with
      | none => .ok (s, .error .ebadf)
      | some file =>
        if file.directory then .error .notImplemented
        else if !file.opened then .error .notOpened
        else if nbytes > uintMax then .error .notImplemented
        else if file.special = .random then .ok (s, .ok nbytes)
        else do
          let file := file.lock
          let invalid := file.isInvalid
          let _ ← file.tell
          let _ ← file.size host.size
          let file ← file.transfer host.pos
          let s := s.putFile d file.unlock
          .ok (s, if invalid then .error .eio else .ok host.moved)

/-- `KernelWrite`. -/
def kernelWrite (s : State) (d : ℤ) (buf : Bool) (nbytes : ℕ) (host : IoHost) :
    Except Exit (State × Answer) :=
  if !buf then .ok (s, .error .efault)
  else if d = 1 ∨ d = 2 then .ok (s, if host.written then .ok nbytes else .error .eio)
  else if d < descriptorMin then .ok (s, .error .ebadf)
  else
    match host.socket with
    | some answer => .ok (s, answer)
    | none =>
      match s.getFile d with
      | none => .ok (s, .error .ebadf)
      | some file =>
        if file.directory then .error .notImplemented
        else if file.special ≠ .none then .error .notImplemented
        else if !file.opened then .error .notOpened
        else if nbytes > uintMax then .error .notImplemented
        else do
          let file := file.lock
          let invalid := file.isInvalid
          let file ← file.seekEnd file.append host.size
          let file ← file.transfer host.pos
          let s := s.putFile d file.unlock
          .ok (s, if invalid then .error .eio else .ok host.moved)

/-- `KernelPread`. -/
def kernelPread (s : State) (d : ℤ) (buf : Bool) (nbytes : ℕ) (offset : ℤ) (host : IoHost) :
    Except Exit (State × Answer) :=
  if d < descriptorMin then .ok (s, .error .eperm)
  else if !buf then .ok (s, .error .efault)
  else if offset < 0 then .ok (s, .error .einval)
  else
    match s.getFile d with
    | none => .ok (s, .error .ebadf)
    | some file =>
      if file.directory then .error .notImplemented
      else if !file.opened then .error .notOpened
      else if nbytes > uintMax then .error .notImplemented
      else if file.special = .random then .ok (s, .ok nbytes)
      else do
        let file := file.lock
        let invalid := file.isInvalid
        let pos ← file.tell
        let _ ← file.size host.size
        let file ← file.seek offset.toNat
        let file ← file.transfer host.pos
        let file ← file.seek pos
        let s := s.putFile d file.unlock
        .ok (s, if invalid then .error .eio else .ok host.moved)

/-- Where `KernelPwrite` writes. -/
def File.writeAt (file : File) (offset : ℤ) (size : ℕ) : Except Exit ℕ :=
  if file.append then file.size size else .ok offset.toNat

/-- `KernelPwrite`. -/
def kernelPwrite (s : State) (d : ℤ) (buf : Bool) (nbytes : ℕ) (offset : ℤ) (host : IoHost) :
    Except Exit (State × Answer) :=
  if d < descriptorMin then .ok (s, .error .eperm)
  else if !buf then .ok (s, .error .efault)
  else if offset < 0 then .ok (s, .error .einval)
  else
    match s.getFile d with
    | none => .ok (s, .error .ebadf)
    | some file =>
      if file.directory then .error .notImplemented
      else if file.special ≠ .none then .error .notImplemented
      else if !file.opened then .error .notOpened
      else if nbytes > uintMax then .error .notImplemented
      else do
        let file := file.lock
        let invalid := file.isInvalid
        let pos ← file.tell
        let target ← file.writeAt offset host.size
        let file ← file.seek target
        let file ← file.transfer host.pos
        let file ← file.seek pos
        let s := s.putFile d file.unlock
        .ok (s, if invalid then .error .eio else .ok host.moved)

/-- A sum of two `int64_t`. -/
def addInt64 (a b : ℤ) : ℤ := Int.bmod (a + b) 0x10000000000000000

/-- What `KernelLseek` makes of its arguments. -/
def File.seekTo (file : File) (offset whence : ℤ) (size : ℕ) : Except Exit ℤ :=
  if whence = 1 then file.tell.map fun pos => addInt64 pos offset
  else if whence = 2 then (file.size size).map fun size => addInt64 size offset
  else if whence = 0 then .ok offset
  else .error .notImplemented

/-- `KernelLseek`. -/
def kernelLseek (s : State) (d offset whence : ℤ) (host : IoHost) :
    Except Exit (State × Answer) :=
  if d < descriptorMin then .ok (s, .error .eperm)
  else
    match s.getFile d with
    | none => .ok (s, .error .ebadf)
    | some file =>
      if file.directory then .error .notImplemented
      else if !file.opened then .error .notOpened
      else if file.special ≠ .none then .ok (s, .error .espipe)
      else do
        let file := file.lock
        let invalid := file.isInvalid
        let offset ← file.seekTo offset whence host.size
        if offset < 0 then .ok (s.putFile d file, .error .einval)
        else
          let file ← file.seek offset.toNat
          let pos ← file.tell
          if (pos : ℤ) ≠ offset then .error .internal
          else
            let s := s.putFile d file.unlock
            .ok (s, if invalid then .error .eio else .ok pos)

/-! ### Runs -/

/-- A call, with what the host answers to it. -/
inductive Call
  | kernelOpen (path : Option String) (flags : BitVec 32) (host : OpenHost)
  | kernelClose (d : ℤ) (host : IoHost)
  | kernelRead (d : ℤ) (buf : Bool) (nbytes : ℕ) (host : IoHost)
  | kernelWrite (d : ℤ) (buf : Bool) (nbytes : ℕ) (host : IoHost)
  | kernelPread (d : ℤ) (buf : Bool) (nbytes : ℕ) (offset : ℤ) (host : IoHost)
  | kernelPwrite (d : ℤ) (buf : Bool) (nbytes : ℕ) (offset : ℤ) (host : IoHost)
  | kernelLseek (d offset whence : ℤ) (host : IoHost)
  deriving DecidableEq

/-- What a call does. -/
def Call.apply (s : State) : Call → Except Exit (State × Answer)
  | .kernelOpen path flags host => FileSystem.kernelOpen s path flags host
  | .kernelClose d host => FileSystem.kernelClose s d host
  | .kernelRead d buf nbytes host => FileSystem.kernelRead s d buf nbytes host
  | .kernelWrite d buf nbytes host => FileSystem.kernelWrite s d buf nbytes host
  | .kernelPread d buf nbytes offset host => FileSystem.kernelPread s d buf nbytes offset host
  | .kernelPwrite d buf nbytes offset host => FileSystem.kernelPwrite s d buf nbytes offset host
  | .kernelLseek d offset whence host => FileSystem.kernelLseek s d offset whence host

end Prosperismo.FileSystem
