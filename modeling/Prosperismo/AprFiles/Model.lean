import Mathlib.Data.List.Basic
import Mathlib.Logic.Function.Basic

/-!
# File ids of `libAmpr.cpp`

`ResolveOnePath` gives the guest an id for a path, and `GetFileStat`, `GetFileSize` and the read
commands of a command buffer take that id. What the file system knows is given with each call: the
host path of a guest path (`GetRealFilename`), and what the host has there. -/

namespace Prosperismo.AprShared

/-- The results of these functions. -/
inductive Result
  | ok
  | einval
  | enoent
  | efault
  deriving DecidableEq

/-- What the host has at a path. -/
inductive HostEntry
  | directory
  | file (size : ℕ)

/-- `ResolvedPathInfo`. -/
structure ResolvedPathInfo (HostPath : Type) where
  result : Result
  fileId : BitVec 32
  fileSize : ℕ
  isDir : Bool
  hostPath : HostPath

/-- `g_files`, `g_file_sizes` and `g_resolved_paths`. -/
structure State (HostPath : Type) where
  files : BitVec 32 → Option HostPath
  fileSizes : BitVec 32 → Option ℕ
  resolvedPaths : List UInt8 → Option (ResolvedPathInfo HostPath)

/-- `ComputeFileId`: a hash of the bytes of the path. -/
def computeFileId (guestPath : List UInt8) : BitVec 32 :=
  guestPath.foldl (fun hash byte => (hash ^^^ byte.toBitVec.setWidth 32) * 16777619#32)
    2166136261#32 &&& 0x7fffffff#32

namespace State

variable {HostPath : Type}

/-- The tables before any call. -/
def empty : State HostPath := ⟨fun _ => none, fun _ => none, fun _ => none⟩

/-- `RegisterHostPathLocked`, which `RegisterHostPath` calls. -/
def registerHostPath (s : State HostPath) (fileId : BitVec 32) (hostPath : HostPath)
    (fileSize : ℕ) (isDir : Bool) : State HostPath :=
  { s with
    files := Function.update s.files fileId (some hostPath)
    fileSizes := Function.update s.fileSizes fileId (some (if isDir then 0 else fileSize)) }

/-- `TryGetHostPath`. -/
def tryGetHostPath (s : State HostPath) (fileId : BitVec 32) : Option HostPath := s.files fileId

/-- `TryGetHostFileSize`. -/
def tryGetHostFileSize (s : State HostPath) (fileId : BitVec 32) : Option ℕ := s.fileSizes fileId

end State

variable {HostPath : Type} (host : List UInt8 → HostPath)

/-- What `ResolveOnePath` finds out about a path that it has not seen. -/
def pathInfo (path : List UInt8) : Option HostEntry → ResolvedPathInfo HostPath
  | some .directory => ⟨.ok, computeFileId path, 0x10000, true, host path⟩
  | some (.file size) => ⟨.ok, computeFileId path, size, false, host path⟩
  | none => ⟨.enoent, computeFileId path, 0, false, host path⟩

/-- The host path of an id is registered when the path has been found. -/
def ResolvedPathInfo.register (info : ResolvedPathInfo HostPath) (s : State HostPath) :
    State HostPath :=
  if info.result = .ok then s.registerHostPath info.fileId info.hostPath info.fileSize info.isDir
  else s

/-- The part of `ResolveOnePath` before its outputs: the path cache, and the registration of the
host path, which a path that is served from the cache has again. -/
def resolvePath (s : State HostPath) (path : List UInt8) (entry : Option HostEntry) :
    ResolvedPathInfo HostPath × State HostPath :=
  match s.resolvedPaths path with
  | some info => (info, info.register s)
  | none =>
    let info := pathInfo host path entry
    (info, info.register
      { s with resolvedPaths := Function.update s.resolvedPaths path (some info) })

/-- The arguments of a call of `ResolveOnePath`: the path, what the host has at its host path when
the call looks, and for each output that is not null whether the guest's memory may be written. -/
structure Call where
  guestPath : Option (List UInt8)
  entry : Option HostEntry
  id : Option Bool
  size : Option Bool

/-- What a call of `ResolveOnePath` does: its result, the outputs it has written, and the tables. -/
structure Resolution (HostPath : Type) where
  result : Result
  id : Option (BitVec 32)
  size : Option ℕ
  state : State HostPath

/-- `ResolveOnePath`. -/
def resolveOnePath (s : State HostPath) (call : Call) : Resolution HostPath :=
  match call.guestPath with
  | none | some [] => ⟨.einval, none, none, s⟩
  | some path =>
    let (info, s) := resolvePath host s path call.entry
    if info.result ≠ .ok then ⟨info.result, none, none, s⟩
    else if call.id = some false then ⟨.efault, none, none, s⟩
    else
      let id := if call.id = some true then some info.fileId else none
      if call.size = some false then ⟨.efault, id, none, s⟩
      else ⟨.ok, id, if call.size = some true then some info.fileSize else none, s⟩

/-- The tables after some calls. -/
def run (calls : List Call) : State HostPath :=
  calls.foldl (fun s call => (resolveOnePath host s call).state) .empty

/-! ### The users of an id -/

/-- `GetFileStat`, with a non-null output; `getHostPathStat` is `GetHostPathStat`. -/
def getFileStat (s : State HostPath) (getHostPathStat : HostPath → Result) (writable : Bool)
    (fileId : BitVec 32) : Result :=
  match s.tryGetHostPath fileId with
  | none => .enoent
  | some hostPath => if writable then getHostPathStat hostPath else .efault

/-- `GetFileSize`, with a non-null output; `entry` is what the host has. -/
def getFileSize (s : State HostPath) (entry : HostPath → Option HostEntry) (writable : Bool)
    (fileId : BitVec 32) : Result × Option ℕ :=
  if !writable then (.efault, none)
  else
    match s.tryGetHostPath fileId with
    | none => (.enoent, none)
    | some hostPath =>
      match s.tryGetHostFileSize fileId with
      | some size => (.ok, some size)
      | none =>
        match entry hostPath with
        | some .directory => (.ok, some 0)
        | some (.file size) => (.ok, some size)
        | none => (.enoent, none)

/-- `ReadFileCommand`. -/
structure ReadFileCommand where
  fileId : BitVec 32
  fileOffset : ℕ
  destination : ℕ
  size : ℕ

/-- What `ExecuteAprCommandBuffer` does with a read command: its `execution_result`;
`readHostFileToGuest` is `ReadHostFileToGuest` on a host path, an offset, a destination and a
size. -/
def executeReadFile (s : State HostPath) (readHostFileToGuest : HostPath → ℕ → ℕ → ℕ → Result)
    (command : ReadFileCommand) : Result :=
  match s.tryGetHostPath command.fileId with
  | none => .enoent
  | some hostPath =>
    readHostFileToGuest hostPath command.fileOffset command.destination command.size

end Prosperismo.AprShared
