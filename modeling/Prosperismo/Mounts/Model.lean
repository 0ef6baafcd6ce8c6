import Prosperismo.Common.StringUtils

/-!
# `MountPoints`

The mounts of `fileSystem.cpp` and the host paths that guest paths lead to, on a host with
case-sensitive names. A `std::filesystem::path` is whether it begins at the root, and its names, the
last of which is empty when the path ends with a slash. -/

namespace Prosperismo.Mounts

open StringUtils

/-- `std::filesystem::path`. -/
structure HostPath where
  absolute : Bool
  names : List (List UInt8)
  deriving DecidableEq

/-- The names of a path, from its last byte on: the name that is being read, and those behind it. -/
def namesStep (c : UInt8) (read : List UInt8 × List (List UInt8)) :
    List UInt8 × List (List UInt8) :=
  if c = slash then ([], if read.1 = [] then read.2 else read.1 :: read.2)
  else (c :: read.1, read.2)

/-- The names of a path, without empty ones. -/
def pathNames (text : List UInt8) : List (List UInt8) :=
  let read := text.foldr namesStep ([], [])
  if read.1 = [] then read.2 else read.1 :: read.2

/-- A path from its text. -/
def HostPath.ofText (text : List UInt8) : HostPath where
  absolute := text.head? = some slash
  names := pathNames text ++
    if text.getLast? = some slash ∧ pathNames text ≠ [] then [[]] else []

/-- The host, as far as `ResolvePathIgnoringCase` asks it: what exists, and the names of the entries
of a directory. What is inside of a path exists only if the path does, and `.` is where a relative
path begins. -/
structure Host where
  pathExists : HostPath → Bool
  entries : HostPath → List (List UInt8)
  pathExists_initial : ∀ absolute names more, pathExists ⟨absolute, names ++ more⟩ = true →
    pathExists ⟨absolute, names⟩ = true
  pathExists_dot : ∀ names, names ≠ [] →
    pathExists ⟨false, [0x2e] :: names⟩ = pathExists ⟨false, names⟩

/-- The loop of `ResolvePathIgnoringCase` over the names of a path. -/
def resolveNames (host : Host) (resolved : HostPath) (matched : Bool) : List (List UInt8) → HostPath
  | [] => resolved
  | component :: rest =>
    if component = [] then resolveNames host resolved matched rest
    else
      let candidate : HostPath := ⟨resolved.absolute, resolved.names ++ [component]⟩
      if !matched || host.pathExists candidate then resolveNames host candidate matched rest
      else
        match (host.entries resolved).find? fun entry => equalNoCase entry component with
        | some entry =>
          resolveNames host ⟨resolved.absolute, resolved.names ++ [entry]⟩ matched rest
        | none => resolveNames host candidate false rest

/-- `ResolvePathIgnoringCase`. -/
def resolvePathIgnoringCase (host : Host) (path : HostPath) : HostPath :=
  if host.pathExists path then path
  else resolveNames host (if path.absolute then ⟨true, []⟩ else ⟨false, [[0x2e]]⟩) true path.names

/-- `MountPair`. -/
structure MountPair where
  dir : List UInt8
  point : List UInt8
  deriving DecidableEq

/-- `Umount`. -/
def umount (mountPairs : List MountPair) (folderOrPoint : List UInt8) : List MountPair :=
  mountPairs.eraseP fun p =>
    p.dir == fixDirectorySlash folderOrPoint || p.point == fixDirectorySlash folderOrPoint

/-- `Mount`. -/
def mount (mountPairs : List MountPair) (folder point : List UInt8) : List MountPair :=
  umount mountPairs (fixDirectorySlash point) ++
    [⟨fixDirectorySlash folder, fixDirectorySlash point⟩]

/-- The host path of a guest path below a mount: `text` is the guest path with its slashes fixed. -/
def hostPathBelow (host : Host) (p : MountPair) (text : List UInt8) : HostPath :=
  let relPath := (removeFirst text p.point.length).dropWhile (· == slash)
  resolvePathIgnoringCase host (.ofText (p.dir ++ relPath))

/-- The mount that `GetRealFilename` and `GetRealDirectory` take: the first one whose point the
mounted path begins with. -/
def mountOf (mountPairs : List MountPair) (mountedPath : List UInt8) : Option MountPair :=
  mountPairs.find? fun p => p.point.isPrefixOf mountedPath

/-- `GetRealFilename`. -/
def getRealFilename (host : Host) (mountPairs : List MountPair) (mountedFileName : List UInt8) :
    HostPath :=
  match mountOf mountPairs (directoryWithoutFilename (fixFilenameSlash mountedFileName)) with
  | some p => hostPathBelow host p (fixFilenameSlash mountedFileName)
  | none => .ofText mountedFileName

/-- `GetRealDirectory`. -/
def getRealDirectory (host : Host) (mountPairs : List MountPair) (mountedDirectory : List UInt8) :
    HostPath :=
  match mountOf mountPairs (fixDirectorySlash mountedDirectory) with
  | some p => hostPathBelow host p (fixDirectorySlash mountedDirectory)
  | none => .ofText mountedDirectory

/-- A call of `Mount` or `Umount`. -/
inductive Call
  | mount (folder point : List UInt8)
  | umount (folderOrPoint : List UInt8)

/-- What a call does to the mounts. -/
def step (mountPairs : List MountPair) : Call → List MountPair
  | .mount folder point => mount mountPairs folder point
  | .umount folderOrPoint => umount mountPairs folderOrPoint

/-- The mounts after some calls. -/
def run (calls : List Call) : List MountPair := calls.foldl step []

end Prosperismo.Mounts
