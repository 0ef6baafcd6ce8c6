import Prosperismo.AprFiles.Model
import Mathlib.Data.List.Induction
import Mathlib.Data.Set.Basic

/-!
# What a file id stands for

The id of a path is a hash of its bytes, and a resolution writes the host path into the table under
the id, whatever stands there. `identifies_iff` says that ids identify files exactly as long as no
two of the paths that are resolved have the same hash and different host files. -/

namespace Prosperismo.AprShared

variable {HostPath : Type} (host : List UInt8 → HostPath)

/-- The size that a resolution records for what it finds. -/
def HostEntry.recordedSize : HostEntry → ℕ
  | .directory => 0
  | .file size => size

/-- A resolution of a path has returned `OK` with an id. -/
def Returned (calls : List Call) (path : List UInt8) (id : BitVec 32) : Prop :=
  ∃ before call later, calls = before ++ call :: later ∧ call.guestPath = some path ∧
    (resolveOnePath host (run host before) call).result = .ok ∧
    (resolveOnePath host (run host before) call).id = some id

/-- A resolution among some calls has looked at a host file and has found an entry there. -/
def Seen (calls : List Call) (file : HostPath) (entry : HostEntry) : Prop :=
  ∃ call ∈ calls, ∃ path, call.guestPath = some path ∧ host path = file ∧ call.entry = some entry

/-- After some calls, the users of an id act on a host file. `GetFileSize` answers with what a
resolution has seen there. -/
structure ActsOn (calls : List Call) (id : BitVec 32) (file : HostPath) : Prop where
  stat : ∀ getHostPathStat writable,
    getFileStat (run host calls) getHostPathStat writable id =
      if writable then getHostPathStat file else .efault
  size : ∃ entry, Seen host calls file entry ∧ ∀ found,
    getFileSize (run host calls) found true id = (.ok, some entry.recordedSize)
  read : ∀ readHostFileToGuest offset destination size,
    executeReadFile (run host calls) readHostFileToGuest ⟨id, offset, destination, size⟩ =
      readHostFileToGuest file offset destination size

/-- File ids identify files: an id that was returned for a path stands for its host file, and paths
with different host files have different ids. -/
structure Identifies (calls : List Call) : Prop where
  actsOn : ∀ path id, Returned host calls path id → ActsOn host calls id (host path)
  distinct : ∀ path path' id, Returned host calls path id → Returned host calls path' id →
    host path = host path'

/-- The paths of some calls are among given ones. -/
def Within (calls : List Call) (paths : Set (List UInt8)) : Prop :=
  ∀ call ∈ calls, ∀ path, call.guestPath = some path → path ∈ paths

/-! ### What the tables hold -/

/-- What is known of a path that has been found. -/
structure Found (calls : List Call) (paths : Set (List UInt8)) (path : List UInt8)
    (info : ResolvedPathInfo HostPath) : Prop where
  among : path ∈ paths
  nonempty : path ≠ []
  id : info.fileId = computeFileId path
  file : info.hostPath = host path
  seen : info.result = .ok → ∃ entry, Seen host calls (host path) entry ∧
    (if info.isDir then 0 else info.fileSize) = entry.recordedSize

/-- The invariant of the tables: what the cache and the id table hold is what a resolution of some
path has found, and each path in the cache that was found has an entry in the id table. -/
structure Tables (calls : List Call) (paths : Set (List UInt8)) (s : State HostPath) : Prop where
  cached : ∀ path info, s.resolvedPaths path = some info → Found host calls paths path info
  registered : ∀ id file, s.files id = some file → ∃ path ∈ paths, path ≠ [] ∧
    computeFileId path = id ∧ host path = file ∧ ∃ entry, Seen host calls file entry ∧
      s.fileSizes id = some entry.recordedSize
  kept : ∀ path info, s.resolvedPaths path = some info → info.result = .ok →
    (s.files info.fileId).isSome

variable {host} {calls : List Call} {paths : Set (List UInt8)} {s : State HostPath}

theorem Seen.append {file : HostPath} {entry : HostEntry} (h : Seen host calls file entry)
    (more : List Call) : Seen host (calls ++ more) file entry := by
  obtain ⟨call, hcall, hrest⟩ := h
  exact ⟨call, List.mem_append_left _ hcall, hrest⟩

/-- More calls leave the invariant as it is. -/
theorem Tables.append (h : Tables host calls paths s) (more : List Call) :
    Tables host (calls ++ more) paths s where
  cached path info hinfo :=
    { h.cached path info hinfo with
      seen := fun hok => by
        obtain ⟨entry, hseen, hsize⟩ := (h.cached path info hinfo).seen hok
        exact ⟨entry, hseen.append more, hsize⟩ }
  registered id file hfile := by
    obtain ⟨path, hpath, hne, hid, hhost, entry, hseen, hsize⟩ := h.registered id file hfile
    exact ⟨path, hpath, hne, hid, hhost, entry, hseen.append more, hsize⟩
  kept := h.kept

/-- **Registration.** What has been found may be registered, over whatever stands there. -/
theorem Tables.register (h : Tables host calls paths s) {path : List UInt8}
    {info : ResolvedPathInfo HostPath} (hfound : Found host calls paths path info) :
    Tables host calls paths (info.register s) := by
  unfold ResolvedPathInfo.register
  split
  case isFalse => exact h
  case isTrue hok =>
    refine ⟨h.cached, fun id file hfile => ?_, fun path' info' hinfo' hok' => ?_⟩
    · rcases eq_or_ne id info.fileId with rfl | hne
      · obtain ⟨entry, hseen, hsize⟩ := hfound.seen hok
        have hfile : some info.hostPath = some file := by
          rwa [← Function.update_self (f := s.files) info.fileId (some info.hostPath)]
        obtain rfl := Option.some.inj hfile
        rw [hfound.file]
        refine ⟨path, hfound.among, hfound.nonempty, hfound.id.symm, rfl, entry, hseen, ?_⟩
        rw [← hsize]
        exact Function.update_self ..
      · have hfile : s.files id = some file := by
          rwa [← Function.update_of_ne hne (some info.hostPath) s.files]
        obtain ⟨path', hpath, hnonempty, hid, hhost, entry, hseen, hsize⟩ :=
          h.registered id file hfile
        refine ⟨path', hpath, hnonempty, hid, hhost, entry, hseen, ?_⟩
        rw [← hsize]
        exact Function.update_of_ne hne ..
    · rcases eq_or_ne info'.fileId info.fileId with heq | hne
      · rw [heq]
        exact Option.isSome_iff_exists.2 ⟨_, Function.update_self ..⟩
      · have hkept := h.kept path' info' hinfo' hok'
        rwa [← Function.update_of_ne hne (some info.hostPath) s.files] at hkept

/-- **The path cache.** A path may be put into it with what has been found, when that is
registered. -/
theorem Tables.insert (h : Tables host calls paths s) {path : List UInt8}
    {info : ResolvedPathInfo HostPath} (hfound : Found host calls paths path info) :
    Tables host calls paths (info.register
      { s with resolvedPaths := Function.update s.resolvedPaths path (some info) }) := by
  have hregistered := h.register hfound
  have hcache : ∀ path' info', Function.update s.resolvedPaths path (some info) path' = some info' →
      path' = path ∧ info' = info ∨ s.resolvedPaths path' = some info' := by
    intro path' info' hinfo'
    rcases eq_or_ne path' path with rfl | hne
    · rw [Function.update_self] at hinfo'
      exact .inl ⟨rfl, (Option.some.inj hinfo').symm⟩
    · rw [Function.update_of_ne hne] at hinfo'
      exact .inr hinfo'
  have hcached : ∀ path' info',
      Function.update s.resolvedPaths path (some info) path' = some info' →
      Found host calls paths path' info' := by
    intro path' info' hinfo'
    rcases hcache path' info' hinfo' with ⟨rfl, rfl⟩ | hold
    · exact hfound
    · exact h.cached path' info' hold
  unfold ResolvedPathInfo.register at hregistered ⊢
  split at hregistered
  case isTrue hok =>
    rw [if_pos hok]
    refine ⟨hcached, hregistered.registered, fun path' info' hinfo' hok' => ?_⟩
    rcases hcache path' info' hinfo' with ⟨-, rfl⟩ | hold
    · exact Option.isSome_iff_exists.2 ⟨_, Function.update_self ..⟩
    · exact hregistered.kept path' info' hold hok'
  case isFalse hnot =>
    rw [if_neg hnot]
    refine ⟨hcached, h.registered, fun path' info' hinfo' hok' => ?_⟩
    rcases hcache path' info' hinfo' with ⟨-, rfl⟩ | hold
    · exact absurd hok' hnot
    · exact h.kept path' info' hold hok'

/-- What a resolution finds out about a path for the first time. -/
theorem found_pathInfo {path : List UInt8} {entry : Option HostEntry} (hamong : path ∈ paths)
    (hnonempty : path ≠ [])
    (hseen : ∀ found, entry = some found → Seen host calls (host path) found) :
    Found host calls paths path (pathInfo host path entry) := by
  rcases entry with _ | _ | size
  · exact ⟨hamong, hnonempty, rfl, rfl, nofun⟩
  · exact ⟨hamong, hnonempty, rfl, rfl, fun _ => ⟨.directory, hseen _ rfl, rfl⟩⟩
  · exact ⟨hamong, hnonempty, rfl, rfl, fun _ => ⟨.file size, hseen _ rfl, rfl⟩⟩

/-- **One path.** The tables keep their invariant, and what is answered is in the cache. -/
theorem Tables.resolvePath (h : Tables host calls paths s) {path : List UInt8}
    {entry : Option HostEntry} (hamong : path ∈ paths) (hnonempty : path ≠ [])
    (hseen : ∀ found, entry = some found → Seen host calls (host path) found) :
    Tables host calls paths (resolvePath host s path entry).2 ∧
      Found host calls paths path (resolvePath host s path entry).1 := by
  unfold AprShared.resolvePath
  split
  · next info hinfo => exact ⟨h.register (h.cached path info hinfo), h.cached path info hinfo⟩
  · have hfound := found_pathInfo hamong hnonempty hseen
    exact ⟨h.insert hfound, hfound⟩

/-- A registration leaves the path cache as it is. -/
theorem register_resolvedPaths (info : ResolvedPathInfo HostPath) (s : State HostPath) :
    (info.register s).resolvedPaths = s.resolvedPaths := by
  unfold ResolvedPathInfo.register
  split
  · rfl
  · rfl

/-- What is answered about a path stays in the cache. -/
theorem resolvePath_cached (s : State HostPath) (path : List UInt8) (entry : Option HostEntry) :
    (resolvePath host s path entry).2.resolvedPaths path =
      some (resolvePath host s path entry).1 := by
  unfold resolvePath
  split
  · next info hinfo =>
    rw [register_resolvedPaths]
    exact hinfo
  · dsimp only
    rw [register_resolvedPaths]
    exact Function.update_self ..

/-- What is in the cache stays there. -/
theorem resolvePath_keeps {path path' : List UInt8} {entry : Option HostEntry}
    {info : ResolvedPathInfo HostPath} (hinfo : s.resolvedPaths path' = some info) :
    (resolvePath host s path entry).2.resolvedPaths path' = some info := by
  unfold resolvePath
  split
  · rw [register_resolvedPaths]
    exact hinfo
  · next hnone =>
    have hne : path' ≠ path := by
      rintro rfl
      rw [hnone] at hinfo
      cases hinfo
    dsimp only
    rw [register_resolvedPaths]
    rw [← hinfo]
    exact Function.update_of_ne hne ..

/-! ### A call -/

/-- A call without a path leaves the tables as they are, and any other one resolves its path. -/
theorem resolveOnePath_state (host : List UInt8 → HostPath) (s : State HostPath) (call : Call) :
    (resolveOnePath host s call).state = s ∨
      ∃ path, call.guestPath = some path ∧ path ≠ [] ∧
        (resolveOnePath host s call).state = (resolvePath host s path call.entry).2 := by
  unfold resolveOnePath
  split
  · exact .inl rfl
  · exact .inl rfl
  · next path hnonempty hpath =>
    refine .inr ⟨path, hpath, fun heq => hnonempty (heq ▸ rfl), ?_⟩
    dsimp only
    split_ifs <;> rfl

/-- What a call that returns `OK` with an id has answered. -/
theorem resolveOnePath_ok {call : Call} {path : List UInt8} {id : BitVec 32}
    (hpath : call.guestPath = some path) (hok : (resolveOnePath host s call).result = .ok)
    (hid : (resolveOnePath host s call).id = some id) :
    path ≠ [] ∧ (resolvePath host s path call.entry).1.result = .ok ∧
      (resolvePath host s path call.entry).1.fileId = id ∧
      (resolveOnePath host s call).state = (resolvePath host s path call.entry).2 := by
  unfold resolveOnePath at hok hid ⊢
  rw [hpath] at hok hid ⊢
  rcases path with _ | ⟨byte, path⟩
  · cases hok
  · dsimp only at hok hid ⊢
    split_ifs at hok hid ⊢ with hfound hfault hwanted hsize hsize
    all_goals exact ⟨List.cons_ne_nil _ _, not_not.1 hfound, Option.some.inj hid, rfl⟩

/-- **One call** keeps the invariant of the tables. -/
theorem Tables.step (h : Tables host calls paths s) {call : Call} (hamong : Within [call] paths) :
    Tables host (calls ++ [call]) paths (resolveOnePath host s call).state := by
  rcases resolveOnePath_state host s call with hsame | ⟨path, hpath, hnonempty, hstate⟩
  · rw [hsame]
    exact h.append [call]
  · rw [hstate]
    refine ((h.append [call]).resolvePath (hamong call List.mem_cons_self path hpath) hnonempty
      fun found hfound => ?_).1
    exact ⟨call, List.mem_append_right _ List.mem_cons_self, path, hpath, rfl, hfound⟩

/-- **The tables of a run.** -/
theorem tables_run (host : List UInt8 → HostPath) (hwithin : Within calls paths) :
    Tables host calls paths (run host calls) := by
  induction calls using List.reverseRecOn with
  | nil => exact ⟨nofun, nofun, nofun⟩
  | append_singleton calls call ih =>
    unfold run at ih ⊢
    rw [List.foldl_append]
    refine Tables.step (ih fun c hc => hwithin c (List.mem_append_left _ hc)) fun c hc => ?_
    exact hwithin c (List.mem_append_right _ hc)

/-- What is in the cache stays there in a run. -/
theorem run_keeps {path : List UInt8} {info : ResolvedPathInfo HostPath} {before : List Call}
    (later : List Call) (hinfo : (run host before).resolvedPaths path = some info) :
    (run host (before ++ later)).resolvedPaths path = some info := by
  induction later using List.reverseRecOn with
  | nil =>
    rw [List.append_nil]
    exact hinfo
  | append_singleton later call ih =>
    unfold run at ih ⊢
    rw [← List.append_assoc, List.foldl_append]
    rcases resolveOnePath_state host
      ((before ++ later).foldl (fun s call => (resolveOnePath host s call).state) .empty) call with
      hsame | ⟨path', -, -, hstate⟩
    · exact (congrArg (fun s => State.resolvedPaths s path) hsame).trans ih
    · exact (congrArg (fun s => State.resolvedPaths s path) hstate).trans (resolvePath_keeps ih)

/-- **A returned id** is the hash of its path, and it has an entry in every later table. -/
theorem Returned.spec {path : List UInt8} {id : BitVec 32} (h : Returned host calls path id)
    (hwithin : Within calls paths) :
    path ∈ paths ∧ path ≠ [] ∧ computeFileId path = id ∧ ((run host calls).files id).isSome := by
  obtain ⟨before, call, later, rfl, hpath, hok, hid⟩ := h
  obtain ⟨hnonempty, hfound, hfile, hstate⟩ := resolveOnePath_ok hpath hok hid
  have hcache : (run host (before ++ [call])).resolvedPaths path =
      some (resolvePath host (run host before) path call.entry).1 := by
    unfold run
    rw [List.foldl_append]
    exact (congrArg (fun s => State.resolvedPaths s path) hstate).trans (resolvePath_cached _ _ _)
  have hkept := run_keeps later hcache
  rw [List.append_assoc, List.singleton_append] at hkept
  have htables := tables_run host hwithin
  have hinfo := htables.cached path _ hkept
  refine ⟨hinfo.among, hnonempty, hinfo.id.symm.trans hfile, ?_⟩
  rw [← hfile]
  exact htables.kept path _ hkept hfound

/-! ### What ids stand for -/

/-- An id of the table acts on the host path that stands there. -/
theorem Tables.actsOn (h : Tables host calls paths (run host calls)) {id : BitVec 32}
    {file : HostPath} (hfile : (run host calls).files id = some file) :
    ActsOn host calls id file := by
  obtain ⟨-, -, -, -, -, entry, hseen, hsize⟩ := h.registered id file hfile
  refine ⟨fun getHostPathStat writable => ?_, ⟨entry, hseen, fun found => ?_⟩, fun _ _ _ _ => ?_⟩
  · unfold getFileStat State.tryGetHostPath
    rw [hfile]
  · unfold getFileSize State.tryGetHostPath State.tryGetHostFileSize
    rw [hfile, hsize]
    rfl
  · unfold executeReadFile State.tryGetHostPath
    rw [hfile]

/-- A path that the host has is resolved with `OK` and its hash, whatever has been called before,
unless it was resolved when the host did not have it. -/
theorem resolveOnePath_fresh (host : List UInt8 → HostPath) {path : List UInt8}
    (hnonempty : path ≠ []) (size : ℕ) (hnew : s.resolvedPaths path = none) :
    resolveOnePath host s ⟨some path, some (.file size), some true, none⟩ =
      ⟨.ok, some (computeFileId path), none,
        (State.registerHostPath
          { s with resolvedPaths :=
              Function.update s.resolvedPaths path (some (pathInfo host path (some (.file size)))) }
          (computeFileId path) (host path) size false)⟩ := by
  rcases path with _ | ⟨byte, path⟩
  · exact absurd rfl hnonempty
  · unfold resolveOnePath resolvePath
    dsimp only
    rw [hnew]
    rfl

/-- **A clash.** Two paths with one hash and different host files: when both are resolved, the id of
the first one acts on the host file of the second one. -/
theorem not_identifies_of_clash (host : List UInt8 → HostPath) {path path' : List UInt8}
    (hnonempty : path ≠ []) (hnonempty' : path' ≠ [])
    (hclash : computeFileId path = computeFileId path') (hhost : host path ≠ host path') :
    ¬ Identifies host [⟨some path, some (.file 0), some true, none⟩,
      ⟨some path', some (.file 0), some true, none⟩] := by
  intro h
  have hne : path' ≠ path := fun heq => hhost (heq ▸ rfl)
  have hfirst := resolveOnePath_fresh host hnonempty 0
    (show State.empty.resolvedPaths path = none from rfl)
  have hreturned : Returned host [⟨some path, some (.file 0), some true, none⟩,
      ⟨some path', some (.file 0), some true, none⟩] path (computeFileId path) := by
    refine ⟨[], ⟨some path, some (.file 0), some true, none⟩, _, rfl, rfl, ?_, ?_⟩
    · exact congrArg Resolution.result hfirst
    · exact congrArg Resolution.id hfirst
  have hstat := (h.actsOn path _ hreturned).stat
  have hrun : (run host [⟨some path, some (.file 0), some true, none⟩,
      ⟨some path', some (.file 0), some true, none⟩]).files (computeFileId path) =
      some (host path') := by
    unfold run
    rw [List.foldl_cons, List.foldl_cons, List.foldl_nil, hfirst,
      resolveOnePath_fresh host hnonempty' 0 (Function.update_of_ne hne ..), hclash]
    exact Function.update_self ..
  classical
  -- a host that has the first file only
  have hfails := hstat (Function.update (fun _ => .enoent) (host path) .ok) true
  unfold getFileStat State.tryGetHostPath at hfails
  rw [hrun] at hfails
  dsimp only at hfails
  rw [if_pos rfl, if_pos rfl, Function.update_of_ne hhost.symm, Function.update_self] at hfails
  cases hfails

/-- **When file ids identify files.** Whatever is resolved of some paths, and whatever the host has
there, ids identify files exactly when no two of the paths have the same hash and different host
files. -/
theorem identifies_iff (host : List UInt8 → HostPath) (paths : Set (List UInt8)) :
    (∀ calls, Within calls paths → Identifies host calls) ↔
      ∀ path ∈ paths, ∀ path' ∈ paths, path ≠ [] → path' ≠ [] →
        computeFileId path = computeFileId path' → host path = host path' := by
  constructor
  · intro hall path hpath path' hpath' hnonempty hnonempty' hclash
    by_contra hhost
    refine not_identifies_of_clash host hnonempty hnonempty' hclash hhost (hall _ ?_)
    refine List.forall_mem_cons.2 ⟨fun p hp => ?_, List.forall_mem_cons.2 ⟨fun p hp => ?_,
      List.forall_mem_nil _⟩⟩
    · obtain rfl := Option.some.inj hp
      exact hpath
    · obtain rfl := Option.some.inj hp
      exact hpath'
  · intro hdistinct calls hwithin
    have htables := tables_run host hwithin
    constructor
    · intro path id hreturned
      obtain ⟨hpath, hnonempty, hid, hsome⟩ := hreturned.spec hwithin
      obtain ⟨file, hfile⟩ := Option.isSome_iff_exists.1 hsome
      -- what stands there was registered for a path of the same hash
      obtain ⟨path', hpath', hnonempty', hid', rfl, -⟩ := htables.registered id file hfile
      rw [hdistinct path hpath path' hpath' hnonempty hnonempty' (hid.trans hid'.symm)]
      exact htables.actsOn hfile
    · intro path path' id hreturned hreturned'
      obtain ⟨hpath, hnonempty, hid, -⟩ := hreturned.spec hwithin
      obtain ⟨hpath', hnonempty', hid', -⟩ := hreturned'.spec hwithin
      exact hdistinct path hpath path' hpath' hnonempty hnonempty' (hid.trans hid'.symm)

/-- **Ids do not identify files**: the paths `/app0/0rja` and `/app0/xtfs` have the same hash, here
where guest paths are below one host folder. -/
theorem not_identifies : ¬ ∀ (host : List UInt8 → List UInt8) (calls : List Call),
    Identifies host calls := by
  intro hall
  have hfirst : ([0x2f, 0x61, 0x70, 0x70, 0x30, 0x2f, 0x30, 0x72, 0x6a, 0x61] : List UInt8) ≠ [] :=
    List.cons_ne_nil _ _
  have hsecond : ([0x2f, 0x61, 0x70, 0x70, 0x30, 0x2f, 0x78, 0x74, 0x66, 0x73] : List UInt8) ≠ [] :=
    List.cons_ne_nil _ _
  refine not_identifies_of_clash (fun path => 0x2f :: 0x67 :: path) hfirst hsecond ?_ ?_ (hall _ _)
  · decide +kernel
  · decide

end Prosperismo.AprShared
