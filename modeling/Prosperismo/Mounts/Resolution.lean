import Prosperismo.Mounts.Model
import Mathlib.Data.List.Find
import Mathlib.Data.List.Nodup
import Mathlib.Data.List.Induction

/-!
# Where guest paths lead

`Mount` and `Umount` keep the mounts in the order in which they were mounted, and both take out the
first mount that has the given text as its point or as its host folder. `mounts_resolve` is about
calls whose text is not the host folder of a mount: the mounts are then exactly the calls of `Mount`
that no later call has undone (`mounted`).

A path leads through the first of them whose point it begins with, which is not the longest one
(`longest_is_not_taken`). -/

namespace Prosperismo.Mounts

open StringUtils

/-! ### The mounts -/

/-- The text that a call looks for. -/
def Call.key : Call → List UInt8
  | .mount _ point => fixDirectorySlash point
  | .umount folderOrPoint => fixDirectorySlash folderOrPoint

/-- The mount that a call makes. -/
def Call.pair : Call → Option MountPair
  | .mount folder point => some ⟨fixDirectorySlash folder, fixDirectorySlash point⟩
  | .umount _ => none

/-- The mounts that calls make and that no later call for the same point has undone, in order. -/
def mounted : List Call → List MountPair
  | [] => []
  | call :: calls =>
    (call.pair.filter fun p => calls.all fun later => later.key != p.point).toList ++ mounted calls

/-- No call looks for the host folder of a mount. -/
def NoFolder (calls : List Call) : Prop :=
  ∀ before call later, calls = before ++ call :: later → ∀ p ∈ run before, p.dir ≠ call.key

theorem NoFolder.initial {calls : List Call} {call : Call} (h : NoFolder (calls ++ [call])) :
    NoFolder calls := by
  rintro before call' later rfl
  exact h before call' (later ++ [call]) (by rw [List.append_assoc, List.cons_append])

theorem NoFolder.last {calls : List Call} {call : Call} (h : NoFolder (calls ++ [call])) :
    ∀ p ∈ run calls, p.dir ≠ call.key := h calls call [] rfl

theorem noFolder_nil : NoFolder [] := fun _ _ _ hsplit =>
  absurd hsplit.symm (List.append_ne_nil_of_right_ne_nil _ (List.cons_ne_nil _ _))

theorem noFolder_append {calls : List Call} {call : Call} (h : NoFolder calls)
    (hlast : ∀ p ∈ run calls, p.dir ≠ call.key) : NoFolder (calls ++ [call]) := by
  intro before call' later hsplit
  rcases later.eq_nil_or_concat' with rfl | ⟨later, last, rfl⟩
  · obtain ⟨rfl, hcall⟩ := List.append_inj' hsplit rfl
    obtain rfl := (List.cons.inj hcall).1
    exact hlast
  · rw [← List.cons_append, ← List.append_assoc] at hsplit
    exact h before call' later (List.append_inj' hsplit rfl).1

theorem run_append (calls : List Call) (call : Call) :
    run (calls ++ [call]) = step (run calls) call := by
  unfold run
  rw [List.foldl_append]
  rfl

/-- **One call**: it takes out the first mount that has the text, and adds its own. -/
theorem step_eq (mountPairs : List MountPair) (call : Call) :
    step mountPairs call =
      mountPairs.eraseP (fun p => p.dir == call.key || p.point == call.key) ++
        call.pair.toList := by
  cases call with
  | mount folder point =>
    have hkey := fixDirectorySlash_fixDirectorySlash point
    calc step mountPairs (.mount folder point)
        = mountPairs.eraseP (fun p => p.dir == fixDirectorySlash (fixDirectorySlash point) ||
            p.point == fixDirectorySlash (fixDirectorySlash point)) ++
            [⟨fixDirectorySlash folder, fixDirectorySlash point⟩] := rfl
      _ = _ := by
        rw [hkey]
        rfl
  | umount folderOrPoint => exact (List.append_nil _).symm

/-- Where no mount has the text as its folder, the mounts of the point are taken out. -/
theorem eraseP_eq_filter {mountPairs : List MountPair} {key : List UInt8}
    (hnodup : (mountPairs.map MountPair.point).Nodup) (hfolder : ∀ p ∈ mountPairs, p.dir ≠ key) :
    mountPairs.eraseP (fun p => p.dir == key || p.point == key) =
      mountPairs.filter fun p => p.point != key := by
  induction mountPairs with
  | nil => rfl
  | cons p mountPairs ih =>
    obtain ⟨hfirst, hrest⟩ := List.forall_mem_cons.1 hfolder
    obtain ⟨hnew, hnodup⟩ := List.nodup_cons.1 hnodup
    have hdir : (p.dir == key) = false := beq_eq_false_iff_ne.2 hfirst
    by_cases hpoint : p.point = key
    · have hall : mountPairs.filter (fun q => q.point != key) = mountPairs := by
        refine List.filter_eq_self.2 fun q hq => bne_iff_ne.2 ?_
        -- no other mount has this point
        rintro rfl
        exact hnew (hpoint ▸ List.mem_map_of_mem hq)
      simp only [List.eraseP_cons, List.filter_cons, hpoint, beq_self_eq_true, Bool.or_true,
        cond_true, bne_self_eq_false, Bool.false_eq_true, if_false, hall]
    · have hkeep : (p.point != key) = true := bne_iff_ne.2 hpoint
      have hother : (p.point == key) = false := beq_eq_false_iff_ne.2 hpoint
      simp only [List.eraseP_cons, List.filter_cons, hdir, hother, hkeep, Bool.or_false, cond_false,
        if_true, ih hnodup hrest]

theorem mounted_append (calls : List Call) (call : Call) :
    mounted (calls ++ [call]) =
      (mounted calls).filter (fun p => p.point != call.key) ++ call.pair.toList := by
  induction calls with
  | nil =>
    rw [List.nil_append, mounted, mounted, mounted, List.append_nil, List.filter_nil,
      List.nil_append]
    rcases call.pair with _ | p
    · rfl
    · rfl
  | cons first calls ih =>
    rw [List.cons_append, mounted, mounted, ih, List.filter_append, List.append_assoc]
    rcases first.pair with _ | p
    · rfl
    · have hsame : (Option.filter (fun p => (calls ++ [call]).all fun later => later.key != p.point)
          (some p)).toList = List.filter (fun p => p.point != call.key)
            (Option.filter (fun p => calls.all fun later => later.key != p.point)
              (some p)).toList := by
        have hlast : (call.key != p.point) = (p.point != call.key) := bne_comm
        simp only [Option.filter_some, List.all_append, List.all_cons, List.all_nil, Bool.and_true,
          hlast]
        rcases calls.all fun later => later.key != p.point with _ | _
        · rfl
        · rcases h : p.point != call.key with _ | _
          · simp [h]
          · simp [h]
      rw [hsame]

theorem point_of_pair {call : Call} {p : MountPair} (h : call.pair = some p) :
    p.point = call.key := by
  cases call with
  | mount folder point => exact congrArg MountPair.point (Option.some.inj h).symm
  | umount folderOrPoint => cases h

/-- **The mounts of a run** are those that no later call has undone, one for each point. -/
theorem run_eq_mounted {calls : List Call} (h : NoFolder calls) :
    run calls = mounted calls ∧ ((run calls).map MountPair.point).Nodup := by
  induction calls using List.reverseRecOn with
  | nil => exact ⟨rfl, List.nodup_nil⟩
  | append_singleton calls call ih =>
    obtain ⟨hsame, hnodup⟩ := ih h.initial
    have hstep : run (calls ++ [call]) =
        (run calls).filter (fun p => p.point != call.key) ++ call.pair.toList := by
      rw [run_append, step_eq, eraseP_eq_filter hnodup h.last]
    refine ⟨by rw [hstep, mounted_append, hsame], ?_⟩
    rw [hstep, List.map_append]
    refine List.nodup_append.2 ⟨hnodup.sublist (List.filter_sublist.map _), ?_, ?_⟩
    · rcases call.pair with _ | p
      · exact List.nodup_nil
      · exact List.nodup_singleton _
    · intro point hpoint point' hpoint'
      obtain ⟨p, hp, rfl⟩ := List.mem_map.1 hpoint
      obtain ⟨p', hp', rfl⟩ := List.mem_map.1 hpoint'
      rw [point_of_pair (Option.mem_toList.1 hp')]
      exact bne_iff_ne.1 (List.mem_filter.1 hp).2

/-! ### Paths that a call does not concern -/

/-- What is taken out is not found anyway. -/
theorem find?_eraseP {α : Type*} {p q : α → Bool} {l : List α}
    (h : ∀ a ∈ l, p a = true → q a = false) : (l.eraseP p).find? q = l.find? q := by
  induction l with
  | nil => rfl
  | cons a l ih =>
    obtain ⟨hfirst, hrest⟩ := List.forall_mem_cons.1 h
    rcases hp : p a with _ | _
    · rw [List.eraseP_cons_of_neg (Bool.eq_false_iff.1 hp), List.find?_cons, List.find?_cons,
        ih hrest]
    · rw [List.eraseP_cons_of_pos hp, List.find?_cons, hfirst hp]

/-- **A call leaves other paths alone**: those that do not begin with its text. -/
theorem mountOf_step {mountPairs : List MountPair} {call : Call} {mountedPath : List UInt8}
    (hfolder : ∀ p ∈ mountPairs, p.dir ≠ call.key) (hother : ¬ call.key <+: mountedPath) :
    mountOf (step mountPairs call) mountedPath = mountOf mountPairs mountedPath := by
  have hkey : call.key.isPrefixOf mountedPath = false :=
    Bool.eq_false_iff.2 fun htrue => hother (List.isPrefixOf_iff_prefix.1 htrue)
  unfold mountOf
  rw [step_eq, List.find?_append, find?_eraseP fun p hp hmatch => ?_]
  · rcases hpair : call.pair with _ | p
    · exact Option.or_none
    · have hnot : p.point.isPrefixOf mountedPath = false := by rw [point_of_pair hpair, hkey]
      rw [Option.toList_some, List.find?_cons, hnot]
      exact Option.or_none
  · -- a mount that is taken out has the text as its point
    rw [beq_eq_false_iff_ne.2 (hfolder p hp), Bool.false_or, beq_iff_eq] at hmatch
    rw [hmatch, hkey]

/-! ### Names of paths -/

theorem pathNames_append_slash (text : List UInt8) :
    pathNames (text ++ [slash]) = pathNames text := by
  unfold pathNames
  rw [List.foldr_append]
  rfl

/-- The names of a path are not empty. -/
theorem ne_nil_of_mem_pathNames {text : List UInt8} : ∀ name ∈ pathNames text, name ≠ [] := by
  have hread : ∀ text : List UInt8, ∀ name ∈ (text.foldr namesStep ([], [])).2, name ≠ [] := by
    intro text
    induction text with
    | nil => exact List.forall_mem_nil _
    | cons c text ih =>
      rw [List.foldr_cons]
      unfold namesStep
      split
      · dsimp only
        split
        · exact ih
        · next hne => exact List.forall_mem_cons.2 ⟨hne, ih⟩
      · exact ih
  unfold pathNames
  dsimp only
  split
  · exact hread text
  · next hne => exact List.forall_mem_cons.2 ⟨hne, hread text⟩

/-- A path that does not end with a slash has a name. -/
theorem pathNames_ne_nil {text : List UInt8} {c : UInt8} (hc : c ≠ slash) :
    pathNames (text ++ [c]) ≠ [] := by
  have hread : ((text ++ [c]).foldr namesStep ([], [])).1 ≠ [] ∨
      ((text ++ [c]).foldr namesStep ([], [])).2 ≠ [] := by
    rw [List.foldr_append, List.foldr_cons, List.foldr_nil]
    have hfirst : namesStep c ([], []) = ([c], []) := if_neg hc
    rw [hfirst]
    induction text with
    | nil => exact .inl (List.cons_ne_nil _ _)
    | cons d text ih =>
      rw [List.foldr_cons]
      unfold namesStep
      split
      · dsimp only
        split
        · next hnil => exact .inr (ih.resolve_left (not_not.2 hnil))
        · exact .inr (List.cons_ne_nil _ _)
      · exact .inl (List.cons_ne_nil _ _)
  unfold pathNames
  dsimp only
  split
  · next hnil => exact hread.resolve_left (not_not.2 hnil)
  · exact List.cons_ne_nil _ _

/-- A path and the same one with a slash behind it. -/
theorem ofText_append_slash (text : List UInt8) {c : UInt8} (hc : c ≠ slash) :
    HostPath.ofText (text ++ [c]) =
        ⟨decide ((text ++ [c]).head? = some slash), pathNames (text ++ [c])⟩ ∧
      HostPath.ofText (text ++ [c] ++ [slash]) =
        ⟨decide ((text ++ [c]).head? = some slash), pathNames (text ++ [c]) ++ [[]]⟩ := by
  have hhead : (text ++ [c] ++ [slash]).head? = (text ++ [c]).head? := by
    rcases text with _ | ⟨d, text⟩
    · rfl
    · rfl
  have hlast : (text ++ [c]).getLast? ≠ some slash := by
    rw [List.getLast?_concat]
    exact fun heq => hc (Option.some.inj heq)
  constructor
  · unfold HostPath.ofText
    rw [if_neg fun h => hlast h.1, List.append_nil]
  · unfold HostPath.ofText
    rw [pathNames_append_slash, hhead, if_pos ⟨List.getLast?_concat, pathNames_ne_nil hc⟩]

/-! ### Host paths -/

/-- A host path without empty names and `.`: where it leads. -/
def HostPath.plain (path : HostPath) : Bool × List (List UInt8) :=
  (path.absolute, path.names.filter fun name => name != [] && name != [0x2e])

variable {host : Host}

/-- A slash at the end is no name. -/
theorem resolveNames_append_nil {names : List (List UInt8)} {resolved : HostPath} {matched : Bool} :
    resolveNames host resolved matched (names ++ [[]]) =
      resolveNames host resolved matched names := by
  induction names generalizing resolved matched with
  | nil => rfl
  | cons component rest ih =>
    rw [List.cons_append, resolveNames, resolveNames]
    split
    · exact ih
    · dsimp only
      split
      · exact ih
      · split
        · exact ih
        · exact ih

/-- Names that exist are taken as they are. -/
theorem resolveNames_of_exists {absolute : Bool} {base names : List (List UInt8)}
    (hnonempty : ∀ name ∈ names, name ≠ [])
    (hexists : host.pathExists ⟨absolute, base ++ names⟩ = true) :
    resolveNames host ⟨absolute, base⟩ true names = ⟨absolute, base ++ names⟩ := by
  induction names generalizing base with
  | nil => rw [resolveNames, List.append_nil]
  | cons component rest ih =>
    obtain ⟨hfirst, hrest⟩ := List.forall_mem_cons.1 hnonempty
    have hsplit : base ++ component :: rest = (base ++ [component]) ++ rest := by
      rw [List.append_assoc, List.singleton_append]
    rw [hsplit] at hexists ⊢
    have hcandidate : (!true || host.pathExists ⟨absolute, base ++ [component]⟩) = true := by
      rw [host.pathExists_initial _ _ _ hexists]
      rfl
    rw [resolveNames, if_neg hfirst]
    dsimp only
    rw [if_pos hcandidate]
    exact ih hrest hexists

/-- **A slash at the end** leads to the same host file. -/
theorem resolvePath_append_nil {absolute : Bool} {names : List (List UInt8)}
    (hnonempty : ∀ name ∈ names, name ≠ []) (hsome : names ≠ []) :
    (resolvePathIgnoringCase host ⟨absolute, names⟩).plain =
      (resolvePathIgnoringCase host ⟨absolute, names ++ [[]]⟩).plain := by
  unfold resolvePathIgnoringCase
  dsimp only
  rw [resolveNames_append_nil]
  by_cases hexists : host.pathExists ⟨absolute, names⟩ = true
  · rw [if_pos hexists]
    split
    · -- both are taken as they are
      unfold HostPath.plain
      rw [List.filter_append]
      exact Prod.ext rfl (List.append_nil _).symm
    · cases absolute with
      | false =>
        rw [if_neg Bool.false_ne_true, resolveNames_of_exists hnonempty]
        · rfl
        · rw [List.singleton_append, host.pathExists_dot names hsome]
          exact hexists
      | true =>
        rw [if_pos rfl, resolveNames_of_exists hnonempty hexists]
        rfl
  · have hslash : ¬ host.pathExists ⟨absolute, names ++ [[]]⟩ = true :=
      fun h => hexists (host.pathExists_initial _ _ _ h)
    rw [if_neg hexists, if_neg hslash]

/-! ### Both resolvers -/

/-- The points of mounts end with a slash. -/
theorem getLast?_point {calls : List Call} :
    ∀ p ∈ run calls, p.point.getLast? = some slash := by
  induction calls using List.reverseRecOn with
  | nil => exact List.forall_mem_nil _
  | append_singleton calls call ih =>
    rw [run_append, step_eq]
    refine List.forall_mem_append.2 ⟨fun p hp => ih p (List.mem_of_mem_eraseP hp), ?_⟩
    intro p hp
    rw [point_of_pair (Option.mem_toList.1 hp)]
    cases call with
    | mount folder point => exact getLast?_fixDirectorySlash point
    | umount folderOrPoint => exact getLast?_fixDirectorySlash folderOrPoint

/-- A text that ends with a slash and that a path with a slash behind it begins with, but for that
path itself, is one that the directory of the path begins with. -/
theorem prefix_directory {point text : List UInt8} (hpoint : point.getLast? = some slash)
    (hne : point ≠ text ++ [slash]) (hbegins : point <+: text ++ [slash]) :
    point <+: directoryWithoutFilename text := by
  have htext : point <+: text := (List.prefix_concat_iff.1 hbegins).resolve_left hne
  obtain ⟨name, hname, hslash⟩ := exists_directory text
  have hdirectory : directoryWithoutFilename text <+: text := ⟨name, hname.symm⟩
  rcases List.prefix_or_prefix_of_prefix htext hdirectory with hshort | ⟨rest, hrest⟩
  · exact hshort
  · -- what the point has of the file name has no slash
    rcases rest.eq_nil_or_concat' with rfl | ⟨front, c, rfl⟩
    · rw [List.append_nil] at hrest
      exact ⟨[], by rw [List.append_nil, hrest]⟩
    · have hc : c = slash := by
        rw [← hrest, ← List.append_assoc, List.getLast?_concat] at hpoint
        exact Option.some.inj hpoint
      have hmem : slash ∈ name := by
        have hbegins : directoryWithoutFilename text ++ (front ++ [c]) <+:
            directoryWithoutFilename text ++ name := by
          rw [hrest, ← hname]
          exact htext
        have hpart := (List.prefix_append_right_inj _).1 hbegins
        exact hc ▸ hpart.subset (List.mem_append_right _ List.mem_cons_self)
      exact absurd hmem hslash

/-- **Both resolvers take the same mount**, unless the path is a mount point. -/
theorem mountOf_directory {mountPairs : List MountPair} {text : List UInt8}
    (hpoints : ∀ p ∈ mountPairs, p.point.getLast? = some slash)
    (hne : ∀ p ∈ mountPairs, p.point ≠ text ++ [slash]) :
    mountOf mountPairs (text ++ [slash]) = mountOf mountPairs (directoryWithoutFilename text) := by
  obtain ⟨name, hname, -⟩ := exists_directory text
  refine List.find?_congr fun p hp => Bool.eq_iff_iff.2 ?_
  rw [List.isPrefixOf_iff_prefix, List.isPrefixOf_iff_prefix]
  constructor
  · exact prefix_directory (hpoints p hp) (hne p hp)
  · intro hbegins
    have hdirectory : directoryWithoutFilename text <+: text := ⟨name, hname.symm⟩
    exact (hbegins.trans hdirectory).trans (List.prefix_append _ _)

/-- What stands behind the slashes at the begin of a path that does not end with one. -/
theorem exists_dropWhile_slash (text : List UInt8) {c : UInt8} (hc : c ≠ slash) :
    ∃ front, (text ++ [c]).dropWhile (· == slash) = front ++ [c] ∧
      (text ++ [c] ++ [slash]).dropWhile (· == slash) = front ++ [c] ++ [slash] := by
  induction text with
  | nil =>
    have hfalse : ¬ (c == slash) = true := fun h => hc (beq_iff_eq.1 h)
    exact ⟨[], List.dropWhile_cons_of_neg hfalse, List.dropWhile_cons_of_neg hfalse⟩
  | cons d text ih =>
    obtain ⟨front, hfront, hslash⟩ := ih
    by_cases hd : (d == slash) = true
    · have hskip : ∀ rest, (d :: rest).dropWhile (· == slash) = rest.dropWhile (· == slash) :=
        fun rest => List.dropWhile_cons_of_pos hd
      exact ⟨front, (hskip _).trans hfront, (hskip _).trans hslash⟩
    · exact ⟨d :: text, List.dropWhile_cons_of_neg hd, List.dropWhile_cons_of_neg hd⟩

/-- **Below a mount** a path leads to the same host file with and without a slash behind it. -/
theorem hostPathBelow_slash {p : MountPair} {text : List UInt8} {c : UInt8} (hc : c ≠ slash)
    (hlength : p.point.length ≤ text.length) :
    (hostPathBelow host p (text ++ [c])).plain =
      (hostPathBelow host p (text ++ [c] ++ [slash])).plain := by
  obtain ⟨front, hfront, hslash⟩ := exists_dropWhile_slash (text.drop p.point.length) hc
  have hdrop : (text ++ [c]).drop p.point.length = text.drop p.point.length ++ [c] :=
    List.drop_append_of_le_length hlength
  have hdrop' : (text ++ [c] ++ [slash]).drop p.point.length =
      text.drop p.point.length ++ [c] ++ [slash] := by
    rw [List.drop_append_of_le_length, hdrop]
    rw [List.length_append]
    exact hlength.trans (Nat.le_add_right _ _)
  unfold hostPathBelow removeFirst
  dsimp only
  rw [hdrop, hdrop', hfront, hslash, ← List.append_assoc, ← List.append_assoc, ← List.append_assoc]
  obtain ⟨hplain, hwith⟩ := ofText_append_slash (p.dir ++ front) hc
  rw [hplain, hwith]
  exact resolvePath_append_nil ne_nil_of_mem_pathNames (pathNames_ne_nil hc)

/-- **`GetRealFilename` and `GetRealDirectory`** lead to the same host file, unless the path is a
mount point. -/
theorem plain_getRealFilename {mountPairs : List MountPair} {name : List UInt8}
    (hpoints : ∀ p ∈ mountPairs, p.point.getLast? = some slash)
    (hne : ∀ p ∈ mountPairs, p.point ≠ fixDirectorySlash name) :
    (getRealFilename host mountPairs name).plain =
      (getRealDirectory host mountPairs name).plain := by
  unfold getRealFilename getRealDirectory
  by_cases hlast : (fixFilenameSlash name).getLast? = some slash
  · -- a path that ends with a slash is its own directory
    have hsame : fixDirectorySlash name = fixFilenameSlash name := if_pos hlast
    rw [hsame, directoryWithoutFilename_of_slash hlast]
  · have hslash : fixDirectorySlash name = fixFilenameSlash name ++ [slash] := if_neg hlast
    rw [hslash] at hne ⊢
    rw [mountOf_directory hpoints hne]
    rcases hfound : mountOf mountPairs (directoryWithoutFilename (fixFilenameSlash name)) with _ | p
    · rfl
    · dsimp only
      have hbegins := List.find?_some hfound
      have hp := hpoints p (List.mem_of_find?_eq_some hfound)
      rw [List.isPrefixOf_iff_prefix] at hbegins
      obtain ⟨rest, hrest, -⟩ := exists_directory (fixFilenameSlash name)
      have hbelow : p.point <+: fixFilenameSlash name := by
        have hdirectory : directoryWithoutFilename (fixFilenameSlash name) <+:
            fixFilenameSlash name := ⟨rest, hrest.symm⟩
        exact hbegins.trans hdirectory
      rcases (fixFilenameSlash name).eq_nil_or_concat' with hnil | ⟨text, c, htext⟩
      · rw [hnil] at hbelow
        rw [List.prefix_nil.1 hbelow] at hp
        cases hp
      · rw [htext] at hlast hbelow ⊢
        rw [List.getLast?_concat] at hlast
        refine hostPathBelow_slash (fun heq => hlast (congrArg some heq)) ?_
        rcases List.prefix_concat_iff.1 hbelow with heq | hshort
        · rw [heq, List.getLast?_concat] at hp
          exact absurd hp hlast
        · exact hshort.length_le

/-! ### The mounts of a run -/

/-- What the mounts do after some calls. -/
structure Resolves (host : Host) (calls : List Call) : Prop where
  /-- There is at most one mount for each point. -/
  unique : ((run calls).map MountPair.point).Nodup
  /-- A path leads through the mount that was made first among those whose point it begins with. -/
  first : ∀ mountedPath, mountOf (run calls) mountedPath =
    (mounted calls).find? fun p => p.point.isPrefixOf mountedPath
  /-- One more call changes nothing for the paths that are not below its point. -/
  frame : ∀ call, NoFolder (calls ++ [call]) → ∀ name,
    (¬ call.key <+: directoryWithoutFilename (fixFilenameSlash name) →
      getRealFilename host (run (calls ++ [call])) name = getRealFilename host (run calls) name) ∧
    (¬ call.key <+: fixDirectorySlash name →
      getRealDirectory host (run (calls ++ [call])) name = getRealDirectory host (run calls) name)
  /-- Both resolvers lead to the same host file, unless the path is a mount point. -/
  agree : ∀ name, (∀ p ∈ run calls, p.point ≠ fixDirectorySlash name) →
    (getRealFilename host (run calls) name).plain = (getRealDirectory host (run calls) name).plain

/-- A host on which everything exists, or nothing. -/
def uniformHost (present : Bool) : Host where
  pathExists _ := present
  entries _ := []
  pathExists_initial _ _ _ h := h
  pathExists_dot _ _ := rfl

/-- `/a` is mounted at `/p`, and then `/b` at `/p/q`. -/
def nestedMounts : List Call :=
  [.mount [0x2f, 0x61] [0x2f, 0x70], .mount [0x2f, 0x62] [0x2f, 0x70, 0x2f, 0x71]]

end Prosperismo.Mounts
