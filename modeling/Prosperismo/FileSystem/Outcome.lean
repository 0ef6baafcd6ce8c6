import Prosperismo.FileSystem.Model

/-!
# What a call can do

`Sound` is what holds between two calls: every object of the table is opened, its
mutex is free, the host file of a regular one is open, and no object stands at two
places. `Outcome` lists what a call can do in a sound state. This is the one place
where the calls are followed branch by branch; everything else is read off the
outcomes.

Two calls break the rule. An open for reading that asks for truncation is refused
without giving its descriptor back (`Leaks`), and a seek to a negative position is
refused with the mutex held (`SeeksBelow`). `Regular` rules them out.
-/

namespace Prosperismo.FileSystem

/-! ### The table -/

section Table

variable {s s' : State} {d : ℤ} {file : File}

theorem le_of_getFile (h : s.getFile d = some file) : (descriptorMin : ℤ) ≤ d := by
  unfold State.getFile at h
  split at h
  · cases h
  · omega

theorem getFile_eq (hd : (descriptorMin : ℤ) ≤ d) :
    s.getFile d = (s.files[(d - descriptorMin).toNat]?).join :=
  if_neg (not_lt.mpr hd)

/-- Writing one place of the table. -/
theorem getFile_set {files : List (Option File)} {made index : ℕ} (hindex : index < files.length)
    (entry : Option File) (d' : ℤ) :
    (⟨files.set index entry, made⟩ : State).getFile d'
      = if d' = index + descriptorMin then entry else (⟨files, made⟩ : State).getFile d' := by
  by_cases hd : d' < descriptorMin
  · rw [if_neg (by omega)]
    unfold State.getFile
    rw [if_pos hd, if_pos hd]
  · rw [getFile_eq (by omega), getFile_eq (by omega)]
    dsimp only
    rw [List.getElem?_set]
    by_cases heq : d' = index + descriptorMin
    · rw [if_pos heq, if_pos (by omega), if_pos hindex]
      rfl
    · rw [if_neg heq, if_neg (by omega)]

/-- The place of a descriptor that is in use. -/
theorem index_lt (h : s.getFile d = some file) : (d - descriptorMin).toNat < s.files.length := by
  rw [getFile_eq (le_of_getFile h)] at h
  by_contra hlt
  rw [List.getElem?_eq_none (not_lt.mp hlt)] at h
  cases h

theorem getFile_putFile (h : s.getFile d = some file) (file' : File) (d' : ℤ) :
    (s.putFile d file').getFile d' = if d' = d then some file' else s.getFile d' := by
  have hd := le_of_getFile h
  have hset := @getFile_set s.files s.made _ (index_lt h) (some file') d'
  rw [show (((d - descriptorMin).toNat : ℕ) : ℤ) + descriptorMin = d by omega] at hset
  exact hset

/-- `DeleteDescriptor` empties the place of an object that is not opened. -/
theorem deleteDescriptor_spec (h : s.getFile d = some file) (hclosed : file.opened = false) :
    ∃ s', s.deleteDescriptor d = .ok s' ∧ s'.made = s.made ∧
      ∀ d', s'.getFile d' = if d' = d then none else s.getFile d' := by
  have hd := le_of_getFile h
  refine ⟨{ s with files := s.files.set (d - descriptorMin).toNat none }, ?_, rfl, fun d' => ?_⟩
  · unfold State.deleteDescriptor
    rw [h]
    dsimp only
    rw [hclosed, if_neg Bool.false_ne_true]
  · have hset := @getFile_set s.files s.made _ (index_lt h) none d'
    rw [show (((d - descriptorMin).toNat : ℕ) : ℤ) + descriptorMin = d by omega] at hset
    exact hset

/-- `CreateDescriptor` puts a new object into a place that was free. -/
theorem createDescriptor_spec (s : State) : ∃ s' d, s.createDescriptor = (s', d) ∧
    s'.made = s.made + 1 ∧ s.getFile d = none ∧
      ∀ d' : ℤ, s'.getFile d' = if d' = d then some s.newFile else s.getFile d' := by
  unfold State.createDescriptor
  cases hfind : s.files.findIdx? Option.isNone with
  | some index =>
    obtain ⟨hlt, hfree, -⟩ := List.findIdx?_eq_some_iff_getElem.mp hfind
    refine ⟨_, _, rfl, rfl, ?_, fun d' => ?_⟩
    · rw [getFile_eq (by omega),
        show ((index + descriptorMin : ℕ) - descriptorMin : ℤ).toNat = index by omega, List.getElem?_eq_getElem hlt, Option.isNone_iff_eq_none.mp hfree]
      rfl
    · exact_mod_cast getFile_set hlt (some s.newFile) d'
  | none =>
    refine ⟨_, _, rfl, rfl, ?_, fun d' => ?_⟩
    · rw [getFile_eq (by omega),
        show ((s.files.length + descriptorMin : ℕ) - descriptorMin : ℤ).toNat = s.files.length
          by omega, List.getElem?_eq_none le_rfl]
      rfl
    · by_cases hd : d' < descriptorMin
      · rw [if_neg (by omega)]
        unfold State.getFile
        rw [if_pos hd, if_pos hd]
      · rw [getFile_eq (by omega), getFile_eq (by omega)]
        dsimp only
        by_cases heq : d' = (s.files.length + descriptorMin : ℕ)
        · rw [if_pos heq, show (d' - descriptorMin).toNat = s.files.length by omega,
            List.getElem?_concat_length]
          rfl
        · rw [if_neg heq]
          by_cases hlt : (d' - descriptorMin).toNat < s.files.length
          · rw [List.getElem?_append_left hlt]
          · rw [List.getElem?_eq_none (by rw [List.length_append]; simp; omega),
              List.getElem?_eq_none (by omega)]

end Table

/-! ### What a call can do -/

/-- The object is a file of the host. -/
def File.Plain (file : File) : Prop := file.directory = false ∧ file.special = .none

/-- The table between two calls. -/
structure Sound (s : State) : Prop where
  opened : ∀ d file, s.getFile d = some file → file.opened = true
  unlocked : ∀ d file, s.getFile d = some file → file.mutex = 0
  valid : ∀ d file, s.getFile d = some file → file.Plain → file.f.isSome
  made : ∀ d file, s.getFile d = some file → file.id < s.made
  apart : ∀ d d' file file', s.getFile d = some file → s.getFile d' = some file' →
    file.id = file'.id → d = d'

theorem sound_initial : Sound State.initial := by
  have hnone : ∀ d file, State.initial.getFile d ≠ some file := by
    intro d file h
    unfold State.getFile State.initial at h
    split at h <;> cases h
  exact ⟨fun d f h => absurd h (hnone d f), fun d f h => absurd h (hnone d f),
    fun d f h => absurd h (hnone d f), fun d f h => absurd h (hnone d f),
    fun d _ f _ h => absurd h (hnone d f)⟩

/-- An open for reading that asks for truncation. -/
def Call.Leaks : Call → Prop
  | .kernelOpen (some path) flags _ => rwMode flags = some .read ∧ flag flags 0x0400 = true ∧
      flag flags 0x00020000 = false ∧ isRandomDevice path = false
  | _ => False

/-- A seek of a file of the host to a negative position. -/
def Call.SeeksBelow (s : State) : Call → Prop
  | .kernelLseek d offset whence host => ∃ file, s.getFile d = some file ∧ file.Plain ∧
      ((whence = 0 ∧ offset < 0) ∨
        (whence = 1 ∧ ∃ pos, file.f = some pos ∧ addInt64 pos offset < 0) ∨
        (whence = 2 ∧ addInt64 host.size offset < 0))
  | _ => False

/-- Neither of the two. -/
def Call.Regular (s : State) (c : Call) : Prop := ¬ c.Leaks ∧ ¬ c.SeeksBelow s

/-- The call opens a file. -/
def Call.Opens : Call → Prop
  | .kernelOpen _ _ _ => True
  | _ => False

/-- The call closes the number. -/
def Call.Closes (d : ℤ) : Call → Prop
  | .kernelClose d' _ => d' = d
  | _ => False

/-- The call reads or writes at a position of its own. -/
def Call.Positioned : Call → Prop
  | .kernelPread _ _ _ _ _ | .kernelPwrite _ _ _ _ _ => True
  | _ => False

/-- What a regular call can do in a sound state. -/
inductive Outcome (s : State) (c : Call) : Except Exit (State × Answer) → Prop
  /-- Something is not implemented. -/
  | stop : Outcome s c (.error .notImplemented)
  /-- Nothing changes. -/
  | same (answer : Answer) : (c.Opens → ∃ e, answer = .error e) → Outcome s c (.ok (s, answer))
  /-- The position of a file may change. -/
  | moved (d : ℤ) (file : File) (pos : ℕ) (n : ℤ) : ¬ c.Opens → s.getFile d = some file →
      file.f.isSome → (c.Positioned → file.f = some pos) →
      Outcome s c (.ok (s.putFile d { file with f := some pos }, .ok n))
  /-- An object goes. -/
  | closed (d : ℤ) (s' : State) : ¬ c.Opens → ¬ c.Positioned → c.Closes d → s'.made = s.made →
      (∀ d', s'.getFile d' = if d' = d then none else s.getFile d') → Outcome s c (.ok (s', .ok 0))
  /-- A descriptor was created and given back. -/
  | failed (s' : State) (e : KernelError) : s.made ≤ s'.made → ¬ c.Positioned →
      (∀ d', s'.getFile d' = s.getFile d') → Outcome s c (.ok (s', .error e))
  /-- A new object is in the table. -/
  | opened (d : ℕ) (file : File) (s' : State) : c.Opens → s.getFile d = none →
      file.opened = true → file.mutex = 0 → (file.Plain → file.f.isSome) → file.id = s.made →
      s'.made = s.made + 1 →
      (∀ d' : ℤ, s'.getFile d' = if d' = d then some file else s.getFile d') →
      Outcome s c (.ok (s', .ok d))

section Calls

variable {s : State} (h : Sound s)
include h

/-- The host file of a regular object is open. -/
theorem Sound.position {d : ℤ} {file : File} (hfile : s.getFile d = some file)
    (hdirectory : ¬ file.directory = true) (hspecial : file.special ≠ .random) :
    file.Plain ∧ ∃ pos, file.f = some pos := by
  have hplain : file.Plain := ⟨by simpa using hdirectory, by
    cases hkind : file.special with
    | none => rfl
    | random => exact absurd hkind hspecial⟩
  exact ⟨hplain, Option.isSome_iff_exists.mp (h.valid d file hfile hplain)⟩

/-- The check that an object is opened does not fail. -/
theorem Sound.not_closed {d : ℤ} {file : File} (hfile : s.getFile d = some file) :
    ¬ (!file.opened) = true := by
  rw [h.opened d file hfile]
  decide

/-- **`KernelRead`**. -/
theorem read_outcome (d : ℤ) (buf : Bool) (nbytes : ℕ) (host : IoHost) :
    Outcome s (.kernelRead d buf nbytes host) (kernelRead s d buf nbytes host) := by
  have hsame : ∀ answer : Answer,
      Outcome s (.kernelRead d buf nbytes host) (.ok (s, answer)) := fun answer =>
    .same answer fun hopens => hopens.elim
  unfold kernelRead
  split
  · exact hsame _
  split
  · exact hsame _
  split
  · exact hsame _
  split
  · exact hsame _
  rename_i file hfile
  rw [if_neg (h.not_closed hfile)]
  split
  · exact .stop
  rename_i hdirectory
  split
  · exact .stop
  split
  · exact hsame _
  rename_i hspecial
  obtain ⟨-, pos, hpos⟩ := h.position hfile hdirectory hspecial
  have hmoved := Outcome.moved (s := s) (c := .kernelRead d buf nbytes host) d file host.pos
    host.moved (fun hopens => hopens.elim) hfile (by rw [hpos]; rfl) fun hpositioned => hpositioned.elim
  simp only [File.tell, File.size, File.transfer, File.seek, File.lock, File.unlock, File.isInvalid,
    hpos]
  exact hmoved

/-- **`KernelWrite`**. -/
theorem write_outcome (d : ℤ) (buf : Bool) (nbytes : ℕ) (host : IoHost) :
    Outcome s (.kernelWrite d buf nbytes host) (kernelWrite s d buf nbytes host) := by
  have hsame : ∀ answer : Answer,
      Outcome s (.kernelWrite d buf nbytes host) (.ok (s, answer)) := fun answer =>
    .same answer fun hopens => hopens.elim
  unfold kernelWrite
  split
  · exact hsame _
  split
  · exact hsame _
  split
  · exact hsame _
  split
  · exact hsame _
  split
  · exact hsame _
  rename_i file hfile
  rw [if_neg (h.not_closed hfile)]
  split
  · exact .stop
  rename_i hdirectory
  split
  · exact .stop
  rename_i hspecial
  split
  · exact .stop
  obtain ⟨-, pos, hpos⟩ := h.position hfile hdirectory fun hrandom => hspecial (by
    rw [hrandom]
    decide)
  have hmoved := Outcome.moved (s := s) (c := .kernelWrite d buf nbytes host) d file host.pos
    host.moved (fun hopens => hopens.elim) hfile (by rw [hpos]; rfl)
    fun hpositioned => hpositioned.elim
  -- a file that is written at its end is sought first
  have hend : ∃ pos', file.lock.seekEnd file.append host.size
      = .ok { file.lock with f := some pos' } := by
    unfold File.seekEnd
    split
    · exact ⟨host.size, by simp only [File.size, File.lock, hpos]; rfl⟩
    · exact ⟨pos, by simp only [File.lock, ← hpos]⟩
  obtain ⟨pos', hend⟩ := hend
  dsimp only
  rw [show file.lock.append = file.append from rfl, hend]
  simp only [File.transfer, File.seek, File.lock, File.unlock, File.isInvalid, hpos]
  exact hmoved

/-- **`KernelPread`** puts the position back. -/
theorem pread_outcome (d : ℤ) (buf : Bool) (nbytes : ℕ) (offset : ℤ) (host : IoHost) :
    Outcome s (.kernelPread d buf nbytes offset host) (kernelPread s d buf nbytes offset host) := by
  have hsame : ∀ answer : Answer,
      Outcome s (.kernelPread d buf nbytes offset host) (.ok (s, answer)) := fun answer =>
    .same answer fun hopens => hopens.elim
  unfold kernelPread
  split
  · exact hsame _
  split
  · exact hsame _
  split
  · exact hsame _
  split
  · exact hsame _
  rename_i file hfile
  rw [if_neg (h.not_closed hfile)]
  split
  · exact .stop
  rename_i hdirectory
  split
  · exact .stop
  split
  · exact hsame _
  rename_i hspecial
  obtain ⟨-, pos, hpos⟩ := h.position hfile hdirectory hspecial
  have hmoved := Outcome.moved (s := s) (c := .kernelPread d buf nbytes offset host) d file pos
    host.moved (fun hopens => hopens.elim) hfile (by rw [hpos]; rfl) fun _ => hpos
  simp only [File.tell, File.size, File.transfer, File.seek, File.lock, File.unlock, File.isInvalid,
    hpos]
  exact hmoved

/-- **`KernelPwrite`** puts the position back. -/
theorem pwrite_outcome (d : ℤ) (buf : Bool) (nbytes : ℕ) (offset : ℤ) (host : IoHost) :
    Outcome s (.kernelPwrite d buf nbytes offset host)
      (kernelPwrite s d buf nbytes offset host) := by
  have hsame : ∀ answer : Answer,
      Outcome s (.kernelPwrite d buf nbytes offset host) (.ok (s, answer)) := fun answer =>
    .same answer fun hopens => hopens.elim
  unfold kernelPwrite
  split
  · exact hsame _
  split
  · exact hsame _
  split
  · exact hsame _
  split
  · exact hsame _
  rename_i file hfile
  rw [if_neg (h.not_closed hfile)]
  split
  · exact .stop
  rename_i hdirectory
  split
  · exact .stop
  rename_i hspecial
  split
  · exact .stop
  obtain ⟨-, pos, hpos⟩ := h.position hfile hdirectory fun hrandom => hspecial (by
    rw [hrandom]
    decide)
  have hmoved := Outcome.moved (s := s) (c := .kernelPwrite d buf nbytes offset host) d file pos
    host.moved (fun hopens => hopens.elim) hfile (by rw [hpos]; rfl) fun _ => hpos
  have htarget : ∃ target, file.lock.writeAt offset host.size = .ok target := by
    unfold File.writeAt
    split
    · exact ⟨host.size, by simp only [File.size, File.lock, hpos]⟩
    · exact ⟨_, rfl⟩
  obtain ⟨target, htarget⟩ := htarget
  dsimp only
  rw [htarget]
  simp only [File.tell, File.transfer, File.seek, File.lock, File.unlock, File.isInvalid, hpos]
  exact hmoved

/-- **`KernelClose`**. -/
theorem close_outcome (d : ℤ) (host : IoHost) :
    Outcome s (.kernelClose d host) (kernelClose s d host) := by
  have hsame : ∀ answer : Answer,
      Outcome s (.kernelClose d host) (.ok (s, answer)) := fun answer =>
    .same answer fun hopens => hopens.elim
  unfold kernelClose
  split
  · exact hsame _
  split
  · exact hsame _
  split
  · exact hsame _
  rename_i file hfile
  rw [if_neg (h.not_closed hfile)]
  dsimp only
  generalize (if !file.directory ∧ file.special = .none then { file with f := none } else file)
    = closed
  -- the object is marked as closed first, so it may be deleted
  have hput := getFile_putFile hfile { closed with opened := false }
  obtain ⟨s', hdelete, hmade, hget⟩ := deleteDescriptor_spec (s := s.putFile d _)
    ((hput d).trans (if_pos rfl)) rfl
  rw [hdelete]
  refine .closed d s' (fun hopens => hopens.elim) (fun hpositioned => hpositioned.elim) rfl hmade
    fun d' => ?_
  rw [hget, hput]
  split <;> rfl

/-- **`KernelLseek`**, unless the position is negative. -/
theorem lseek_outcome (d offset whence : ℤ) (host : IoHost)
    (hregular : ¬ (Call.kernelLseek d offset whence host).SeeksBelow s) :
    Outcome s (.kernelLseek d offset whence host) (kernelLseek s d offset whence host) := by
  have hsame : ∀ answer : Answer,
      Outcome s (.kernelLseek d offset whence host) (.ok (s, answer)) := fun answer =>
    .same answer fun hopens => hopens.elim
  unfold kernelLseek
  split
  · exact hsame _
  split
  · exact hsame _
  rename_i file hfile
  rw [if_neg (h.not_closed hfile)]
  split
  · exact .stop
  rename_i hdirectory
  split
  · exact hsame _
  rename_i hspecial
  have hspecial : file.special = .none := not_not.mp hspecial
  obtain ⟨hplain, pos, hpos⟩ := h.position hfile hdirectory (by
    rw [hspecial]
    decide)
  dsimp only
  cases htarget : file.lock.seekTo offset whence host.size with
  | error exit =>
    -- only a `whence` that is not known gives no position
    have : exit = .notImplemented := by
      simp only [File.seekTo, File.tell, File.size, File.lock, hpos] at htarget
      split at htarget
      · cases htarget
      split at htarget
      · cases htarget
      split at htarget
      · cases htarget
      · exact (Except.error.inj htarget).symm
    rw [this]
    exact .stop
  | ok sought =>
    have hle : ¬ sought < 0 := by
      intro hneg
      refine hregular ⟨file, hfile, hplain, ?_⟩
      simp only [File.seekTo, File.tell, File.size, File.lock, hpos] at htarget
      split at htarget
      · rename_i hwhence
        cases htarget
        exact .inr (.inl ⟨hwhence, pos, hpos, hneg⟩)
      split at htarget
      · rename_i hwhence
        cases htarget
        exact .inr (.inr ⟨hwhence, hneg⟩)
      split at htarget
      · rename_i hwhence
        cases htarget
        exact .inl ⟨hwhence, hneg⟩
      · cases htarget
    have hto : (sought.toNat : ℤ) = sought := Int.toNat_of_nonneg (not_lt.mp hle)
    have hmoved := Outcome.moved (s := s) (c := .kernelLseek d offset whence host) d file
      sought.toNat sought (fun hopens => hopens.elim) hfile (by rw [hpos]; rfl)
      fun hpositioned => hpositioned.elim
    simp only [bind, Except.bind]
    rw [if_neg hle]
    simp only [File.tell, File.seek, File.lock, File.unlock, File.isInvalid, hpos]
    rw [if_neg (not_not.mpr hto), hto]
    exact hmoved

end Calls

/-! ### Opening -/

section Open

variable {s t : State} {d : ℕ} {c : Call}

/-- `KernelOpen` has created the descriptor `d`. -/
structure Pending (s t : State) (d : ℕ) : Prop where
  made : t.made = s.made + 1
  free : s.getFile d = none
  get : ∀ d' : ℤ, t.getFile d' = if d' = d then some s.newFile else s.getFile d'

/-- What is written to the new object. -/
theorem Pending.put (h : Pending s t d) (file : File) (d' : ℤ) :
    (t.putFile d file).getFile d' = if d' = d then some file else s.getFile d' := by
  rw [getFile_putFile ((h.get d).trans (if_pos rfl)), h.get]
  split <;> rfl

/-- A failure gives the descriptor back. -/
theorem Pending.fail_outcome (h : Pending s t d) (hc : ¬ c.Positioned) {file : File}
    (hclosed : file.opened = false) (e : KernelError) :
    Outcome s c (fail (t.putFile d file) d e) := by
  obtain ⟨s', hdelete, hmade, hget⟩ := deleteDescriptor_spec (s := t.putFile d file)
    ((h.put file d).trans (if_pos rfl)) hclosed
  unfold fail
  rw [hdelete]
  refine .failed s' e ?_ hc fun d' => ?_
  · rw [hmade]
    exact le_of_le_of_eq (Nat.le_succ _) h.made.symm
  · rw [hget, h.put]
    split
    · rename_i heq
      rw [heq, h.free]
    · rfl

/-- A success leaves the new object opened. -/
theorem Pending.opened_outcome (h : Pending s t d) (hc : c.Opens) {file : File}
    (hopened : file.opened = true) (hmutex : file.mutex = 0) (hid : file.id = s.made)
    (hvalid : file.Plain → file.f.isSome) : Outcome s c (.ok (t.putFile d file, .ok d)) :=
  .opened d file _ hc h.free hopened hmutex hvalid hid h.made (h.put file)

/-- The object that is set up: new but for what `KernelOpen` writes. -/
structure Fresh (s : State) (file : File) : Prop where
  id : file.id = s.made
  closed : file.opened = false
  mutex : file.mutex = 0

theorem Pending.openDirectory_outcome (h : Pending s t d) (hopens : c.Opens)
    (hpositioned : ¬ c.Positioned) {file : File} (hfile : Fresh s file) (flags : BitVec 32)
    (mode : Mode) (host : OpenHost) :
    Outcome s c (openDirectory t d file flags mode host) := by
  unfold openDirectory
  dsimp only
  split
  · exact h.fail_outcome hpositioned hfile.closed _
  split
  · exact .stop
  split
  · exact .stop
  · exact h.opened_outcome hopens rfl hfile.mutex hfile.id fun hplain => Bool.noConfusion hplain.1

theorem Pending.openHostFile_outcome (h : Pending s t d) (hopens : c.Opens)
    (hpositioned : ¬ c.Positioned) {file : File} (hfile : Fresh s file) (flags : BitVec 32)
    (host : OpenHost) :
    Outcome s c (openHostFile t d file flags host) := by
  unfold openHostFile
  dsimp only
  split
  · exact h.fail_outcome hpositioned hfile.closed _
  generalize (if flag flags 0x0200 = true ∧ ((!host.fileExist) = true ∨ flag flags 0x0400 = true)
    then host.create else host.open') = result
  -- the host file is open exactly if creating or opening it went well
  cases result with
  | false =>
    exact h.fail_outcome hpositioned hfile.closed _
  | true =>
    generalize (if true = true ∧ flag flags 0x0400 = true then host.truncate else true) = result
    have hend : ∃ pos', File.seekEnd { file with f := some 0 } (result && flag flags 0x0008)
        host.size = .ok { file with f := some pos' } := by
      unfold File.seekEnd
      split
      · exact ⟨host.size, rfl⟩
      · exact ⟨0, rfl⟩
    obtain ⟨pos', hend⟩ := hend
    rw [if_pos rfl, hend]
    show Outcome s c (if _ then _ else _)
    split
    · refine h.fail_outcome hpositioned ?_ _
      exact hfile.closed
    · exact h.opened_outcome hopens rfl hfile.mutex hfile.id fun _ => rfl

/-- **`KernelOpen`**, unless it leaks. -/
theorem open_outcome (s : State) (path : Option String) (flags : BitVec 32) (host : OpenHost)
    (hregular : ¬ (Call.kernelOpen path flags host).Leaks) :
    Outcome s (.kernelOpen path flags host) (kernelOpen s path flags host) := by
  unfold kernelOpen
  cases path with
  | none => exact .same _ fun _ => ⟨_, rfl⟩
  | some path =>
    have hopens : (Call.kernelOpen (some path) flags host).Opens := trivial
    have hpositioned : ¬ (Call.kernelOpen (some path) flags host).Positioned := fun h => h
    dsimp only
    split
    · exact .stop
    rename_i mode hmode
    split
    · exact .stop
    split
    · exact .stop
    rename_i hdirectory
    obtain ⟨t, d, hcreate, hmade, hfree, hget⟩ := createDescriptor_spec s
    have h : Pending s t d := ⟨hmade, hfree, hget⟩
    rw [hcreate]
    dsimp only
    rw [(hget d).trans (if_pos rfl)]
    dsimp only
    rw [if_neg (by rintro (h | h) <;> cases h)]
    split
    · exact h.opened_outcome hopens rfl rfl rfl fun hplain => by cases hplain.2
    rename_i hrandom
    split
    · -- here the descriptor would stay
      rename_i hread
      have hnot : flag flags 0x00020000 = false :=
        Bool.eq_false_iff.mpr fun hdir => hdirectory ⟨hdir, .inl hread.1⟩
      refine absurd ⟨hread.2 ▸ hmode, hread.1, hnot, Bool.eq_false_iff.mpr fun hdevice => ?_⟩
        hregular
      exact hrandom ⟨by rw [hnot]; rfl, hdevice⟩
    split
    · exact h.fail_outcome hpositioned rfl _
    split
    · exact h.openDirectory_outcome hopens hpositioned ⟨rfl, rfl, rfl⟩ _ _ _
    · exact h.openHostFile_outcome hopens hpositioned ⟨rfl, rfl, rfl⟩ _ _

end Open

/-- **Every regular call** does one of the things listed. -/
theorem outcome {s : State} (h : Sound s) {c : Call} (hregular : c.Regular s) :
    Outcome s c (c.apply s) := by
  cases c with
  | kernelOpen path flags host => exact open_outcome s path flags host hregular.1
  | kernelClose d host => exact close_outcome h d host
  | kernelRead d buf nbytes host => exact read_outcome h d buf nbytes host
  | kernelWrite d buf nbytes host => exact write_outcome h d buf nbytes host
  | kernelPread d buf nbytes offset host => exact pread_outcome h d buf nbytes offset host
  | kernelPwrite d buf nbytes offset host => exact pwrite_outcome h d buf nbytes offset host
  | kernelLseek d offset whence host => exact lseek_outcome h d offset whence host hregular.2

end Prosperismo.FileSystem
