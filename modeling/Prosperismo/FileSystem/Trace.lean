import Prosperismo.FileSystem.Outcome

/-!
# Failed calls leave no trace

`Clean` is what a call that returns owes: a failure leaves the table, no mutex is
held, a number keeps its object until it is closed. In a sound state a call is clean
exactly if it is regular (`clean_iff_regular`), and no call meets an object that is
not opened (`exit_of_sound`). `failed_calls_leave_no_trace` carries this over runs.
-/

namespace Prosperismo.FileSystem

/-! ### One call -/

/-- The number `d` stands for the object `id`, which is opened. -/
def State.Designates (s : State) (d : ℤ) (id : ℕ) : Prop :=
  ∃ file, s.getFile d = some file ∧ file.id = id ∧ file.opened = true

/-- What a call that returns owes. -/
structure Clean (s : State) (c : Call) (s' : State) (answer : Answer) : Prop where
  /-- a failure leaves the table as it was -/
  unchanged : ∀ e, answer = .error e → ∀ d, s'.getFile d = s.getFile d
  /-- no mutex is held -/
  unlocked : ∀ d file, s'.getFile d = some file → file.mutex = 0
  /-- a number keeps its object, unless it is closed -/
  kept : ∀ d id, s.Designates d id → ¬ c.Closes d → s'.Designates d id
  /-- a number that is returned by an open stands for a new object -/
  opens : c.Opens → ∀ d, answer = .ok d → s.getFile d = none ∧ s'.Designates d s.made
  /-- positioned reads and writes leave the position -/
  position : c.Positioned → ∀ d file, s.getFile d = some file →
    ∃ file', s'.getFile d = some file' ∧ file'.f = file.f

section Step

variable {s s' : State} {c : Call} {answer : Answer}

/-- The table stays sound. -/
theorem Outcome.sound (h : Sound s) (ho : Outcome s c (.ok (s', answer))) : Sound s' := by
  cases ho with
  | same => exact h
  | moved d file pos n hopens hfile hopen hpositioned =>
    have hput := getFile_putFile hfile { file with f := some pos }
    -- what is found later was there before, but for its position
    have hback : ∀ d' file', (s.putFile d { file with f := some pos }).getFile d' = some file' →
        ∃ file₀ f, s.getFile d' = some file₀ ∧ file' = { file₀ with f := f } ∧
          (file₀.f.isSome → f.isSome) := by
      intro d' file' hfile'
      rw [hput] at hfile'
      split at hfile'
      · rename_i heq
        exact ⟨file, some pos, heq ▸ hfile, (Option.some.inj hfile').symm, fun _ => rfl⟩
      · exact ⟨file', file'.f, hfile', rfl, id⟩
    refine ⟨fun d' file' hfile' => ?_, fun d' file' hfile' => ?_, fun d' file' hfile' hplain => ?_,
      fun d' file' hfile' => ?_, fun d₁ d₂ file₁ file₂ hfile₁ hfile₂ hid => ?_⟩
    · obtain ⟨file₀, f, hfile₀, rfl, -⟩ := hback d' file' hfile'
      exact h.opened d' file₀ hfile₀
    · obtain ⟨file₀, f, hfile₀, rfl, -⟩ := hback d' file' hfile'
      exact h.unlocked d' file₀ hfile₀
    · obtain ⟨file₀, f, hfile₀, rfl, hf⟩ := hback d' file' hfile'
      exact hf (h.valid d' file₀ hfile₀ hplain)
    · obtain ⟨file₀, f, hfile₀, rfl, -⟩ := hback d' file' hfile'
      exact h.made d' file₀ hfile₀
    · obtain ⟨file₃, f₃, hfile₃, rfl, -⟩ := hback d₁ file₁ hfile₁
      obtain ⟨file₄, f₄, hfile₄, rfl, -⟩ := hback d₂ file₂ hfile₂
      exact h.apart d₁ d₂ file₃ file₄ hfile₃ hfile₄ hid
  | closed d _ hopens hpositioned hcloses hmade hget =>
    have hback : ∀ d' file', s'.getFile d' = some file' → s.getFile d' = some file' := by
      intro d' file' hfile'
      rw [hget] at hfile'
      split at hfile'
      · cases hfile'
      · exact hfile'
    exact ⟨fun d' file' hfile' => h.opened d' file' (hback d' file' hfile'),
      fun d' file' hfile' => h.unlocked d' file' (hback d' file' hfile'),
      fun d' file' hfile' => h.valid d' file' (hback d' file' hfile'),
      fun d' file' hfile' => hmade ▸ h.made d' file' (hback d' file' hfile'),
      fun d₁ d₂ file₁ file₂ hfile₁ hfile₂ =>
        h.apart d₁ d₂ file₁ file₂ (hback d₁ file₁ hfile₁) (hback d₂ file₂ hfile₂)⟩
  | failed _ e hmade hpositioned hget =>
    exact ⟨fun d' file' hfile' => h.opened d' file' (hget d' ▸ hfile'),
      fun d' file' hfile' => h.unlocked d' file' (hget d' ▸ hfile'),
      fun d' file' hfile' => h.valid d' file' (hget d' ▸ hfile'),
      fun d' file' hfile' => (h.made d' file' (hget d' ▸ hfile')).trans_le hmade,
      fun d₁ d₂ file₁ file₂ hfile₁ hfile₂ =>
        h.apart d₁ d₂ file₁ file₂ (hget d₁ ▸ hfile₁) (hget d₂ ▸ hfile₂)⟩
  | opened d file _ hopens hfree hopened hmutex hvalid hid hmade hget =>
    -- what is found later is the new object, or was there before
    have hback : ∀ d' file', s'.getFile d' = some file' →
        d' = d ∧ file' = file ∨ s.getFile d' = some file' := by
      intro d' file' hfile'
      rw [hget] at hfile'
      split at hfile'
      · rename_i heq
        exact .inl ⟨heq, (Option.some.inj hfile').symm⟩
      · exact .inr hfile'
    refine ⟨fun d' file' hfile' => ?_, fun d' file' hfile' => ?_, fun d' file' hfile' => ?_,
      fun d' file' hfile' => ?_, fun d₁ d₂ file₁ file₂ hfile₁ hfile₂ heq => ?_⟩
    · obtain ⟨rfl, rfl⟩ | hold := hback d' file' hfile'
      · exact hopened
      · exact h.opened d' file' hold
    · obtain ⟨rfl, rfl⟩ | hold := hback d' file' hfile'
      · exact hmutex
      · exact h.unlocked d' file' hold
    · obtain ⟨rfl, rfl⟩ | hold := hback d' file' hfile'
      · exact hvalid
      · exact h.valid d' file' hold
    · rw [hmade]
      obtain ⟨rfl, rfl⟩ | hold := hback d' file' hfile'
      · exact hid ▸ Nat.lt_succ_self _
      · exact (h.made d' file' hold).trans (Nat.lt_succ_self _)
    · obtain ⟨rfl, rfl⟩ | hold₁ := hback d₁ file₁ hfile₁
      · obtain ⟨rfl, rfl⟩ | hold₂ := hback d₂ file₂ hfile₂
        · rfl
        · exact absurd (heq.symm.trans hid) (h.made d₂ file₂ hold₂).ne
      · obtain ⟨rfl, rfl⟩ | hold₂ := hback d₂ file₂ hfile₂
        · exact absurd (heq.trans hid) (h.made d₁ file₁ hold₁).ne
        · exact h.apart d₁ d₂ file₁ file₂ hold₁ hold₂ heq

theorem error_ne_ok {e : KernelError} {n : ℤ} : (Except.error e : Answer) ≠ .ok n := fun h => by
  cases h

/-- A regular call leaves no trace. -/
theorem Outcome.clean (h : Sound s) (ho : Outcome s c (.ok (s', answer))) :
    Clean s c s' answer := by
  have hsound := ho.sound h
  cases ho with
  | same _ hopens =>
    refine ⟨fun _ _ _ => rfl, hsound.unlocked, fun _ _ hid _ => hid, fun hc d hok => ?_,
      fun _ d file hfile => ⟨file, hfile, rfl⟩⟩
    obtain ⟨e, he⟩ := hopens hc
    exact absurd (he.symm.trans hok) error_ne_ok
  | moved d file pos n hopens hfile hopen hpositioned =>
    have hput := getFile_putFile hfile { file with f := some pos }
    refine ⟨fun _ he => absurd he.symm error_ne_ok, hsound.unlocked, fun d' id hid _ => ?_,
      fun hc => absurd hc hopens, fun hc d' file' hfile' => ?_⟩
    · obtain ⟨file', hfile', rfl, hopened⟩ := hid
      by_cases heq : d' = d
      · subst heq
        obtain rfl := Option.some.inj (hfile.symm.trans hfile')
        exact ⟨_, (hput d').trans (if_pos rfl), rfl, hopened⟩
      · exact ⟨file', (hput d').trans ((if_neg heq).trans hfile'), rfl, hopened⟩
    · by_cases heq : d' = d
      · subst heq
        obtain rfl := Option.some.inj (hfile.symm.trans hfile')
        exact ⟨_, (hput d').trans (if_pos rfl), (hpositioned hc).symm⟩
      · exact ⟨file', (hput d').trans ((if_neg heq).trans hfile'), rfl⟩
  | closed d _ hopens hpositioned hcloses hmade hget =>
    refine ⟨fun _ he => absurd he.symm error_ne_ok, hsound.unlocked, fun d' id hid hc => ?_,
      fun hc => absurd hc hopens, fun hc => absurd hc hpositioned⟩
    obtain ⟨file', hfile', hrest⟩ := hid
    have hne : d' ≠ d := fun heq => hc (heq ▸ hcloses)
    exact ⟨file', (hget d').trans ((if_neg hne).trans hfile'), hrest⟩
  | failed _ e hmade hpositioned hget =>
    refine ⟨fun _ _ => hget, hsound.unlocked, fun d' id hid _ => ?_,
      fun _ d hok => absurd hok error_ne_ok, fun hc => absurd hc hpositioned⟩
    obtain ⟨file', hfile', hrest⟩ := hid
    exact ⟨file', (hget d').trans hfile', hrest⟩
  | opened d file _ hopens hfree hopened hmutex hvalid hid hmade hget =>
    refine ⟨fun _ he => absurd he.symm error_ne_ok, hsound.unlocked, fun d' id hold _ => ?_,
      fun _ d' hok => ?_, fun hc => ?_⟩
    · obtain ⟨file', hfile', hrest⟩ := hold
      have hne : d' ≠ d := by
        rintro rfl
        rw [hfree] at hfile'
        cases hfile'
      exact ⟨file', (hget d').trans ((if_neg hne).trans hfile'), hrest⟩
    · obtain rfl := Except.ok.inj hok
      exact ⟨hfree, file, (hget _).trans (if_pos rfl), hid, hopened⟩
    · -- an open is no positioned call
      cases c with
      | kernelOpen => exact hc.elim
      | _ => exact hopens.elim

/-- A call that leaks fails and leaves its descriptor in the table. -/
theorem leaks_answer (hleaks : c.Leaks) :
    ∃ s' e, c.apply s = .ok (s', .error e) ∧ ∃ d, s'.getFile d ≠ s.getFile d := by
  cases c with
  | kernelOpen path flags host =>
    cases path with
    | none => exact hleaks.elim
    | some path =>
      obtain ⟨hmode, htrunc, hdirectory, hdevice⟩ := hleaks
      obtain ⟨t, d, hcreate, hmade, hfree, hget⟩ := createDescriptor_spec s
      have h : Pending s t d := ⟨hmade, hfree, hget⟩
      have happly : ∃ file, (Call.kernelOpen (some path) flags host).apply s
          = .ok (t.putFile d file, .error .eacces) := by
        refine ⟨{ s.newFile with
          name := path, realName := host.realFilename, append := flag flags 0x0008
          syncWrites := flag flags 0x0080 || flag flags 0x0080 || flag flags 0x1000 }, ?_⟩
        show kernelOpen s (some path) flags host = _
        unfold kernelOpen
        simp only [hmode, hdirectory, hcreate, (hget d).trans (if_pos rfl), htrunc, hdevice]
        simp [State.newFile]
      obtain ⟨file, happly⟩ := happly
      refine ⟨_, _, happly, d, ?_⟩
      rw [h.put, if_pos rfl, hfree]
      exact Option.some_ne_none _
  | _ => exact hleaks.elim

/-- A seek below the start fails and keeps the mutex. -/
theorem seeksBelow_answer (h : Sound s) (hbelow : c.SeeksBelow s) :
    ∃ s' e, c.apply s = .ok (s', .error e) ∧
      ∃ d file, s'.getFile d = some file ∧ file.mutex ≠ 0 := by
  cases c with
  | kernelLseek d offset whence host =>
    obtain ⟨file, hfile, hplain, hneg⟩ := hbelow
    refine ⟨s.putFile d file.lock, .einval, ?_, d, file.lock,
      (getFile_putFile hfile _ d).trans (if_pos rfl), Nat.succ_ne_zero _⟩
    obtain ⟨pos, hpos⟩ := Option.isSome_iff_exists.mp (h.valid d file hfile hplain)
    have htarget : ∃ sought, file.lock.seekTo offset whence host.size = .ok sought ∧
        sought < 0 := by
      simp only [File.seekTo, File.tell, File.size, File.lock, hpos]
      obtain ⟨rfl, hneg⟩ | ⟨rfl, pos', hpos', hneg⟩ | ⟨rfl, hneg⟩ := hneg
      · exact ⟨offset, rfl, hneg⟩
      · obtain rfl := Option.some.inj (hpos.symm.trans hpos')
        exact ⟨_, rfl, hneg⟩
      · exact ⟨_, rfl, hneg⟩
    obtain ⟨sought, hsought, hneg⟩ := htarget
    have hmin : ¬ d < descriptorMin := not_lt.mpr (le_of_getFile hfile)
    show kernelLseek s d offset whence host = _
    unfold kernelLseek
    rw [if_neg hmin, hfile]
    dsimp only
    rw [hplain.1, if_neg Bool.false_ne_true, if_neg (h.not_closed hfile),
      if_neg (not_not.mpr hplain.2), hsought]
    exact if_pos hneg
  | _ => exact hbelow.elim

/-- **Regularity is exactly what it takes.** -/
theorem clean_iff_regular (h : Sound s) (happly : c.apply s = .ok (s', answer)) :
    Clean s c s' answer ↔ c.Regular s := by
  refine ⟨fun hclean => ⟨fun hleaks => ?_, fun hbelow => ?_⟩, fun hregular => ?_⟩
  · obtain ⟨t, e, ht, d, hne⟩ := leaks_answer (s := s) hleaks
    obtain ⟨rfl, rfl⟩ := Prod.mk.inj (Except.ok.inj (happly.symm.trans ht))
    exact hne (hclean.unchanged e rfl d)
  · obtain ⟨t, e, ht, d, file, hfile, hheld⟩ := seeksBelow_answer h hbelow
    obtain ⟨rfl, rfl⟩ := Prod.mk.inj (Except.ok.inj (happly.symm.trans ht))
    exact hheld (hclean.unlocked d file hfile)
  · have ho := outcome h hregular
    rw [happly] at ho
    exact ho.clean h

/-- A call stops the process only at something that is not implemented. -/
theorem exit_of_sound (h : Sound s) {exit : Exit} (happly : c.apply s = .error exit) :
    exit = .notImplemented := by
  by_cases hleaks : c.Leaks
  · obtain ⟨t, e, ht, -⟩ := leaks_answer (s := s) hleaks
    rw [happly] at ht
    cases ht
  by_cases hbelow : c.SeeksBelow s
  · obtain ⟨t, e, ht, -⟩ := seeksBelow_answer h hbelow
    rw [happly] at ht
    cases ht
  have ho := outcome h ⟨hleaks, hbelow⟩
  rw [happly] at ho
  cases ho
  rfl

end Step

/-! ### Runs -/

/-- A call returns. -/
def Returns (s : State) (x : Call × Answer) (s' : State) : Prop := x.1.apply s = .ok (s', x.2)

/-- A regular call returns. -/
def RegularReturns (s : State) (x : Call × Answer) (s' : State) : Prop :=
  x.1.Regular s ∧ Returns s x s'

theorem regularReturns_outcome {s s' : State} {x : Call × Answer} (h : Sound s)
    (hstep : RegularReturns s x s') : Outcome s x.1 (.ok (s', x.2)) := by
  have ho := outcome h hstep.1
  rw [show x.1.apply s = _ from hstep.2] at ho
  exact ho

theorem sound_run {s s' : State} {calls : List (Call × Answer)} (h : Sound s)
    (hrun : Run RegularReturns s calls s') : Sound s' :=
  hrun.invariant h fun _ _ _ h hstep => (regularReturns_outcome h hstep).sound h

/-- A number keeps its object while nobody closes it. -/
theorem designates_run {s s' : State} {calls : List (Call × Answer)} (h : Sound s)
    (hrun : Run RegularReturns s calls s') {d : ℤ} {id : ℕ} (hid : s.Designates d id)
    (hkeep : ∀ x ∈ calls, ¬ x.1.Closes d) : s'.Designates d id := by
  induction hrun with
  | nil => exact hid
  | @snoc s₁ s₂ as x hbefore hstep ih =>
    have hsound := sound_run h hbefore
    have hid := ih fun y hy => hkeep y (List.mem_append_left _ hy)
    have hclean := (regularReturns_outcome hsound hstep).clean hsound
    exact hclean.kept d id hid (hkeep x (List.mem_append_right _ List.mem_cons_self))

/-- **Failed calls leave no trace**, if all calls are regular: after such calls the
process stops only at something that is not implemented, a further call is clean
exactly if it is regular too, and a number that it opens stands for one object, which
is new, until it is closed. -/
theorem failed_calls_leave_no_trace {calls : List (Call × Answer)} {s : State}
    (hrun : Run RegularReturns State.initial calls s) (c : Call) :
    (∀ exit, c.apply s = .error exit → exit = .notImplemented) ∧
    (∀ s' answer, Returns s (c, answer) s' → (Clean s c s' answer ↔ c.Regular s)) ∧
    ∀ (d : ℤ) s', c.Opens → RegularReturns s (c, .ok d) s' →
      ∃ id, (∀ d', ¬ s.Designates d' id) ∧
        ∀ later s'', Run RegularReturns s' later s'' → (∀ x ∈ later, ¬ x.1.Closes d) →
          s''.Designates d id := by
  have h := sound_run sound_initial hrun
  refine ⟨fun exit => exit_of_sound h, fun s' answer => clean_iff_regular h,
    fun d s' hopens hstep => ⟨s.made, fun d' hid => ?_, fun later s'' hlater hkeep => ?_⟩⟩
  · obtain ⟨file, hfile, heq, -⟩ := hid
    exact (h.made d' file hfile).ne heq
  · have ho := regularReturns_outcome h hstep
    exact designates_run (ho.sound h) hlater (((ho.clean h).opens hopens d rfl).2) hkeep

/-- The answers of a host on which one file of one byte exists, or none. -/
def oneFile (exist : Bool) : OpenHost :=
  { realDirectory := "/host", realFilename := "/host", dirExist := false, fileExist := exist
    entries := [], create := true, open' := true, truncate := true, size := 1 }

/-- A transfer of that byte. -/
def oneByte : IoHost := { socket := none, size := 1, moved := 1, pos := 1, written := true }

/-- That file is open. -/
def oneOpen : State :=
  ⟨[some { id := 0, f := some 0, name := "/x", realName := "/host", opened := true
           directory := false, append := false, syncWrites := false, special := .none
           mutex := 0, dents := [], dentsOffset := 0 }], 1⟩

theorem returns_oneOpen :
    Returns State.initial (.kernelOpen (some "/x") 0 (oneFile true), .ok 3) oneOpen := rfl

/-- A missing file is refused while another is open, and the table stays. -/
theorem failed_calls_leave_no_trace_missing : ∃ s s',
    Run RegularReturns State.initial [(.kernelOpen (some "/x") 0 (oneFile true), .ok 3)] s ∧
    Returns s (.kernelOpen (some "/y") 0 (oneFile false), .error .enoent) s' ∧
    Clean s (.kernelOpen (some "/y") 0 (oneFile false)) s' (.error .enoent) := by
  have hregular : ∀ (s : State) path host, (Call.kernelOpen (some path) 0 host).Regular s :=
    fun s path host => ⟨fun hleaks => absurd hleaks.2.1 (by decide), fun hbelow => hbelow⟩
  have hrun : Run RegularReturns State.initial [(.kernelOpen (some "/x") 0 (oneFile true), .ok 3)]
      oneOpen := Run.single ⟨hregular _ _ _, returns_oneOpen⟩
  have hreturns : Returns oneOpen
      (.kernelOpen (some "/y") 0 (oneFile false), .error .enoent) ⟨oneOpen.files ++ [none], 2⟩ := rfl
  exact ⟨_, _, hrun, hreturns,
    ((failed_calls_leave_no_trace hrun _).2.1 _ _ hreturns).mpr (hregular _ _ _)⟩

/-- An open for reading that asks for truncation fails and changes the table, and the
next read of that number stops at an object that is not opened. A seek to a negative
position fails and keeps the mutex. -/
theorem failed_calls_leave_traces :
    (∃ s, Run Returns State.initial
        [(.kernelOpen (some "/x") 0x400 (oneFile true), .error .eacces)] s ∧
      s.getFile 3 ≠ State.initial.getFile 3 ∧
      (Call.kernelRead 3 true 1 oneByte).apply s = .error .notOpened) ∧
    ∃ s, Run Returns State.initial
        [(.kernelOpen (some "/x") 0 (oneFile true), .ok 3),
          (.kernelLseek 3 (-1) 0 oneByte, .error .einval)] s ∧
      (s.getFile 3).map File.mutex = some 1 := by
  refine ⟨⟨_, Run.single rfl, ?_, rfl⟩, _, (Run.single returns_oneOpen).snoc rfl, rfl⟩
  exact fun h => by cases h

end Prosperismo.FileSystem
