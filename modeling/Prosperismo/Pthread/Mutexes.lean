import Mathlib.Order.Lattice
import Mathlib.Tactic.Tauto
import Prosperismo.Pthread.Model

/-!
# Who owns a mutex

What an operation of one thread does to a mutex leaves the share of every other thread alone
(`Mutex.Move`). A thread in a wait has put its own share aside (`Call.hold`). With both the depth of
a thread in a mutex is the number of its locks less the number of its unlocks, whatever waits come
in between (`MutexSound.step`).
-/

namespace Prosperismo.Pthread

variable {θ μ κ : Type} [DecidableEq θ] [DecidableEq μ]

/-! ### One mutex -/

namespace Mutex

variable {x x' : Mutex θ} {self : θ}

/-- The count belongs to the owner, and only a recursive mutex counts further than one. -/
structure Fine (x : Mutex θ) : Prop where
  count : x.count = 0 ↔ x.owner = none
  single : x.type ≠ 2 → x.count ≤ 1

/-- How often a thread holds the mutex. -/
def held (x : Mutex θ) (thread : θ) : ℕ :=
  if x.owner = some thread then x.count else 0

theorem held_of_owner (h : x.owner = some self) : x.held self = x.count :=
  if_pos h

theorem held_of_not_owner (h : x.owner ≠ some self) : x.held self = 0 :=
  if_neg h

theorem Fine.held_pos (h : x.Fine) (howner : x.owner = some self) : 0 < x.held self := by
  rw [held_of_owner howner, Nat.pos_iff_ne_zero]
  intro hzero
  rw [h.count.1 hzero] at howner
  cases howner

/-- A change that leaves the other threads alone. -/
structure Move (thread : θ) (x x' : Mutex θ) : Prop where
  fine : x'.Fine
  type : x'.type = x.type
  owner : ∀ other, other ≠ thread → (x'.owner = some other ↔ x.owner = some other)
  held : ∀ other, other ≠ thread → x'.held other = x.held other

theorem Move.refl (h : x.Fine) (self : θ) : Move self x x :=
  ⟨h, rfl, fun _ _ => Iff.rfl, fun _ _ => rfl⟩

/-- Where the mutex is owned by the thread or by nobody before and afterwards. -/
theorem move_of_owner (hfine : x'.Fine) (htype : x'.type = x.type)
    (howner : x.owner = some self ∨ x.owner = none)
    (howner' : x'.owner = some self ∨ x'.owner = none) : Move self x x' := by
  have hnot : ∀ {y : Mutex θ}, (y.owner = some self ∨ y.owner = none) →
      ∀ other, other ≠ self → y.owner ≠ some other := by
    rintro y (hself | hnone) other hother howner
    · exact hother (Option.some.inj (howner.symm.trans hself))
    · cases howner.symm.trans hnone
  refine ⟨hfine, htype, fun other hother => ?_, fun other hother => ?_⟩
  · exact iff_of_false (hnot howner' other hother) (hnot howner other hother)
  · rw [held_of_not_owner (hnot howner' other hother), held_of_not_owner (hnot howner other hother)]

/-- The thread takes the mutex once more. -/
structure Takes (thread : θ) (x x' : Mutex θ) : Prop extends Move thread x x' where
  owned : x'.owner = some thread
  once_more : x'.held thread = x.held thread + 1

/-- The thread gives the mutex back once. -/
structure Gives (thread : θ) (x x' : Mutex θ) : Prop extends Move thread x x' where
  once_less : x.held thread = x'.held thread + 1

theorem takes_acquire (hnone : x.owner = none) (self : θ) :
    Takes self x (x.acquire self) where
  toMove := move_of_owner ⟨⟨nofun, nofun⟩, fun _ => le_rfl⟩ rfl (.inr hnone) (.inl rfl)
  owned := rfl
  once_more := by
    rw [held_of_owner (x := x.acquire self) rfl, held_of_not_owner (by rw [hnone]; exact nofun)]
    rfl

theorem takes_again (howner : x.owner = some self) (htype : x.type = 2) :
    Takes self x { x with count := x.count + 1 } where
  toMove := by
    refine move_of_owner ⟨⟨nofun, fun hnone => ?_⟩, fun hne => absurd htype hne⟩ rfl (.inl howner)
      (.inl howner)
    cases howner.symm.trans hnone
  owned := howner
  once_more := by
    rw [held_of_owner howner, held_of_owner (x := { x with count := x.count + 1 }) howner]

/-- `NativeMutexLock` takes the mutex, or leaves it as it is. -/
theorem lock_spec (x : Mutex θ) (self : θ) (timeoutUs : Option ℕ) :
    (x.lock self timeoutUs).1 = some .ok ∧ Takes self x (x.lock self timeoutUs).2 ∨
      (x.lock self timeoutUs).1 ≠ some .ok ∧ (x.lock self timeoutUs).2 = x := by
  unfold lock
  by_cases howner : x.owner = some self
  · rw [if_pos howner]
    by_cases htype : x.type = 2
    · rw [if_pos htype]
      split
      · exact .inr ⟨nofun, rfl⟩
      · exact .inl ⟨rfl, takes_again howner htype⟩
    · rw [if_neg htype]
      split
      · exact .inr ⟨nofun, rfl⟩
      · exact .inr ⟨nofun, rfl⟩
  · rw [if_neg howner]
    split
    · next hnone => exact .inl ⟨rfl, takes_acquire hnone self⟩
    · split
      · exact .inr ⟨nofun, rfl⟩
      · exact .inr ⟨nofun, rfl⟩

/-- The loops of `NativeMutexLock` do the same. -/
theorem poll_spec (x : Mutex θ) (self : θ) (expired : Bool) :
    (x.poll self expired).1 = some .ok ∧ Takes self x (x.poll self expired).2 ∨
      (x.poll self expired).1 ≠ some .ok ∧ (x.poll self expired).2 = x := by
  unfold poll
  split
  · next hnone => exact .inl ⟨rfl, takes_acquire hnone self⟩
  · split
    · exact .inr ⟨nofun, rfl⟩
    · exact .inr ⟨nofun, rfl⟩

/-- `NativeMutexTrylock` does the same. -/
theorem trylock_spec (x : Mutex θ) (self : θ) :
    (x.trylock self).1 = .ok ∧ Takes self x (x.trylock self).2 ∨
      (x.trylock self).1 ≠ .ok ∧ (x.trylock self).2 = x := by
  unfold trylock
  by_cases howner : x.owner = some self
  · rw [if_pos howner]
    by_cases htype : x.type = 2
    · rw [if_pos htype]
      split
      · exact .inr ⟨nofun, rfl⟩
      · exact .inl ⟨rfl, takes_again howner htype⟩
    · rw [if_neg htype]
      exact .inr ⟨nofun, rfl⟩
  · rw [if_neg howner]
    split
    · next hnone => exact .inl ⟨rfl, takes_acquire hnone self⟩
    · exact .inr ⟨nofun, rfl⟩

omit [DecidableEq θ] in
/-- A mutex that is given back. -/
theorem fine_free (x : Mutex θ) : Fine (⟨none, 0, x.type⟩ : Mutex θ) :=
  ⟨⟨fun _ => rfl, fun _ => rfl⟩, fun _ => Nat.zero_le 1⟩

/-- `NativeMutexUnlock` gives the mutex back once, or leaves it as it is. -/
theorem unlock_spec (h : x.Fine) (self : θ) :
    (x.unlock self false).1 = .ok ∧ Gives self x (x.unlock self false).2.2 ∨
      (x.unlock self false).1 ≠ .ok ∧ (x.unlock self false).2.2 = x := by
  by_cases howner : x.owner = some self
  · have hpos := h.held_pos howner
    rw [held_of_owner howner] at hpos
    have hunlock : x.unlock self false =
        if x.type = 2 ∧ 1 < x.count then (.ok, x.count, ⟨x.owner, x.count - 1, x.type⟩)
        else (.ok, x.count, ⟨none, 0, x.type⟩) := if_neg (not_not.2 howner)
    by_cases hmany : x.type = 2 ∧ 1 < x.count
    · -- one level of a recursive mutex
      rw [hunlock, if_pos hmany]
      have hleft : x.count - 1 ≠ 0 := Nat.sub_ne_zero_of_lt hmany.2
      have hfine : Fine (⟨x.owner, x.count - 1, x.type⟩ : Mutex θ) :=
        ⟨iff_of_false hleft (fun hnone => nomatch howner.symm.trans hnone),
          fun hne => absurd hmany.1 hne⟩
      refine .inl ⟨rfl, ⟨move_of_owner hfine rfl (.inl howner) (.inl howner), ?_⟩⟩
      have hheld : held (⟨x.owner, x.count - 1, x.type⟩ : Mutex θ) self = x.count - 1 :=
        held_of_owner (x := ⟨x.owner, x.count - 1, x.type⟩) howner
      rw [held_of_owner howner, hheld]
      exact (Nat.sub_add_cancel hpos).symm
    · -- the last level
      have hcount : x.count = 1 := by
        by_cases htype : x.type = 2
        · have hle : ¬1 < x.count := fun hlt => hmany ⟨htype, hlt⟩
          omega
        · have hle := h.single htype
          omega
      rw [hunlock, if_neg hmany]
      refine .inl ⟨rfl, ⟨move_of_owner (fine_free x) rfl (.inl howner) (.inr rfl), ?_⟩⟩
      rw [held_of_owner howner, hcount]
      rfl
  · have hunlock : x.unlock self false = (.eperm, 0, x) := if_pos howner
    rw [hunlock]
    exact .inr ⟨nofun, rfl⟩

/-- The `NativeMutexUnlock` of a wait gives the mutex back fully, if the thread owns it. -/
theorem unlock_full (howner : x.owner = some self) :
    x.unlock self true = (.ok, x.count, { x with owner := none, count := 0 }) := by
  unfold unlock
  rw [if_neg (not_not.2 howner)]
  exact if_neg fun hmany => Nat.lt_irrefl 1 hmany.2

end Mutex

/-! ### What a wait has put aside -/

/-- What a call has to do with a mutex. -/
inductive Hold (μ : Type)
  /-- Nothing. -/
  | none
  /-- The mutex is about to be released by a wait. -/
  | entered (mutex : μ)
  /-- The mutex has been released by a wait. -/
  | away (mutex : μ) (recurse : ℕ)
  /-- The mutex has been taken again by a wait. -/
  | restoring (mutex : μ) (recurse : ℕ)

/-- What a call has to do with a mutex. -/
def Call.hold : Call μ κ → Hold μ
  | .idle => .none
  | .locking _ _ => .none
  | .entered wait => .entered wait.mutex
  | .released wait recurse => .away wait.mutex recurse
  | .sleeping wait recurse => .away wait.mutex recurse
  | .relocking mutex recurse _ _ => .away mutex recurse
  | .restoring mutex recurse _ => .restoring mutex recurse

/-- A mutex as the call of a thread left it. -/
def Hold.Fits (mutexes : μ → Mutex θ) (thread : θ) : Hold μ → Prop
  | .none => True
  | .entered mutex => (mutexes mutex).owner = some thread
  | .away mutex recurse =>
    (mutexes mutex).owner ≠ some thread ∧ 1 ≤ recurse ∧ ((mutexes mutex).type ≠ 2 → recurse ≤ 1)
  | .restoring mutex recurse =>
    (mutexes mutex).owner = some thread ∧ (mutexes mutex).count = 1 ∧ 1 ≤ recurse ∧
      ((mutexes mutex).type ≠ 2 → recurse ≤ 1)

/-- The depth of a thread in a mutex: what it holds, or has put aside in a wait. -/
def Hold.depth (mutexes : μ → Mutex θ) (thread : θ) (mutex : μ) : Hold μ → ℕ
  | .away waited recurse => if waited = mutex then recurse else (mutexes mutex).held thread
  | .restoring waited recurse => if waited = mutex then recurse else (mutexes mutex).held thread
  | _ => (mutexes mutex).held thread

/-- The depth of a thread in a mutex. -/
def State.depth (s : State θ μ κ) (thread : θ) (mutex : μ) : ℕ :=
  (s.calls thread).hold.depth s.mutexes thread mutex

/-- The mutexes between two steps. -/
structure MutexSound (s : State θ μ κ) : Prop where
  fine : ∀ mutex, (s.mutexes mutex).Fine
  fits : ∀ thread, (s.calls thread).hold.Fits s.mutexes thread

omit [DecidableEq θ] [DecidableEq μ] in
/-- Only the mutexes and what the calls have to do with them matter. -/
theorem MutexSound.congr {s s' : State θ μ κ} (h : MutexSound s) (hmutexes : s'.mutexes = s.mutexes)
    (hhold : ∀ thread, (s'.calls thread).hold = (s.calls thread).hold) : MutexSound s' where
  fine := hmutexes ▸ h.fine
  fits thread := by
    rw [hhold, hmutexes]
    exact h.fits thread

/-- A thread does something with one mutex. -/
def State.act (s : State θ μ κ) (thread : θ) (mutex : μ) (x : Mutex θ) (call : Call μ κ) :
    State θ μ κ :=
  (s.setMutex mutex x).setCall thread call

section Act

variable {s : State θ μ κ} {thread : θ} {mutex : μ} {x : Mutex θ} {call : Call μ κ}

theorem act_mutex_self : (s.act thread mutex x call).mutexes mutex = x := by
  simp [State.act, State.setMutex, State.setCall]

theorem act_mutex_of_ne {other : μ} (h : other ≠ mutex) :
    (s.act thread mutex x call).mutexes other = s.mutexes other := by
  simp [State.act, State.setMutex, State.setCall, h]

theorem act_call_self : (s.act thread mutex x call).calls thread = call := by
  simp [State.act, State.setMutex, State.setCall]

theorem act_call_of_ne {other : θ} (h : other ≠ thread) :
    (s.act thread mutex x call).calls other = s.calls other := by
  simp [State.act, State.setMutex, State.setCall, h]

/-- A mutex as another thread sees it. -/
structure Unmoved (other : θ) (y y' : Mutex θ) : Prop where
  owner : y'.owner = some other ↔ y.owner = some other
  held : y'.held other = y.held other
  type : y'.type = y.type

theorem act_other (hmove : (s.mutexes mutex).Move thread x) {other : θ} (hother : other ≠ thread)
    (any : μ) : Unmoved other (s.mutexes any) ((s.act thread mutex x call).mutexes any) := by
  by_cases hany : any = mutex
  · subst hany
    rw [act_mutex_self]
    exact ⟨hmove.owner other hother, hmove.held other hother, hmove.type⟩
  · rw [act_mutex_of_ne hany]
    exact ⟨Iff.rfl, rfl, rfl⟩

omit [DecidableEq μ] in
/-- A call of another thread still finds its mutex as it left it. -/
theorem Hold.Fits.unmoved {mutexes mutexes' : μ → Mutex θ} {other : θ} {hold : Hold μ}
    (h : hold.Fits mutexes other)
    (hunmoved : ∀ any, Unmoved other (mutexes any) (mutexes' any)) : hold.Fits mutexes' other := by
  cases hold with
  | none => trivial
  | entered waited => exact (hunmoved waited).owner.2 h
  | away waited recurse =>
    obtain ⟨howner, hpos, hsingle⟩ := h
    refine ⟨fun hself => howner ((hunmoved waited).owner.1 hself), hpos, ?_⟩
    rw [(hunmoved waited).type]
    exact hsingle
  | restoring waited recurse =>
    obtain ⟨howner, hcount, hpos, hsingle⟩ := h
    have howner' := (hunmoved waited).owner.2 howner
    refine ⟨howner', ?_, hpos, ?_⟩
    · rw [← Mutex.held_of_owner howner', (hunmoved waited).held, Mutex.held_of_owner howner, hcount]
    · rw [(hunmoved waited).type]
      exact hsingle

/-- The depth of another thread is what it was. -/
theorem act_depth_of_ne (hmove : (s.mutexes mutex).Move thread x) {other : θ}
    (hother : other ≠ thread) (any : μ) :
    (s.act thread mutex x call).depth other any = s.depth other any := by
  have hheld : ((s.act thread mutex x call).mutexes any).held other =
      (s.mutexes any).held other := (act_other hmove hother any).held
  unfold State.depth
  rw [act_call_of_ne hother]
  cases (s.calls other).hold with
  | none => exact hheld
  | entered => exact hheld
  | away => exact congrArg (ite _ _) hheld
  | restoring => exact congrArg (ite _ _) hheld

/-- **Step lemma** for the mutexes: a thread changes its share of one of them. -/
theorem MutexSound.act (h : MutexSound s) (hmove : (s.mutexes mutex).Move thread x)
    (hfits : call.hold.Fits (s.act thread mutex x call).mutexes thread) :
    MutexSound (s.act thread mutex x call) where
  fine any := by
    by_cases hany : any = mutex
    · subst hany
      rw [act_mutex_self]
      exact hmove.fine
    · rw [act_mutex_of_ne hany]
      exact h.fine any
  fits other := by
    by_cases hother : other = thread
    · subst hother
      rw [act_call_self]
      exact hfits
    · rw [act_call_of_ne hother]
      exact (h.fits other).unmoved (act_other hmove hother)

end Act

/-! ### Acquisitions and releases -/

/-- A lock that succeeds. -/
def Action.Acquires (thread : θ) (mutex : μ) : Action θ μ κ → Prop
  | .lock thread' mutex' result => thread' = thread ∧ mutex' = mutex ∧ result = some .ok
  | .trylock thread' mutex' result => thread' = thread ∧ mutex' = mutex ∧ result = .ok
  | _ => False

/-- An unlock that succeeds. -/
def Action.Releases (thread : θ) (mutex : μ) : Action θ μ κ → Prop
  | .unlock thread' mutex' result => thread' = thread ∧ mutex' = mutex ∧ result = .ok
  | _ => False

instance (thread : θ) (mutex : μ) (a : Action θ μ κ) : Decidable (a.Acquires thread mutex) := by
  unfold Action.Acquires
  split <;> infer_instance

instance (thread : θ) (mutex : μ) (a : Action θ μ κ) : Decidable (a.Releases thread mutex) := by
  unfold Action.Releases
  split <;> infer_instance

/-- The depths change by what is acquired and released. -/
def Balanced (s : State θ μ κ) (a : Action θ μ κ) (s' : State θ μ κ) : Prop :=
  ∀ thread mutex,
    (if a.Acquires thread mutex then 1 else 0) + s.depth thread mutex =
      (if a.Releases thread mutex then 1 else 0) + s'.depth thread mutex

/-- A step that neither acquires nor releases. -/
theorem Balanced.same {s s' : State θ μ κ} {a : Action θ μ κ} (h : Balanced s a s') {thread : θ}
    {mutex : μ} (hacquires : ¬a.Acquires thread mutex) (hreleases : ¬a.Releases thread mutex) :
    s'.depth thread mutex = s.depth thread mutex := by
  have hboth := h thread mutex
  rw [if_neg hacquires, if_neg hreleases, Nat.zero_add, Nat.zero_add] at hboth
  exact hboth.symm

section Balance

variable {s s' : State θ μ κ} {a : Action θ μ κ} {thread : θ} {mutex : μ} {x : Mutex θ}
  {call : Call μ κ}

theorem balanced_of_eq (hacquires : ∀ thread mutex, ¬a.Acquires thread mutex)
    (hreleases : ∀ thread mutex, ¬a.Releases thread mutex)
    (h : ∀ thread mutex, s'.depth thread mutex = s.depth thread mutex) : Balanced s a s' := by
  intro thread mutex
  rw [if_neg (hacquires thread mutex), if_neg (hreleases thread mutex), h thread mutex]

/-- The depth of a thread that is in no wait. -/
theorem depth_of_hold_none (h : (s.calls thread).hold = .none) (any : μ) :
    s.depth thread any = (s.mutexes any).held thread := by
  unfold State.depth
  rw [h]
  rfl

/-- A lock that takes the mutex, or fails. -/
theorem MutexSound.take (h : MutexSound s) (hhold : (s.calls thread).hold = .none)
    (hhold' : call.hold = .none) {ok : Prop}
    (hspec : ok ∧ (s.mutexes mutex).Takes thread x ∨ ¬ok ∧ x = s.mutexes mutex)
    (hacquires : ∀ thread' mutex',
      a.Acquires thread' mutex' ↔ thread = thread' ∧ mutex = mutex' ∧ ok)
    (hreleases : ∀ thread' mutex', ¬a.Releases thread' mutex') :
    MutexSound (s.act thread mutex x call) ∧ Balanced s a (s.act thread mutex x call) := by
  have hmove : (s.mutexes mutex).Move thread x := by
    rcases hspec with ⟨-, htakes⟩ | ⟨-, rfl⟩
    · exact htakes.toMove
    · exact .refl (h.fine mutex) thread
  have hfits : call.hold.Fits (s.act thread mutex x call).mutexes thread := by
    rw [hhold']
    trivial
  refine ⟨h.act hmove hfits, fun other any => ?_⟩
  rw [if_neg (hreleases other any), Nat.zero_add]
  by_cases hother : other = thread
  · subst hother
    have hafter : (s.act other mutex x call).depth other any =
        ((s.act other mutex x call).mutexes any).held other :=
      depth_of_hold_none (by rw [act_call_self, hhold']) any
    rw [hafter, depth_of_hold_none hhold]
    by_cases hany : any = mutex
    · subst hany
      rw [act_mutex_self]
      rcases hspec with ⟨hok, htakes⟩ | ⟨hnot, rfl⟩
      · rw [if_pos ((hacquires other any).2 ⟨rfl, rfl, hok⟩), htakes.once_more, Nat.add_comm]
      · rw [if_neg fun hacq => hnot ((hacquires other any).1 hacq).2.2, Nat.zero_add]
    · rw [act_mutex_of_ne hany, if_neg fun hacq => hany ((hacquires other any).1 hacq).2.1.symm,
        Nat.zero_add]
  · rw [act_depth_of_ne hmove hother, if_neg fun hacq =>
      hother ((hacquires other any).1 hacq).1.symm, Nat.zero_add]

/-- An unlock that gives the mutex back, or fails. -/
theorem MutexSound.give (h : MutexSound s) (hhold : (s.calls thread).hold = .none)
    (hhold' : call.hold = .none) {ok : Prop}
    (hspec : ok ∧ (s.mutexes mutex).Gives thread x ∨ ¬ok ∧ x = s.mutexes mutex)
    (hreleases : ∀ thread' mutex',
      a.Releases thread' mutex' ↔ thread = thread' ∧ mutex = mutex' ∧ ok)
    (hacquires : ∀ thread' mutex', ¬a.Acquires thread' mutex') :
    MutexSound (s.act thread mutex x call) ∧ Balanced s a (s.act thread mutex x call) := by
  have hmove : (s.mutexes mutex).Move thread x := by
    rcases hspec with ⟨-, hgives⟩ | ⟨-, rfl⟩
    · exact hgives.toMove
    · exact .refl (h.fine mutex) thread
  have hfits : call.hold.Fits (s.act thread mutex x call).mutexes thread := by
    rw [hhold']
    trivial
  refine ⟨h.act hmove hfits, fun other any => ?_⟩
  rw [if_neg (hacquires other any), Nat.zero_add]
  by_cases hother : other = thread
  · subst hother
    have hafter : (s.act other mutex x call).depth other any =
        ((s.act other mutex x call).mutexes any).held other :=
      depth_of_hold_none (by rw [act_call_self, hhold']) any
    rw [hafter, depth_of_hold_none hhold]
    by_cases hany : any = mutex
    · subst hany
      rw [act_mutex_self]
      rcases hspec with ⟨hok, hgives⟩ | ⟨hnot, rfl⟩
      · rw [if_pos ((hreleases other any).2 ⟨rfl, rfl, hok⟩), hgives.once_less, Nat.add_comm]
      · rw [if_neg fun hrel => hnot ((hreleases other any).1 hrel).2.2, Nat.zero_add]
    · rw [act_mutex_of_ne hany, if_neg fun hrel => hany ((hreleases other any).1 hrel).2.1.symm,
        Nat.zero_add]
  · rw [act_depth_of_ne hmove hother, if_neg fun hrel =>
      hother ((hreleases other any).1 hrel).1.symm, Nat.zero_add]

/-- What a wait does to its mutex changes no depth: what is put aside still counts. -/
theorem MutexSound.keep (h : MutexSound s) (hmove : (s.mutexes mutex).Move thread x)
    (hfits : call.hold.Fits (s.act thread mutex x call).mutexes thread)
    (hdepth : ∀ any, call.hold.depth (s.act thread mutex x call).mutexes thread any =
      (s.calls thread).hold.depth s.mutexes thread any)
    (hacquires : ∀ thread mutex, ¬a.Acquires thread mutex)
    (hreleases : ∀ thread mutex, ¬a.Releases thread mutex) :
    MutexSound (s.act thread mutex x call) ∧ Balanced s a (s.act thread mutex x call) := by
  refine ⟨h.act hmove hfits, balanced_of_eq hacquires hreleases fun other any => ?_⟩
  by_cases hother : other = thread
  · subst hother
    unfold State.depth
    rw [act_call_self]
    exact hdepth any
  · exact act_depth_of_ne hmove hother any

/-- A step that touches no mutex. -/
theorem MutexSound.away (h : MutexSound s) (hmutexes : s'.mutexes = s.mutexes)
    (hcalls : ∀ other, other ≠ thread → s'.calls other = s.calls other)
    (hfits : (s'.calls thread).hold.Fits s.mutexes thread)
    (hdepth : ∀ any, (s'.calls thread).hold.depth s.mutexes thread any =
      (s.calls thread).hold.depth s.mutexes thread any)
    (hacquires : ∀ thread mutex, ¬a.Acquires thread mutex)
    (hreleases : ∀ thread mutex, ¬a.Releases thread mutex) : MutexSound s' ∧ Balanced s a s' := by
  refine ⟨⟨hmutexes ▸ h.fine, fun other => ?_⟩,
    balanced_of_eq hacquires hreleases fun other any => ?_⟩
  · rw [hmutexes]
    by_cases hother : other = thread
    · subst hother
      exact hfits
    · rw [hcalls other hother]
      exact h.fits other
  · unfold State.depth
    rw [hmutexes]
    by_cases hother : other = thread
    · subst hother
      exact hdepth any
    · rw [hcalls other hother]

/-- A wait that looks again puts the same aside. -/
theorem MutexSound.recheck (h : MutexSound s) {recurse : ℕ}
    (hhold : (s.calls thread).hold = .away mutex recurse) (hmutexes : s'.mutexes = s.mutexes)
    (hcalls : ∀ other, other ≠ thread → s'.calls other = s.calls other)
    (hhold' : (s'.calls thread).hold = .away mutex recurse)
    (hacquires : ∀ thread mutex, ¬a.Acquires thread mutex)
    (hreleases : ∀ thread mutex, ¬a.Releases thread mutex) : MutexSound s' ∧ Balanced s a s' := by
  have hsame : (s'.calls thread).hold = (s.calls thread).hold := hhold'.trans hhold.symm
  refine h.away hmutexes hcalls ?_ (fun any => ?_) hacquires hreleases
  · rw [hsame]
    exact h.fits thread
  · rw [hsame]

end Balance

/-! ### Steps -/

omit [DecidableEq μ] in
/-- A thread that does not own the mutex takes it or has to wait. -/
theorem relock_spec {s : State θ μ κ} {thread : θ} {mutex : μ} {polling : Bool} {x : Mutex θ}
    {lockResult : Option Result}
    (howner : (s.mutexes mutex).owner ≠ some thread)
    (hlock : (if polling then (s.mutexes mutex).poll thread false
      else (s.mutexes mutex).lock thread none) = (lockResult, x)) :
    lockResult = some .ok ∧ (s.mutexes mutex).Takes thread x ∨
      lockResult = none ∧ x = s.mutexes mutex := by
  cases polling with
  | true =>
    rw [if_pos rfl] at hlock
    unfold Mutex.poll at hlock
    split at hlock
    · next hnone =>
      obtain ⟨rfl, rfl⟩ := Prod.mk.inj hlock
      exact .inl ⟨rfl, Mutex.takes_acquire hnone thread⟩
    · obtain ⟨rfl, rfl⟩ := Prod.mk.inj hlock
      exact .inr ⟨rfl, rfl⟩
  | false =>
    rw [if_neg nofun] at hlock
    unfold Mutex.lock at hlock
    rw [if_neg howner] at hlock
    split at hlock
    · next hnone =>
      obtain ⟨rfl, rfl⟩ := Prod.mk.inj hlock
      exact .inl ⟨rfl, Mutex.takes_acquire hnone thread⟩
    · obtain ⟨rfl, rfl⟩ := Prod.mk.inj hlock
      exact .inr ⟨rfl, rfl⟩

section Conds

variable [DecidableEq κ] (s : State θ μ κ) (cond : κ) (thread : θ)

omit [DecidableEq μ] in
theorem condRemoveWaiter_frame :
    (s.condRemoveWaiter cond thread).mutexes = s.mutexes ∧
      (s.condRemoveWaiter cond thread).calls = s.calls := by
  unfold State.condRemoveWaiter
  split
  · exact ⟨rfl, rfl⟩
  · exact ⟨rfl, rfl⟩

omit [DecidableEq μ] in
theorem condWakeWaiter_frame :
    (s.condWakeWaiter cond thread).2.mutexes = s.mutexes ∧
      (s.condWakeWaiter cond thread).2.calls = s.calls := by
  unfold State.condWakeWaiter
  split
  · exact ⟨rfl, rfl⟩
  · exact ⟨rfl, rfl⟩

omit [DecidableEq μ] in
theorem signal_frame :
    (s.signal cond).2.mutexes = s.mutexes ∧ (s.signal cond).2.calls = s.calls := by
  unfold State.signal
  split
  · exact ⟨rfl, rfl⟩
  · exact condWakeWaiter_frame s cond _

omit [DecidableEq μ] in
theorem broadcast_frame :
    (s.broadcast cond).2.mutexes = s.mutexes ∧ (s.broadcast cond).2.calls = s.calls := by
  unfold State.broadcast
  split
  · exact ⟨rfl, rfl⟩
  · exact ⟨rfl, rfl⟩

omit [DecidableEq μ] in
/-- A wait that looks again puts the same aside. -/
theorem checked_frame (wait : Wait μ κ) (recurse : ℕ) (expired : Bool) :
    (s.checked thread wait recurse expired).mutexes = s.mutexes ∧
      (∀ other, other ≠ thread →
        (s.checked thread wait recurse expired).calls other = s.calls other) ∧
      ((s.checked thread wait recurse expired).calls thread).hold = .away wait.mutex recurse := by
  obtain ⟨hmutexes, hcalls⟩ := condRemoveWaiter_frame s wait.cond thread
  unfold State.checked State.setCall
  split
  · refine ⟨hmutexes, fun other hother => ?_, ?_⟩
    · dsimp only
      rw [Function.update_of_ne hother, hcalls]
    · dsimp only
      rw [Function.update_self]
      rfl
  · refine ⟨rfl, fun other hother => ?_, ?_⟩
    · dsimp only
      rw [Function.update_of_ne hother]
    · dsimp only
      rw [Function.update_self]
      rfl

end Conds

/-- **Step lemma**: every step keeps the mutexes, and changes the depths by what is locked and
unlocked. -/
theorem MutexSound.step [DecidableEq κ] {s s' : State θ μ κ} {a : Action θ μ κ} (h : MutexSound s)
    (hstep : Step s a s') : MutexSound s' ∧ Balanced s a s' := by
  have hframe : ∀ {s' : State θ μ κ}, s'.mutexes = s.mutexes ∧ s'.calls = s.calls →
      (∀ thread mutex, ¬a.Acquires thread mutex) → (∀ thread mutex, ¬a.Releases thread mutex) →
        MutexSound s' ∧ Balanced s a s' := by
    rintro s' ⟨hmutexes, hcalls⟩ hacquires hreleases
    refine ⟨h.congr hmutexes fun thread => by rw [hcalls],
      balanced_of_eq hacquires hreleases fun thread mutex => ?_⟩
    unfold State.depth
    rw [hmutexes, hcalls]
  cases hstep with
  | @lock thread mutex timeoutUs hcall =>
    refine h.take ?_ ?_
      (Mutex.lock_spec _ thread timeoutUs) (fun _ _ => Iff.rfl) (fun _ _ => id)
    · rw [hcall]
      rfl
    · split
      · rfl
      · rfl
  | @lockPoll thread mutex timed expired hcall =>
    refine h.take ?_ ?_
      (Mutex.poll_spec _ thread _) (fun _ _ => Iff.rfl) (fun _ _ => id)
    · rw [hcall]
      rfl
    · split
      · rfl
      · rfl
  | @trylock thread mutex hcall =>
    refine h.take ?_ rfl
      (Mutex.trylock_spec _ thread) (fun _ _ => Iff.rfl) (fun _ _ => id)
    rw [hcall]
    rfl
  | @unlock thread mutex hcall =>
    refine h.give ?_ rfl
      (Mutex.unlock_spec (h.fine mutex) thread) (fun _ _ => Iff.rfl) (fun _ _ => id)
    rw [hcall]
    rfl
  | waitRefused => exact hframe ⟨rfl, rfl⟩ (fun _ _ => id) fun _ _ => id
  | @waitEnter thread cond mutex timeout hcall howner hlock =>
    have hcalls := fun other (hother : other ≠ thread) =>
      Function.update_of_ne hother (Call.entered ⟨cond, mutex, timeout, (s.conds cond).sequence,
        (s.threads thread).condSequence⟩) s.calls
    have hcall' := Function.update_self thread (Call.entered ⟨cond, mutex, timeout,
      (s.conds cond).sequence, (s.threads thread).condSequence⟩) s.calls
    refine h.away rfl hcalls ?_ ?_ (fun _ _ => id) fun _ _ => id
    · show Hold.Fits _ _ (Call.hold (Function.update s.calls thread _ thread))
      rw [hcall']
      exact howner
    · intro any
      show Hold.depth _ _ _ (Call.hold (Function.update s.calls thread _ thread)) = _
      rw [hcall', hcall]
      rfl
  | @waitRelease thread wait hcall hresult =>
    have howner : (s.mutexes wait.mutex).owner = some thread := by
      have hfits := h.fits thread
      rw [hcall] at hfits
      exact hfits
    have hfine := h.fine wait.mutex
    have hpos := hfine.held_pos howner
    rw [Mutex.held_of_owner howner] at hpos
    rw [Mutex.unlock_full howner]
    refine h.keep (Mutex.move_of_owner (Mutex.fine_free _) rfl (.inl howner) (.inr rfl)) ?_ ?_
      (fun _ _ => id) fun _ _ => id
    · -- the mutex is free, its count is put aside
      show _ ≠ _ ∧ 1 ≤ _ ∧ (_ → _)
      rw [act_mutex_self]
      exact ⟨nofun, hpos, hfine.single⟩
    · intro any
      rw [hcall]
      show (if wait.mutex = any then _ else _) = Mutex.held _ thread
      split
      · next heq =>
        subst heq
        exact (Mutex.held_of_owner howner).symm
      · next hne => rw [act_mutex_of_ne (Ne.symm hne)]
  | @waitFailed thread wait hcall hresult =>
    -- the thread owns the mutex, so it can release it
    have hfits := h.fits thread
    rw [hcall] at hfits
    rw [Mutex.unlock_full hfits] at hresult
    exact absurd rfl hresult
  | @waitCheck thread wait recurse expired hcall =>
    obtain ⟨hmutexes, hcalls, hhold⟩ := checked_frame s thread wait recurse expired
    exact h.recheck (by rw [hcall]; rfl) hmutexes hcalls hhold (fun _ _ => id) fun _ _ => id
  | @waitPoll thread wait recurse expired hcall hlock =>
    obtain ⟨hmutexes, hcalls, hhold⟩ := checked_frame s thread wait recurse expired
    exact h.recheck (by rw [hcall]; rfl) hmutexes hcalls hhold (fun _ _ => id) fun _ _ => id
  | @relock thread mutex recurse result polling x lockResult hcall hlock hresult =>
    obtain ⟨howner, hpos, hsingle⟩ : Hold.Fits s.mutexes thread (.away mutex recurse) := by
      have hfits := h.fits thread
      rw [hcall] at hfits
      exact hfits
    rcases relock_spec howner hlock with ⟨rfl, htakes⟩ | ⟨rfl, rfl⟩
    · rw [if_neg nofun]
      refine h.keep htakes.toMove ?_ ?_ (fun _ _ => id) fun _ _ => id
      · show _ = _ ∧ _ = _ ∧ _ ∧ (_ → _)
        rw [act_mutex_self, htakes.type]
        refine ⟨htakes.owned, ?_, hpos, hsingle⟩
        -- nobody has held the mutex, or the thread could not have taken it
        rw [← Mutex.held_of_owner htakes.owned, htakes.once_more, Mutex.held_of_not_owner howner]
      · intro any
        rw [hcall]
        show (if mutex = any then _ else _) = if mutex = any then _ else _
        split
        · rfl
        · next hne => rw [act_mutex_of_ne (Ne.symm hne)]
    · rw [if_pos rfl]
      refine h.keep (.refl (h.fine mutex) thread) ?_ ?_ (fun _ _ => id) fun _ _ => id
      · show _ ≠ _ ∧ _ ∧ (_ → _)
        rw [act_mutex_self]
        exact ⟨howner, hpos, hsingle⟩
      · intro any
        rw [hcall]
        show (if mutex = any then _ else _) = if mutex = any then _ else _
        split
        · rfl
        · next hne => rw [act_mutex_of_ne (Ne.symm hne)]
  | @relockFailed thread mutex recurse result polling x error hcall hlock herror =>
    -- the thread does not own the mutex, so it gets no error
    have hfits := h.fits thread
    rw [hcall] at hfits
    rcases relock_spec hfits.1 hlock with ⟨hok, -⟩ | ⟨hnone, -⟩
    · exact absurd (Option.some.inj hok) herror
    · cases hnone
  | @waitReturn thread mutex recurse result hcall =>
    obtain ⟨howner, hcount, hpos, hsingle⟩ :
        Hold.Fits s.mutexes thread (.restoring mutex recurse) := by
      have hfits := h.fits thread
      rw [hcall] at hfits
      exact hfits
    have hmax : max recurse 1 = recurse := max_eq_left hpos
    have hfine : ((s.mutexes mutex).restore recurse).Fine := by
      unfold Mutex.restore
      rw [hmax]
      exact ⟨iff_of_false (Nat.ne_of_gt hpos) (fun hnone => nomatch howner.symm.trans hnone),
        hsingle⟩
    refine h.keep (Mutex.move_of_owner hfine rfl (.inl howner) (.inl howner)) trivial ?_
      (fun _ _ => id) fun _ _ => id
    intro any
    rw [hcall]
    show Mutex.held _ thread = if mutex = any then _ else _
    split
    · next heq =>
      subst heq
      rw [act_mutex_self]
      exact (Mutex.held_of_owner (x := (s.mutexes mutex).restore recurse) howner).trans hmax
    · next hne => rw [act_mutex_of_ne (Ne.symm hne)]
  | @signal cond => exact hframe (signal_frame s cond) (fun _ _ => id) fun _ _ => id
  | @signalTo cond thread =>
    exact hframe (condWakeWaiter_frame s cond thread) (fun _ _ => id) fun _ _ => id
  | @broadcast cond => exact hframe (broadcast_frame s cond) (fun _ _ => id) fun _ _ => id

end Prosperismo.Pthread
