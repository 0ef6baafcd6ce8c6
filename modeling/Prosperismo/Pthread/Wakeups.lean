import Prosperismo.Pthread.Waits

/-!
# Mutexes and condition variables keep their promise

The main result, `waits_return`, puts the invariants of the mutexes and of the conditions together
with the history of a run. A thread owns a mutex as often as it has locked it more than unlocked
it, a wait included; a waiter of a condition is a thread that has entered a wait and has neither
been woken up nor given up since; and what a wait returns is decided by the wake-ups between its
entry and its return.

Two things are different inside of a wait (`timed_out_is_no_waiter`). A thread whose time is over is
no waiter any more, while it still has its mutex to take; and a thread that has taken it has the
count of one, until the old count is written back.
-/

namespace Prosperismo.Pthread

variable {θ μ κ : Type} [DecidableEq θ] [DecidableEq μ] [DecidableEq κ]
variable {s s' : State θ μ κ} {a : Action θ μ κ} {thread : θ}

/-! ### Who waits, by the history -/

/-- The thread is woken up, or gives up. -/
def Action.Leaves (thread : θ) (a : Action θ μ κ) : Prop :=
  thread ∈ a.woken ∨ (∃ result, a = .waitPoll thread (some result)) ∨
    ∃ result, a = .waitReturn thread result

/-- The thread has entered a wait, and has neither been woken up nor given up since. -/
def WaitsSince (thread : θ) (cond : κ) (as : List (Action θ μ κ)) : Prop :=
  ∃ before mutex timeout mid, as = before ++ .waitEnter thread cond mutex timeout :: mid ∧
    ∀ a ∈ mid, ¬a.Leaves thread

omit [DecidableEq θ] [DecidableEq μ] [DecidableEq κ] in
theorem waitsSince_append {cond : κ} {as : List (Action θ μ κ)} :
    WaitsSince thread cond (as ++ [a]) ↔
      (∃ mutex timeout, a = .waitEnter thread cond mutex timeout) ∨
        WaitsSince thread cond as ∧ ¬a.Leaves thread := by
  constructor
  · rintro ⟨before, mutex, timeout, mid, heq, hmid⟩
    rcases List.eq_nil_or_concat mid with rfl | ⟨mid, b, rfl⟩
    · exact .inl ⟨mutex, timeout, (List.append_inj' heq rfl).2 |> List.singleton_inj.1⟩
    · rw [List.concat_eq_append, ← List.cons_append, ← List.append_assoc] at heq
      obtain ⟨rfl, hb⟩ := List.append_inj' heq rfl
      obtain rfl := List.singleton_inj.1 hb
      rw [List.concat_eq_append] at hmid
      exact .inr ⟨⟨before, mutex, timeout, mid, rfl,
        fun b hb => hmid b (List.mem_append_left _ hb)⟩,
        hmid a (List.mem_append_right _ (List.mem_singleton_self a))⟩
  · rintro (⟨mutex, timeout, rfl⟩ | ⟨⟨before, mutex, timeout, mid, rfl, hmid⟩, hleaves⟩)
    · exact ⟨as, mutex, timeout, [], rfl, fun _ hb => absurd hb List.not_mem_nil⟩
    · refine ⟨before, mutex, timeout, mid ++ [a], by simp, fun b hb => ?_⟩
      rcases List.mem_append.1 hb with hb | hb
      · exact hmid b hb
      · rw [List.mem_singleton.1 hb]
        exact hleaves

/-- What a thread that acts does to its own wait. -/
inductive Turn (s s' : State θ μ κ) (a : Action θ μ κ) (thread : θ) : Prop
  | enters (cond : κ) (mutex : μ) (timeout : Timeout)
      (hact : a = .waitEnter thread cond mutex timeout) (hbefore : (s.calls thread).wait? = none)
      (hmem : thread ∈ (s'.conds cond).waiters)
  | stays (hact : ∀ cond mutex timeout, a ≠ .waitEnter thread cond mutex timeout)
      (hleaves : ¬a.Leaves thread) (hwait : (s'.calls thread).wait? = (s.calls thread).wait?)
  | leaves (hact : ∀ cond mutex timeout, a ≠ .waitEnter thread cond mutex timeout)
      (hleaves : a.Leaves thread) (hnone : (s'.calls thread).wait? = none)

omit [DecidableEq μ] in
/-- A wait that looks at its numbers ends, or goes on as it is. -/
theorem turn_checked {wait : Wait μ κ} {recurse : ℕ} {expired : Bool}
    (hwait : (s.calls thread).wait? = some wait)
    (hcall : s'.calls thread = (s.checked thread wait recurse expired).calls thread) :
    Turn s s' (.waitPoll thread (s.check thread wait expired)) thread := by
  unfold State.checked at hcall
  rcases hcheck : s.check thread wait expired with _ | result
  · rw [hcheck] at hcall
    refine .stays (fun _ _ _ => nofun) ?_ ?_
    · rintro (hmem | ⟨_, hpoll⟩ | ⟨_, hreturn⟩)
      · exact absurd hmem List.not_mem_nil
      · cases hpoll
      · cases hreturn
    · rw [hcall, hwait]
      dsimp only [State.setCall]
      rw [Function.update_self]
      rfl
  · rw [hcheck] at hcall
    refine .leaves (fun _ _ _ => nofun) (.inr (.inl ⟨result, rfl⟩)) ?_
    rw [hcall]
    dsimp only [State.setCall]
    rw [Function.update_self]
    rfl

omit [DecidableEq θ] [DecidableEq μ] [DecidableEq κ] in
theorem not_leaves (hwoken : a.woken = [])
    (hpoll : ∀ result, a ≠ .waitPoll thread (some result))
    (hreturn : ∀ result, a ≠ .waitReturn thread result) : ¬a.Leaves thread := by
  rintro (hmem | ⟨result, heq⟩ | ⟨result, heq⟩)
  · rw [hwoken] at hmem
    exact absurd hmem List.not_mem_nil
  · exact hpoll result heq
  · exact hreturn result heq

/-- A thread that acts enters a wait, goes on as before, or leaves its wait. -/
theorem turn_of_step (hstep : Step s a s') (hactor : a.thread? = some thread) :
    Turn s s' a thread := by
  cases hstep with
  | @lock thread' mutex timeoutUs hcall =>
    obtain rfl := Option.some.inj hactor
    refine .stays (by rintro _ _ _ ⟨⟩) (not_leaves rfl (by rintro _ ⟨⟩) (by rintro _ ⟨⟩)) ?_
    rw [hcall]
    refine (congrArg Call.wait? act_call_self).trans ?_
    split
    · rfl
    · rfl
  | @lockPoll thread' mutex timed expired hcall =>
    obtain rfl := Option.some.inj hactor
    refine .stays (by rintro _ _ _ ⟨⟩) (not_leaves rfl (by rintro _ ⟨⟩) (by rintro _ ⟨⟩)) ?_
    rw [hcall]
    refine (congrArg Call.wait? act_call_self).trans ?_
    split
    · rfl
    · rfl
  | @trylock thread' mutex hcall =>
    obtain rfl := Option.some.inj hactor
    refine .stays (by rintro _ _ _ ⟨⟩) (not_leaves rfl (by rintro _ ⟨⟩) (by rintro _ ⟨⟩)) ?_
    rw [hcall]
    exact congrArg Call.wait? act_call_self
  | @unlock thread' mutex hcall =>
    obtain rfl := Option.some.inj hactor
    refine .stays (by rintro _ _ _ ⟨⟩) (not_leaves rfl (by rintro _ ⟨⟩) (by rintro _ ⟨⟩)) ?_
    rw [hcall]
    exact congrArg Call.wait? act_call_self
  | @waitRefused thread' mutex result hcall =>
    exact .stays (by rintro _ _ _ ⟨⟩) (not_leaves rfl (by rintro _ ⟨⟩) (by rintro _ ⟨⟩)) rfl
  | @waitEnter thread' cond mutex timeout hcall howner hlock =>
    obtain rfl := Option.some.inj hactor
    refine .enters cond mutex timeout rfl (by rw [hcall]; rfl) ?_
    simp [State.lockCond, State.condAddWaiter, State.setCond, State.setCall]
  | @waitRelease thread' wait hcall hresult =>
    obtain rfl := Option.some.inj hactor
    refine .stays (by rintro _ _ _ ⟨⟩) (not_leaves rfl (by rintro _ ⟨⟩) (by rintro _ ⟨⟩)) ?_
    rw [hcall]
    exact (congrArg Call.wait? act_call_self).trans rfl
  | @waitFailed thread' wait hcall hresult =>
    obtain rfl := Option.some.inj hactor
    refine .leaves (by rintro _ _ _ ⟨⟩) (.inr (.inr ⟨_, rfl⟩)) ?_
    dsimp only [State.setCall]
    rw [Function.update_self]
    rfl
  | @waitCheck thread' wait recurse expired hcall =>
    obtain rfl := Option.some.inj hactor
    exact turn_checked (by rw [hcall]; rfl) rfl
  | @waitPoll thread' wait recurse expired hcall hlock =>
    obtain rfl := Option.some.inj hactor
    exact turn_checked (by rw [hcall]; rfl) rfl
  | @relock thread' mutex recurse result polling x lockResult hcall hlock hresult =>
    obtain rfl := Option.some.inj hactor
    refine .stays (by rintro _ _ _ ⟨⟩) (not_leaves rfl (by rintro _ ⟨⟩) (by rintro _ ⟨⟩)) ?_
    rw [hcall]
    refine (congrArg Call.wait? act_call_self).trans ?_
    split
    · rfl
    · rfl
  | @relockFailed thread' mutex recurse result polling x error hcall hlock herror =>
    obtain rfl := Option.some.inj hactor
    refine .leaves (by rintro _ _ _ ⟨⟩) (.inr (.inr ⟨_, rfl⟩)) ?_
    exact congrArg Call.wait? act_call_self
  | @waitReturn thread' mutex recurse result hcall =>
    obtain rfl := Option.some.inj hactor
    refine .leaves (by rintro _ _ _ ⟨⟩) (.inr (.inr ⟨_, rfl⟩)) ?_
    exact congrArg Call.wait? act_call_self
  | signal => cases hactor
  | signalTo => cases hactor
  | broadcast => cases hactor

/-- **Step lemma** for the waiters: threads come in by entering a wait, and go out when they are
woken up or give up. -/
theorem CondSound.waiter_step (h : CondSound s) (hstep : Step s a s') (cond : κ) :
    thread ∈ (s'.conds cond).waiters ↔
      (∃ mutex timeout, a = .waitEnter thread cond mutex timeout) ∨
        thread ∈ (s.conds cond).waiters ∧ ¬a.Leaves thread := by
  have hsound := h.step hstep
  rcases h.step_cases hstep with ⟨actor, hactor, hwoken, hacts⟩ | ⟨hactor, hwakes⟩
  · by_cases hother : actor = thread
    · subst hother
      rcases turn_of_step hstep hactor with ⟨cond', mutex, timeout, rfl, hbefore, hmem⟩ |
        ⟨hact, hleaves, hwait⟩ | ⟨hact, hleaves, hnone⟩
      · have hnot : actor ∉ (s.conds cond).waiters := fun hmem => by
          obtain ⟨w, hw, -⟩ := (h.waiter cond actor).1 hmem
          cases hbefore.symm.trans hw
        constructor
        · intro hmem'
          obtain rfl := hsound.cond_unique hmem hmem'
          exact .inl ⟨mutex, timeout, rfl⟩
        · rintro (⟨_, _, ⟨⟩⟩ | ⟨hmem', -⟩)
          · exact hmem
          · exact absurd hmem' hnot
      · rw [hsound.waiter, h.waiter, hwait]
        simp only [hacts.ready]
        constructor
        · exact fun hmem => .inr ⟨hmem, hleaves⟩
        · rintro (⟨mutex, timeout, heq⟩ | ⟨hmem, -⟩)
          · exact absurd heq (hact cond mutex timeout)
          · exact hmem
      · rw [hsound.waiter, hnone]
        refine iff_of_false (fun ⟨_, hw, _⟩ => nomatch hw) ?_
        rintro (⟨mutex, timeout, heq⟩ | ⟨-, hnot⟩)
        · exact hact cond mutex timeout heq
        · exact hnot hleaves
    · -- another thread acts
      rw [hsound.waiter, h.waiter, hacts.calls thread (Ne.symm hother)]
      simp only [hacts.ready]
      have hthread : ∀ b : Action θ μ κ, b.thread? = some thread → a ≠ b := fun b hb heq =>
        hother (Option.some.inj (hactor.symm.trans (heq ▸ hb)))
      constructor
      · exact fun hmem => .inr ⟨hmem, not_leaves hwoken (fun _ => hthread _ rfl)
          fun _ => hthread _ rfl⟩
      · rintro (⟨mutex, timeout, heq⟩ | ⟨hmem, -⟩)
        · exact absurd heq (hthread _ rfl)
        · exact hmem
  · have hthread : ∀ b : Action θ μ κ, b.thread? = some thread → a ≠ b := fun b hb heq => by
      rw [heq, hb] at hactor
      cases hactor
    rw [hwakes.waiters, List.mem_filter]
    constructor
    · rintro ⟨hmem, hnot⟩
      refine .inr ⟨hmem, ?_⟩
      rintro (hwoken | ⟨result, heq⟩ | ⟨result, heq⟩)
      · exact absurd hwoken (by simpa using hnot)
      · exact hthread _ rfl heq
      · exact hthread _ rfl heq
    · rintro (⟨mutex, timeout, heq⟩ | ⟨hmem, hleaves⟩)
      · exact absurd heq (hthread _ rfl)
      · exact ⟨hmem, by simpa using fun hwoken => hleaves (.inl hwoken)⟩

/-- A thread locks and unlocks outside of its waits. -/
theorem call_of_locks (hstep : Step s a s') {mutex : μ}
    (hlocks : a.Acquires thread mutex ∨ a.Releases thread mutex) :
    (s.calls thread).wait? = none ∧ (s.calls thread).result? = none := by
  cases hstep with
  | @lock thread' mutex' timeoutUs hcall =>
    obtain ⟨rfl, -⟩ | hfalse := hlocks
    · rw [hcall]
      exact ⟨rfl, rfl⟩
    · exact hfalse.elim
  | @lockPoll thread' mutex' timed expired hcall =>
    obtain ⟨rfl, -⟩ | hfalse := hlocks
    · rw [hcall]
      exact ⟨rfl, rfl⟩
    · exact hfalse.elim
  | @trylock thread' mutex' hcall =>
    obtain ⟨rfl, -⟩ | hfalse := hlocks
    · rw [hcall]
      exact ⟨rfl, rfl⟩
    · exact hfalse.elim
  | @unlock thread' mutex' hcall =>
    obtain hfalse | ⟨rfl, -⟩ := hlocks
    · exact hfalse.elim
    · rw [hcall]
      exact ⟨rfl, rfl⟩
  | _ => exact (hlocks.elim id id).elim

/-! ### Runs -/

/-- Everything that holds between two steps. -/
structure Sound (as : List (Action θ μ κ)) (s : State θ μ κ) : Prop where
  mutexes : MutexSound s
  conds : CondSound s
  /-- The depth of a thread is the number of its locks less the number of its unlocks. -/
  balance : ∀ thread mutex, as.countP (·.Acquires thread mutex) =
    as.countP (·.Releases thread mutex) + s.depth thread mutex
  waits : ∀ cond thread, thread ∈ (s.conds cond).waiters ↔ WaitsSince thread cond as

theorem Sound.new (types : μ → ℤ) : Sound [] (State.new types : State θ μ κ) where
  mutexes := ⟨fun _ => ⟨⟨fun _ => rfl, fun _ => rfl⟩, fun _ => Nat.zero_le 1⟩, fun _ => trivial⟩
  conds := .new types
  balance _ _ := rfl
  waits _ _ := iff_of_false List.not_mem_nil fun ⟨_, _, _, _, heq, _⟩ => by simp at heq

theorem Sound.step {as : List (Action θ μ κ)} (h : Sound as s) (hstep : Step s a s') :
    Sound (as ++ [a]) s' where
  mutexes := (h.mutexes.step hstep).1
  conds := h.conds.step hstep
  balance thread mutex := by
    have hbalance := (h.mutexes.step hstep).2 thread mutex
    have hbefore := h.balance thread mutex
    simp only [List.countP_append, List.countP_singleton, decide_eq_true_eq]
    omega
  waits cond thread := by
    rw [h.conds.waiter_step hstep, h.waits, waitsSince_append]

theorem Sound.run {as bs : List (Action θ μ κ)} (h : Sound as s) (hrun : Run Step s bs s') :
    Sound (as ++ bs) s' := by
  refine hrun.history (I := fun bs s => Sound (as ++ bs) s) (by rwa [List.append_nil]) ?_
  intro bs s a s' hsound hstep
  rw [← List.append_assoc]
  exact hsound.step hstep

/-- A wait that has been going on for the actions of `mid`. -/
structure InWait (thread : θ) (cond : κ) (mutex : μ) (timeout : Timeout) (woken depth : ℕ)
    (mid : List (Action θ μ κ)) (s : State θ μ κ) : Prop where
  waits : s.Waits thread cond mutex timeout (woken + mid.countP (thread ∈ ·.woken))
  depth : s.depth thread mutex = depth

/-- **Run lemma** for a wait. -/
theorem InWait.run {as mid : List (Action θ μ κ)} {cond : κ} {mutex : μ} {timeout : Timeout}
    {woken : ℕ} (hsound : Sound as s) (h : s.Waits thread cond mutex timeout woken)
    (hrun : Run Step s mid s') (hmid : ∀ a ∈ mid, ∀ result, a ≠ .waitReturn thread result) :
    InWait thread cond mutex timeout woken (s.depth thread mutex) mid s' := by
  induction hrun with
  | nil => exact ⟨h, rfl⟩
  | @snoc s₁ s₂ mid a hfirst hlast ih =>
    obtain ⟨hwaits, hdepth⟩ := ih fun b hb => hmid b (List.mem_append_left _ hb)
    have hsound₁ := hsound.run hfirst
    rcases hwaits.step hsound₁.conds hsound₁.mutexes hlast with ⟨-, hon⟩ | ⟨result, hact, -⟩
    · refine ⟨?_, ?_⟩
      · rw [List.countP_append, List.countP_singleton, ← Nat.add_assoc]
        simpa only [decide_eq_true_eq] using hon
      · have hnot : ¬(a.Acquires thread mutex ∨ a.Releases thread mutex) := fun hlocks => by
          obtain ⟨hwait, hresult⟩ := call_of_locks hlast hlocks
          rcases hwaits with ⟨_, hw, -⟩ | ⟨_, hw, -⟩
          · cases hwait.symm.trans hw
          · cases hresult.symm.trans hw
        rw [not_or] at hnot
        exact ((hsound₁.mutexes.step hlast).2.same hnot.1 hnot.2).trans hdepth
    · exact absurd hact (hmid a (List.mem_append_right _ (List.mem_singleton_self a)) result)

/-- The first step of a wait releases the mutex. -/
theorem release_of_entered {wait : Wait μ κ} (hstep : Step s a s')
    (hactor : a.thread? = some thread) (hentered : s.calls thread = .entered wait) :
    a = .waitRelease thread ∨ ∃ result, a = .waitReturn thread result := by
  cases hstep with
  | @waitRelease thread' wait' hcall hresult =>
    obtain rfl := Option.some.inj hactor
    exact .inl rfl
  | @waitFailed thread' wait' hcall hresult =>
    obtain rfl := Option.some.inj hactor
    exact .inr ⟨_, rfl⟩
  | _ =>
    -- the thread would be in another call
    simp_all [Action.thread?]

/-- It succeeds, since the thread owns the mutex. -/
theorem not_return_of_entered {wait : Wait μ κ} {result : Result} (hmutexes : MutexSound s)
    (hstep : Step s (.waitReturn thread result) s') (hentered : s.calls thread = .entered wait) :
    False := by
  cases hstep with
  | @waitFailed _ wait' hcall hresult =>
    have hfits := hmutexes.fits thread
    rw [hcall] at hfits
    rw [Mutex.unlock_full hfits] at hresult
    exact hresult rfl
  | relockFailed hcall => cases hcall.symm.trans hentered
  | waitReturn hcall => cases hcall.symm.trans hentered

/-- A wait releases the mutex before it does anything else. -/
theorem released_of_run {as mid : List (Action θ μ κ)} {wait : Wait μ κ} (hsound : Sound as s)
    (hcall : s.calls thread = .entered wait) (hrun : Run Step s mid s')
    (hmid : ∀ a ∈ mid, ∀ result, a ≠ .waitReturn thread result) :
    .waitRelease thread ∈ mid ∨ s'.calls thread = .entered wait := by
  induction hrun with
  | nil => exact .inr hcall
  | @snoc s₁ s₂ mid a hfirst hlast ih =>
    rcases ih fun b hb => hmid b (List.mem_append_left _ hb) with hmem | hcall₁
    · exact .inl (List.mem_append_left _ hmem)
    have hlast' := hmid a (List.mem_append_right _ (List.mem_singleton_self a))
    rcases (hsound.run hfirst).conds.step_cases hlast with ⟨actor, hactor, -, hacts⟩ | ⟨-, hwakes⟩
    · by_cases hother : actor = thread
      · subst hother
        rcases release_of_entered hlast hactor hcall₁ with rfl | ⟨result, heq⟩
        · exact .inl (List.mem_append_right _ (List.mem_singleton_self _))
        · exact absurd heq (hlast' result)
      · exact .inr ((hacts.calls thread (Ne.symm hother)).trans hcall₁)
    · exact .inr ((congrFun hwakes.calls thread).trans hcall₁)

/-! ### What a wait returns -/

/-- The actions from the entry of a wait to its return. -/
structure WaitReturns (s : State θ μ κ) (thread : θ) (mutex : μ) (timeout : Timeout)
    (mid : List (Action θ μ κ)) (result : Result) (s' : State θ μ κ) : Prop where
  /-- The mutex has been released. -/
  released : .waitRelease thread ∈ mid
  owner : (s'.mutexes mutex).owner = some thread
  /-- The count is what it was. -/
  count : (s'.mutexes mutex).count = (s.mutexes mutex).count
  /-- The wait has been woken up once and succeeds, or it has not and its time is over. -/
  decided : Decided timeout (mid.countP (thread ∈ ·.woken)) result

theorem Sound.waitReturns {as mid : List (Action θ μ κ)} {s s₁ s₂ s' : State θ μ κ} {cond : κ}
    {mutex : μ} {timeout : Timeout} {result : Result} (h : Sound as s)
    (henter : Step s (.waitEnter thread cond mutex timeout) s₁) (hrun : Run Step s₁ mid s₂)
    (hreturn : Step s₂ (.waitReturn thread result) s')
    (hmid : ∀ a ∈ mid, ∀ result, a ≠ .waitReturn thread result) :
    WaitReturns s thread mutex timeout mid result s' := by
  have h₁ := h.step henter
  have h₂ := h₁.run hrun
  have hbefore : s.calls thread = .idle ∧ (s.mutexes mutex).owner = some thread ∧
      ∃ wait, s₁.calls thread = .entered wait ∧ wait.cond = cond ∧ wait.mutex = mutex ∧
        wait.timeout = timeout := by
    cases henter with
    | waitEnter _ hcall howner hlock =>
      exact ⟨hcall, howner, _, Function.update_self .., rfl, rfl, rfl⟩
  obtain ⟨hidle, howner, wait, hentered, hcond, hmutex, htimeout⟩ := hbefore
  have hstill : ¬s₁.Ready thread wait := h₁.conds.still thread wait (by rw [hentered]; rfl)
  have hwaits : s₁.Waits thread cond mutex timeout 0 :=
    .inl ⟨wait, by rw [hentered]; rfl, hcond, hmutex, htimeout, (if_neg hstill).symm⟩
  obtain ⟨hwaits₂, hdepth₂⟩ := InWait.run h₁ hwaits hrun hmid
  rw [Nat.zero_add] at hwaits₂
  rcases hwaits₂.step h₂.conds h₂.mutexes hreturn with ⟨hnot, -⟩ | ⟨_, ⟨⟩, hdecided, hcall'⟩
  · exact absurd rfl (hnot result)
  -- the depth is the same before the wait and afterwards
  have hheld : (s'.mutexes mutex).held thread = (s.mutexes mutex).count := by
    calc (s'.mutexes mutex).held thread
        = s'.depth thread mutex := (depth_of_hold_none (by rw [hcall']; rfl) mutex).symm
      _ = s₂.depth thread mutex := (h₂.mutexes.step hreturn).2.same id id
      _ = s₁.depth thread mutex := hdepth₂
      _ = s.depth thread mutex := (h.mutexes.step henter).2.same id id
      _ = (s.mutexes mutex).held thread := depth_of_hold_none (by rw [hidle]; rfl) mutex
      _ = (s.mutexes mutex).count := Mutex.held_of_owner howner
  have hpos : 0 < (s.mutexes mutex).count := by
    rw [← Mutex.held_of_owner howner]
    exact (h.mutexes.fine mutex).held_pos howner
  have howner' : (s'.mutexes mutex).owner = some thread := by
    by_contra hnot
    rw [Mutex.held_of_not_owner hnot] at hheld
    exact Nat.ne_of_gt hpos hheld.symm
  refine ⟨?_, howner', ?_, hdecided⟩
  · rcases released_of_run h₁ hentered hrun hmid with hmem | hentered₂
    · exact hmem
    · exact (not_return_of_entered h₂.mutexes hreturn hentered₂).elim
  · rw [← hheld, Mutex.held_of_owner howner']

/-- A thread that has been woken up is in a wait that counts it, until it returns. -/
theorem Sound.woken {as later : List (Action θ μ κ)} {s₁ s₂ : State θ μ κ} (h : Sound as s)
    (hwake : Step s a s₁) (hmem : thread ∈ a.woken) (hrun : Run Step s₁ later s₂)
    (hlater : ∀ a ∈ later, ∀ result, a ≠ .waitReturn thread result) :
    ∃ cond mutex timeout woken, s₂.Waits thread cond mutex timeout woken ∧ 0 < woken := by
  rcases h.conds.step_cases hwake with ⟨_, -, hnone, -⟩ | ⟨-, hwakes⟩
  · rw [hnone] at hmem
    exact absurd hmem List.not_mem_nil
  obtain ⟨cond, hwaiter⟩ := hwakes.waiting thread hmem
  obtain ⟨wait, hwait, rfl, hready⟩ := (h.conds.waiter cond thread).1 hwaiter
  have hwaits : s.Waits thread wait.cond wait.mutex wait.timeout 0 :=
    .inl ⟨wait, hwait, rfl, rfl, rfl, (if_neg hready).symm⟩
  have hwaits₁ := hwaits.wakesUp h.conds hwakes
  rw [if_pos hmem] at hwaits₁
  have hwaits₂ := (InWait.run (h.step hwake) hwaits₁ hrun hlater).waits
  exact ⟨_, _, _, _, hwaits₂, Nat.lt_of_lt_of_le Nat.zero_lt_one (Nat.le_add_right 1 _)⟩

/-- A thread that has been woken up finds it out when it looks. -/
theorem State.Waits.poll {cond : κ} {mutex : μ} {timeout : Timeout} {woken : ℕ}
    (h : s.Waits thread cond mutex timeout woken) (hpos : 0 < woken) (hsound : CondSound s)
    {result : Option Result} (hstep : Step s (.waitPoll thread result) s') :
    result = some .ok := by
  have hcheck : ∃ wait expired, (s.calls thread).wait? = some wait ∧
      (s.calls thread).result? = none ∧ result = s.check thread wait expired := by
    cases hstep with
    | waitCheck expired hcall => exact ⟨_, expired, by rw [hcall]; rfl, by rw [hcall]; rfl, rfl⟩
    | waitPoll expired hcall => exact ⟨_, expired, by rw [hcall]; rfl, by rw [hcall]; rfl, rfl⟩
  obtain ⟨wait, expired, hwait, hresult, rfl⟩ := hcheck
  rcases h with ⟨w, hw, -, -, -, rfl⟩ | ⟨_, hw, -⟩
  · obtain rfl := Option.some.inj (hwait.symm.trans hw)
    have hready : s.Ready thread wait := by
      by_contra hnot
      rw [if_neg hnot] at hpos
      exact Nat.lt_irrefl 0 hpos
    rcases hlook : s.check thread wait expired with _ | result
    · -- a wait that is ready does not sleep on
      unfold State.check at hlook
      by_cases htimeout : wait.timeout = .usec 0
      · rw [if_pos htimeout] at hlook
        cases hlook
      · rw [if_neg htimeout, if_pos hready] at hlook
        cases hlook
    · rcases hsound.check hwait hlook with ⟨rfl, -⟩ | ⟨-, hzero, -⟩
      · rfl
      · rw [if_pos hready] at hzero
        cases hzero
  · cases hresult.symm.trans hw

/-- A thread that has been woken up returns as soon as the locks are free. -/
theorem Sound.returns {as : List (Action θ μ κ)} (h : Sound as s) {wait : Wait μ κ} {recurse : ℕ}
    (hcall : s.calls thread = .sleeping wait recurse)
    (hwoken : thread ∉ (s.conds wait.cond).waiters) (hlock : (s.conds wait.cond).lock = none)
    (howner : (s.mutexes wait.mutex).owner = none) :
    ∃ s', Run Step s [.waitPoll thread (some .ok), .relock thread, .waitReturn thread .ok] s' := by
  have hready : s.Ready thread wait := by
    by_contra hnot
    exact hwoken ((h.conds.waiter _ thread).2 ⟨wait, by rw [hcall]; rfl, rfl, hnot⟩)
  have htimeout := h.conds.asleep thread wait (by rw [hcall]; rfl) (by rw [hcall]; rfl)
  have hcheck : s.check thread wait false = some .ok := by
    unfold State.check
    rw [if_neg htimeout, if_pos hready]
  have hpoll := Step.waitPoll false hcall hlock
  rw [hcheck] at hpoll
  have hchecked : s.checked thread wait recurse false =
      (s.condRemoveWaiter wait.cond thread).setCall thread
        (.relocking wait.mutex recurse .ok false) := by
    unfold State.checked
    rw [hcheck]
  rw [hchecked] at hpoll
  generalize hs₁ : (s.condRemoveWaiter wait.cond thread).setCall thread
    (.relocking wait.mutex recurse .ok false) = s₁ at hpoll
  have hcall₁ : s₁.calls thread = .relocking wait.mutex recurse .ok false := by
    rw [← hs₁]
    exact Function.update_self ..
  have howner₁ : (s₁.mutexes wait.mutex).owner = none := by
    rw [← hs₁]
    show ((s.condRemoveWaiter wait.cond thread).mutexes wait.mutex).owner = none
    rw [(condRemoveWaiter_frame s wait.cond thread).1]
    exact howner
  have hlocks : (s₁.mutexes wait.mutex).lock thread none =
      (some .ok, (s₁.mutexes wait.mutex).acquire thread) := by
    unfold Mutex.lock
    rw [if_neg (by rw [howner₁]; exact nofun), if_pos howner₁]
  have hrelock := Step.relock hcall₁ ((if_neg nofun).trans hlocks) (.inr rfl)
  rw [if_neg nofun] at hrelock
  have hcall₂ : (s₁.act thread wait.mutex ((s₁.mutexes wait.mutex).acquire thread)
      (.restoring wait.mutex recurse .ok)).calls thread = .restoring wait.mutex recurse .ok :=
    act_call_self
  exact ⟨_, .snoc (.snoc (.single hpoll) hrelock) (.waitReturn hcall₂)⟩

/-- A thread that has released its mutex in a wait gives the inner lock of the condition back. -/
theorem unlocks_of_released {wait : Wait μ κ} {recurse : ℕ}
    (hcall : s.calls thread = .released wait recurse) :
    ∃ result s', Step s (.waitPoll thread result) s' ∧ (s'.conds wait.cond).lock = none := by
  refine ⟨_, _, .waitCheck false hcall, ?_⟩
  rw [unlockCond_lock, if_pos rfl]

/-- A thread that holds the inner lock of a condition gives it back. -/
theorem Sound.unlocks {as : List (Action θ μ κ)} (h : Sound as s) {cond : κ}
    (hlock : (s.conds cond).lock = some thread) :
    ∃ path s', Run Step s path s' ∧ (∀ a ∈ path, a.thread? = some thread) ∧
      (s'.conds cond).lock = none := by
  obtain ⟨wait, hlocked, rfl⟩ := (h.conds.locked cond thread).1 hlock
  cases hcall : s.calls thread with
  | entered w =>
    rw [hcall] at hlocked
    obtain rfl : w = wait := Option.some.inj hlocked
    have hfits := h.mutexes.fits thread
    rw [hcall] at hfits
    have hrelease := Step.waitRelease hcall (by rw [Mutex.unlock_full hfits])
    have hcall' : (s.act thread w.mutex ((s.mutexes w.mutex).unlock thread true).2.2
        (.released w ((s.mutexes w.mutex).unlock thread true).2.1)).calls thread =
          .released w ((s.mutexes w.mutex).unlock thread true).2.1 := act_call_self
    obtain ⟨result, s', hstep, hfree⟩ := unlocks_of_released hcall'
    refine ⟨_, s', .snoc (.single hrelease) hstep, fun b hb => ?_, hfree⟩
    rcases List.mem_append.1 hb with hb | hb
    · rw [List.mem_singleton.1 hb]
      rfl
    · rw [List.mem_singleton.1 hb]
      rfl
  | released w recurse =>
    rw [hcall] at hlocked
    obtain rfl : w = wait := Option.some.inj hlocked
    obtain ⟨result, s', hstep, hfree⟩ := unlocks_of_released hcall
    refine ⟨_, s', .single hstep, fun b hb => ?_, hfree⟩
    rw [List.mem_singleton.1 hb]
    rfl
  | _ =>
    rw [hcall] at hlocked
    cases hlocked

/-! ### The promise -/

/-- The call is a wait that has put its share of the mutex aside. -/
def Call.Aside (mutex : μ) (recurse : ℕ) (call : Call μ κ) : Prop :=
  call.hold = .away mutex recurse ∨ call.hold = .restoring mutex recurse

omit [DecidableEq κ] in
theorem depth_of_aside {mutex : μ} {recurse : ℕ}
    (h : (s.calls thread).Aside mutex recurse) : s.depth thread mutex = recurse := by
  unfold State.depth
  rcases h with haway | hrestoring
  · rw [haway]
    exact if_pos rfl
  · rw [hrestoring]
    exact if_pos rfl

omit [DecidableEq κ] in
theorem depth_of_not_aside {mutex : μ} (h : ∀ recurse, ¬(s.calls thread).Aside mutex recurse) :
    s.depth thread mutex = (s.mutexes mutex).held thread := by
  unfold State.depth
  cases hhold : (s.calls thread).hold with
  | none => rfl
  | entered => rfl
  | away waited recurse =>
    refine if_neg fun heq => h recurse (.inl ?_)
    rw [hhold, heq]
  | restoring waited recurse =>
    refine if_neg fun heq => h recurse (.inr ?_)
    rw [hhold, heq]

/-- What mutexes and condition variables promise in a state, after the actions of `earlier`. -/
structure Promise (earlier : List (Action θ μ κ)) (s : State θ μ κ) : Prop where
  unowned : ∀ mutex, (s.mutexes mutex).count = 0 ↔ (s.mutexes mutex).owner = none
  /-- The count is the number of the owner's locks that have not been unlocked, and there are none
  of other threads. -/
  count : ∀ thread mutex, (∀ recurse, ¬(s.calls thread).Aside mutex recurse) →
    earlier.countP (·.Acquires thread mutex) = earlier.countP (·.Releases thread mutex) +
      if (s.mutexes mutex).owner = some thread then (s.mutexes mutex).count else 0
  /-- A wait keeps the same number aside. -/
  aside : ∀ thread mutex recurse, (s.calls thread).Aside mutex recurse →
    earlier.countP (·.Acquires thread mutex) = earlier.countP (·.Releases thread mutex) + recurse
  /-- Until its first slice, a wait holds the inner lock of the condition, and the thread is a
  waiter. -/
  atomic : ∀ thread wait, (s.calls thread).locked? = some wait →
    (s.conds wait.cond).lock = some thread ∧ thread ∈ (s.conds wait.cond).waiters
  /-- Nobody holds an inner lock for good. -/
  unlocks : ∀ cond thread, (s.conds cond).lock = some thread →
    ∃ path s', Run Step s path s' ∧ (∀ a ∈ path, a.thread? = some thread) ∧
      (s'.conds cond).lock = none
  /-- The release of a wait leaves the mutex to nobody. -/
  releases : ∀ thread wait s', s.calls thread = .entered wait → Step s (.waitRelease thread) s' →
    (s.mutexes wait.mutex).owner = some thread ∧ (s'.mutexes wait.mutex).owner = none ∧
      (s'.mutexes wait.mutex).count = 0
  /-- The waiters are the threads that have entered a wait, and have not been woken up since, nor
  given up. -/
  waiters : ∀ cond, (s.conds cond).waiters.Nodup ∧
    ∀ thread, thread ∈ (s.conds cond).waiters ↔ WaitsSince thread cond earlier
  /-- A signal is for the first waiter. -/
  signal : ∀ cond woken s', Step s (.signal cond woken) s' →
    woken = (s.conds cond).waiters.head?
  signalTo : ∀ cond thread woken s', Step s (.signalTo cond thread woken) s' →
    (woken = true ↔ thread ∈ (s.conds cond).waiters)
  broadcast : ∀ cond woken s', Step s (.broadcast cond woken) s' →
    woken = (s.conds cond).waiters
  /-- A thread that is woken up finds it out when it looks, and its wait returns success. -/
  woken : ∀ thread a s₁ later s₂ a' s', Step s a s₁ → thread ∈ a.woken → Run Step s₁ later s₂ →
    (∀ b ∈ later, ∀ result, b ≠ .waitReturn thread result) → Step s₂ a' s' →
      (∀ result, a' = .waitPoll thread result → result = some .ok) ∧
        ∀ result, a' = .waitReturn thread result → result = .ok
  /-- It does return, if it gets the locks. -/
  returns : ∀ thread wait recurse, s.calls thread = .sleeping wait recurse →
    thread ∉ (s.conds wait.cond).waiters → (s.conds wait.cond).lock = none →
      (s.mutexes wait.mutex).owner = none →
        ∃ s', Run Step s [.waitPoll thread (some .ok), .relock thread, .waitReturn thread .ok] s'
  /-- What a wait returns. -/
  wait : ∀ thread cond mutex timeout s₁ mid s₂ result s',
    Step s (.waitEnter thread cond mutex timeout) s₁ → Run Step s₁ mid s₂ →
      Step s₂ (.waitReturn thread result) s' →
        (∀ b ∈ mid, ∀ result, b ≠ .waitReturn thread result) →
          WaitReturns s thread mutex timeout mid result s'

/-- **Mutexes and condition variables keep their promise** in every state of every run. -/
theorem waits_return (types : μ → ℤ) {earlier : List (Action θ μ κ)}
    (hrun : Run Step (State.new types) earlier s) : Promise earlier s := by
  have h : Sound earlier s := (Sound.new types).run hrun
  refine
    { unowned := fun mutex => (h.mutexes.fine mutex).count
      count := fun thread mutex hnot => ?_
      aside := fun thread mutex recurse haside => ?_
      atomic := fun thread wait hlocked => ?_
      unlocks := fun cond thread hlock => h.unlocks hlock
      releases := fun thread wait s' hcall hstep => ?_
      waiters := fun cond => ⟨h.conds.nodup cond, h.waits cond⟩
      signal := fun cond woken s' hstep => ?_
      signalTo := fun cond thread woken s' hstep => ?_
      broadcast := fun cond woken s' hstep => ?_
      woken := fun thread a s₁ later s₂ a' s' hwake hmem hlater hnot hstep => ?_
      returns := fun thread wait recurse => h.returns
      wait := fun thread cond mutex timeout s₁ mid s₂ result s' => h.waitReturns }
  · rw [h.balance, depth_of_not_aside hnot]
    rfl
  · rw [h.balance, depth_of_aside haside]
  · have hready := h.conds.still thread wait hlocked
    exact ⟨(h.conds.locked _ thread).2 ⟨wait, hlocked, rfl⟩,
      (h.conds.waiter _ thread).2 ⟨wait, Call.wait?_of_locked? hlocked, rfl, hready⟩⟩
  · have hfits := h.mutexes.fits thread
    rw [hcall] at hfits
    cases hstep with
    | waitRelease hcall' hresult =>
      obtain ⟨rfl⟩ := hcall.symm.trans hcall'
      rw [Mutex.unlock_full hfits]
      refine ⟨hfits, ?_, ?_⟩
      · exact congrArg Mutex.owner act_mutex_self
      · exact congrArg Mutex.count act_mutex_self
  · cases hstep with
    | signal hlock => exact (h.conds.signal hlock).1
  · generalize ha : Action.signalTo cond thread woken = a at hstep
    cases hstep with
    | signalTo thread' hlock =>
      obtain ⟨rfl, rfl, rfl⟩ := Action.signalTo.inj ha
      exact (h.conds.signalTo hlock thread).1
    | _ => cases ha
  · generalize ha : Action.broadcast cond woken = a at hstep
    cases hstep with
    | broadcast hlock =>
      obtain ⟨rfl, rfl⟩ := Action.broadcast.inj ha
      exact (h.conds.broadcast hlock).1
    | _ => cases ha
  · obtain ⟨_, _, timeout, count, hwaits, hpos⟩ := h.woken hwake hmem hlater hnot
    have h₂ := (h.step hwake).run hlater
    refine ⟨fun result heq => ?_, fun result heq => ?_⟩
    · rw [heq] at hstep
      exact hwaits.poll hpos h₂.conds hstep
    · rcases hwaits.step h₂.conds h₂.mutexes hstep with ⟨hne, -⟩ | ⟨_, hact, hdecided, -⟩
      · exact absurd heq (hne result)
      · obtain ⟨-, rfl⟩ := Action.waitReturn.inj (heq.symm.trans hact)
        rcases hdecided with ⟨hok, -⟩ | ⟨-, hzero, -⟩
        · exact hok
        · exact absurd hzero (Nat.ne_of_gt hpos)

/-! ### One thread, one recursive mutex, one condition -/

/-- A state of one thread. -/
def alone (owner : Option Unit) (count : ℕ) (cond : Cond Unit) (thread : Thread Unit)
    (call : Call Unit Unit) : State Unit Unit Unit :=
  ⟨fun _ => ⟨owner, count, 2⟩, fun _ => cond, fun _ => thread, fun _ => call⟩

/-- The thread locks the mutex twice. -/
theorem alone_locks : Run Step (State.new fun _ => 2)
    [.lock () () (some .ok), .lock () () (some .ok)]
    (alone (some ()) 2 ⟨none, 0, []⟩ ⟨0, none⟩ .idle) := by
  have hfirst : Step (State.new fun _ => 2) (.lock () () (some .ok))
      (alone (some ()) 1 ⟨none, 0, []⟩ ⟨0, none⟩ .idle) := Step.lock () none rfl
  have hsecond : Step (alone (some ()) 1 ⟨none, 0, []⟩ ⟨0, none⟩ .idle) (.lock () () (some .ok))
      (alone (some ()) 2 ⟨none, 0, []⟩ ⟨0, none⟩ .idle) := Step.lock () none rfl
  exact .snoc (.single hfirst) hsecond

/-- It waits, and releases the mutex. -/
theorem alone_waits (timeout : Timeout) : Run Step
    (alone (some ()) 2 ⟨none, 0, []⟩ ⟨0, none⟩ .idle)
    [.waitEnter () () () timeout, .waitRelease ()]
    (alone none 0 ⟨some (), 0, [()]⟩ ⟨0, some ()⟩ (.released ⟨(), (), timeout, 0, 0⟩ 2)) := by
  have henter : Step (alone (some ()) 2 ⟨none, 0, []⟩ ⟨0, none⟩ .idle)
      (.waitEnter () () () timeout)
      (alone (some ()) 2 ⟨some (), 0, [()]⟩ ⟨0, some ()⟩ (.entered ⟨(), (), timeout, 0, 0⟩)) :=
    Step.waitEnter timeout rfl rfl rfl
  have hrelease : Step
      (alone (some ()) 2 ⟨some (), 0, [()]⟩ ⟨0, some ()⟩ (.entered ⟨(), (), timeout, 0, 0⟩))
      (.waitRelease ())
      (alone none 0 ⟨some (), 0, [()]⟩ ⟨0, some ()⟩ (.released ⟨(), (), timeout, 0, 0⟩ 2)) :=
    Step.waitRelease rfl rfl
  exact .snoc (.single henter) hrelease

/-- It sleeps, and is woken up by a signal. -/
theorem waits_return_signalled : Promise
    ([.lock () () (some .ok), .lock () () (some .ok)] ++
      [.waitEnter () () () .never, .waitRelease ()] ++ [.waitPoll () none] ++ [.signal () (some ())])
    (alone none 0 ⟨none, 0, []⟩ ⟨1, none⟩ (.sleeping ⟨(), (), .never, 0, 0⟩ 2)) := by
  have hpoll : Step
      (alone none 0 ⟨some (), 0, [()]⟩ ⟨0, some ()⟩ (.released ⟨(), (), .never, 0, 0⟩ 2))
      (.waitPoll () none)
      (alone none 0 ⟨none, 0, [()]⟩ ⟨0, some ()⟩ (.sleeping ⟨(), (), .never, 0, 0⟩ 2)) :=
    @Step.waitCheck Unit Unit Unit _ _ _ _ () ⟨(), (), .never, 0, 0⟩ 2 false rfl
  have hsignal : Step
      (alone none 0 ⟨none, 0, [()]⟩ ⟨0, some ()⟩ (.sleeping ⟨(), (), .never, 0, 0⟩ 2))
      (.signal () (some ()))
      (alone none 0 ⟨none, 0, []⟩ ⟨1, none⟩ (.sleeping ⟨(), (), .never, 0, 0⟩ 2)) :=
    Step.signal rfl
  exact waits_return _ (.snoc (.snoc (alone_locks.append (alone_waits .never)) hpoll) hsignal)

/-- **Inside of a wait** it is different. A thread that has not been woken up is no waiter any more
when its time is over, and the count of its mutex is one until the old count is restored. -/
theorem timed_out_is_no_waiter :
    (¬∀ (as mid : List (Action Unit Unit Unit)) (s : State Unit Unit Unit) (timeout : Timeout),
      Run Step (State.new fun _ => 2) (as ++ .waitEnter () () () timeout :: mid) s →
        (∀ b ∈ mid, ∀ result, b ≠ .waitReturn () result) → (∀ b ∈ mid, () ∉ b.woken) →
          () ∈ (s.conds ()).waiters) ∧
      ¬∀ (as : List (Action Unit Unit Unit)) (s : State Unit Unit Unit),
        Run Step (State.new fun _ => 2) as s → (s.mutexes ()).owner = some () →
          as.countP (·.Acquires () ()) = as.countP (·.Releases () ()) + (s.mutexes ()).count := by
  have hpoll : Step
      (alone none 0 ⟨some (), 0, [()]⟩ ⟨0, some ()⟩ (.released ⟨(), (), .usec 0, 0, 0⟩ 2))
      (.waitPoll () (some .etimedout))
      (alone none 0 ⟨none, 0, []⟩ ⟨0, none⟩ (.relocking () 2 .etimedout false)) :=
    @Step.waitCheck Unit Unit Unit _ _ _ _ () ⟨(), (), .usec 0, 0, 0⟩ 2 false rfl
  have hrelock : Step (alone none 0 ⟨none, 0, []⟩ ⟨0, none⟩ (.relocking () 2 .etimedout false))
      (.relock ()) (alone (some ()) 1 ⟨none, 0, []⟩ ⟨0, none⟩ (.restoring () 2 .etimedout)) :=
    @Step.relock Unit Unit Unit _ _ _ _ () () 2 .etimedout false _ (some .ok) rfl rfl (.inr rfl)
  have hrun := alone_locks.append (alone_waits (.usec 0))
  refine ⟨fun h => ?_, fun h => ?_⟩
  · have hmem := h [.lock () () (some .ok), .lock () () (some .ok)]
      [.waitRelease (), .waitPoll () (some .etimedout)] _ (.usec 0) (hrun.snoc hpoll)
      (by simp) (by simp [Action.woken])
    exact absurd hmem List.not_mem_nil
  · have hcount := h _ _ ((hrun.snoc hpoll).snoc hrelock) rfl
    exact absurd hcount (by decide)

end Prosperismo.Pthread
