import Prosperismo.Pthread.Conditions
import Prosperismo.Pthread.Mutexes

/-!
# The course of a wait

A step is either something that one thread does in a call of its own, and then no number is counted
up, or it is a wake-up (`CondSound.step_cases`). From the first kind a wait goes on from one phase
to the next, by the second it becomes ready, once at most. So what a wait returns is decided by
whether it has been woken up before it gave up (`Waits.step`).
-/

namespace Prosperismo.Pthread

variable {θ μ κ : Type} [DecidableEq θ] [DecidableEq μ] [DecidableEq κ]

/-! ### Actions -/

/-- The thread that acts in a call that has several steps. -/
def Action.thread? : Action θ μ κ → Option θ
  | .lock thread _ _ => some thread
  | .trylock thread _ _ => some thread
  | .unlock thread _ _ => some thread
  | .waitRefused thread _ => some thread
  | .waitEnter thread _ _ _ => some thread
  | .waitRelease thread => some thread
  | .waitPoll thread _ => some thread
  | .relock thread => some thread
  | .waitReturn thread _ => some thread
  | _ => none

/-- The threads that are woken up. -/
def Action.woken : Action θ μ κ → List θ
  | .signal _ woken => woken.toList
  | .signalTo _ thread woken => if woken then [thread] else []
  | .broadcast _ woken => woken
  | _ => []

/-! ### Steps -/

variable {s s' : State θ μ κ} {a : Action θ μ κ} {thread : θ}

/-- A thread acts in its call. -/
structure Acts (s s' : State θ μ κ) (thread : θ) : Prop extends SameNumbers s s' where
  calls : ∀ other, other ≠ thread → s'.calls other = s.calls other
  sound : CondSound s'

omit [DecidableEq μ] [DecidableEq κ] in
/-- A thread acts, and no condition is concerned. -/
theorem CondSound.acts (h : CondSound s) {call : Call μ κ} (hconds : s'.conds = s.conds)
    (hthreads : s'.threads = s.threads) (hcalls : s'.calls = Function.update s.calls thread call)
    (hwait : call.wait? = (s.calls thread).wait?)
    (hlocked : call.locked? = (s.calls thread).locked?) : Acts s s' thread where
  sequence cond := by rw [hconds]
  condSequence other := by rw [hthreads]
  calls other hother := by
    rw [hcalls]
    exact Function.update_of_ne hother _ _
  sound := by
    refine h.congr hconds hthreads (fun other => ?_) fun other => ?_
    · rw [hcalls]
      by_cases hother : other = thread
      · subst hother
        rw [Function.update_self, hwait]
      · rw [Function.update_of_ne hother]
    · rw [hcalls]
      by_cases hother : other = thread
      · subst hother
        rw [Function.update_self, hlocked]
      · rw [Function.update_of_ne hother]

omit [DecidableEq μ] in
/-- A wait that looks at its numbers ends, or sleeps. -/
theorem CondSound.checked (h : CondSound s) {wait : Wait μ κ} (recurse : ℕ) (expired : Bool)
    (hheld : (s.conds wait.cond).lock = none ∨ (s.conds wait.cond).lock = some thread)
    (hwait : (s.calls thread).wait? = some wait) :
    Acts s ((s.checked thread wait recurse expired).unlockCond wait.cond) thread := by
  unfold State.checked
  split
  · next result hcheck =>
    have hremoves := condRemoveWaiter_removes s wait.cond thread
    refine ⟨⟨fun cond => ?_, hremoves.condSequence⟩, fun other hother => ?_,
      h.leave hheld hwait rfl rfl⟩
    · rw [unlockCond_sequence]
      exact hremoves.sequence cond
    · exact (Function.update_of_ne hother _ _).trans (congrFun hremoves.calls other)
  · next hcheck =>
    have htimeout : wait.timeout ≠ .usec 0 := fun htimeout => by
      unfold State.check at hcheck
      rw [if_pos htimeout] at hcheck
      cases hcheck
    refine ⟨⟨unlockCond_sequence _ _, fun _ => rfl⟩, fun other hother => ?_,
      h.settle hheld hwait htimeout rfl rfl⟩
    exact Function.update_of_ne hother _ _

/-- **Step lemma** for the conditions: a thread acts in its call, or some waiters are woken up. -/
theorem CondSound.step_cases (h : CondSound s) (hstep : Step s a s') :
    (∃ thread, a.thread? = some thread ∧ a.woken = [] ∧ Acts s s' thread) ∨
      a.thread? = none ∧ WakesUp s s' a.woken := by
  cases hstep with
  | @lock thread mutex timeoutUs hcall =>
    refine .inl ⟨thread, rfl, rfl, h.acts rfl rfl rfl ?_ ?_⟩
    · rw [hcall]
      split
      · rfl
      · rfl
    · rw [hcall]
      split
      · rfl
      · rfl
  | @lockPoll thread mutex timed expired hcall =>
    refine .inl ⟨thread, rfl, rfl, h.acts rfl rfl rfl ?_ ?_⟩
    · rw [hcall]
      split
      · rfl
      · rfl
    · rw [hcall]
      split
      · rfl
      · rfl
  | @trylock thread mutex hcall =>
    exact .inl ⟨thread, rfl, rfl, h.acts rfl rfl rfl (by rw [hcall]) (by rw [hcall])⟩
  | @unlock thread mutex hcall =>
    exact .inl ⟨thread, rfl, rfl, h.acts rfl rfl rfl (by rw [hcall]) (by rw [hcall])⟩
  | @waitRefused thread =>
    exact .inl ⟨thread, rfl, rfl, ⟨⟨fun _ => rfl, fun _ => rfl⟩, fun _ _ => rfl, h⟩⟩
  | @waitEnter thread cond mutex timeout hcall howner hlock =>
    refine .inl ⟨thread, rfl, rfl, ⟨⟨fun any => ?_, fun any => ?_⟩, fun other hother => ?_,
      h.enter timeout hcall hlock⟩⟩
    · by_cases hany : any = cond
      · subst hany
        simp [State.lockCond, State.condAddWaiter, State.setCond, State.setCall]
      · simp [State.lockCond, State.condAddWaiter, State.setCond, State.setCall, hany]
    · by_cases hany : any = thread
      · subst hany
        simp [State.lockCond, State.condAddWaiter, State.setCond, State.setCall]
      · simp [State.lockCond, State.condAddWaiter, State.setCond, State.setCall, hany]
    · exact Function.update_of_ne hother _ _
  | @waitRelease thread wait hcall hresult =>
    exact .inl ⟨thread, rfl, rfl, h.acts rfl rfl rfl (by rw [hcall]; rfl) (by rw [hcall]; rfl)⟩
  | @waitFailed thread wait hcall hresult =>
    have hremoves := condRemoveWaiter_removes s wait.cond thread
    have hheld : (s.conds wait.cond).lock = some thread :=
      (h.locked wait.cond thread).2 ⟨wait, by rw [hcall]; rfl, rfl⟩
    refine .inl ⟨thread, rfl, rfl, ⟨⟨fun cond => ?_, hremoves.condSequence⟩,
      fun other hother => ?_, h.leave (.inr hheld) (by rw [hcall]; rfl) rfl rfl⟩⟩
    · exact (unlockCond_sequence _ _ _).trans (hremoves.sequence cond)
    · exact (Function.update_of_ne hother _ _).trans (congrFun hremoves.calls other)
  | @waitCheck thread wait recurse expired hcall =>
    have hheld : (s.conds wait.cond).lock = some thread :=
      (h.locked wait.cond thread).2 ⟨wait, by rw [hcall]; rfl, rfl⟩
    exact .inl ⟨thread, rfl, rfl, h.checked recurse expired (.inr hheld) (by rw [hcall]; rfl)⟩
  | @waitPoll thread wait recurse expired hcall hlock =>
    have hwait : (s.calls thread).wait? = some wait := by
      rw [hcall]
      rfl
    have hchecked := h.checked recurse expired (.inl hlock) hwait
    have hlock' : ((s.checked thread wait recurse expired).conds wait.cond).lock = none := by
      unfold State.checked
      split
      · exact ((condRemoveWaiter_removes s wait.cond thread).lock _).trans hlock
      · exact hlock
    rw [unlockCond_eq hlock'] at hchecked
    exact .inl ⟨thread, rfl, rfl, hchecked⟩
  | @relock thread mutex recurse result polling x lockResult hcall hlock hresult =>
    refine .inl ⟨thread, rfl, rfl, h.acts rfl rfl rfl ?_ ?_⟩
    · rw [hcall]
      split
      · rfl
      · rfl
    · rw [hcall]
      split
      · rfl
      · rfl
  | @relockFailed thread mutex recurse result polling x error hcall hlock herror =>
    exact .inl ⟨thread, rfl, rfl, h.acts rfl rfl rfl (by rw [hcall]; rfl) (by rw [hcall]; rfl)⟩
  | @waitReturn thread mutex recurse result hcall =>
    exact .inl ⟨thread, rfl, rfl, h.acts rfl rfl rfl (by rw [hcall]; rfl) (by rw [hcall]; rfl)⟩
  | @signal cond hlock =>
    obtain ⟨hwoken, hwakes⟩ := h.signal hlock
    refine .inr ⟨rfl, ?_⟩
    show WakesUp s _ (s.signal cond).1.toList
    rw [hwoken]
    exact hwakes
  | @signalTo cond thread hlock =>
    obtain ⟨hwoken, hwakes⟩ := h.signalTo hlock thread
    refine .inr ⟨rfl, ?_⟩
    show WakesUp s _ (if (s.condWakeWaiter cond thread).1 = true then [thread] else [])
    simp only [hwoken]
    exact hwakes
  | @broadcast cond hlock =>
    obtain ⟨hwoken, hwakes⟩ := h.broadcast hlock
    refine .inr ⟨rfl, ?_⟩
    show WakesUp s _ (s.broadcast cond).1
    rw [hwoken]
    exact hwakes

theorem CondSound.step (h : CondSound s) (hstep : Step s a s') : CondSound s' := by
  rcases h.step_cases hstep with ⟨_, _, _, hacts⟩ | ⟨_, hwakes⟩
  · exact hacts.sound
  · exact h.wakesUp hwakes

/-! ### From the entry of a wait to its return -/

/-- The mutex and the result of a wait that has one. -/
def Call.result? : Call μ κ → Option (μ × Result)
  | .relocking mutex _ result _ => some (mutex, result)
  | .restoring mutex _ result => some (mutex, result)
  | _ => none

/-- What a wait returns that has been woken up so many times. -/
def Decided (timeout : Timeout) (woken : ℕ) (result : Result) : Prop :=
  result = .ok ∧ woken = 1 ∨ result = .etimedout ∧ woken = 0 ∧ timeout ≠ .never

/-- A thread is in a wait, and has been woken up so many times since it entered it. -/
def State.Waits (s : State θ μ κ) (thread : θ) (cond : κ) (mutex : μ) (timeout : Timeout)
    (woken : ℕ) : Prop :=
  (∃ wait, (s.calls thread).wait? = some wait ∧ wait.cond = cond ∧ wait.mutex = mutex ∧
      wait.timeout = timeout ∧ woken = if s.Ready thread wait then 1 else 0) ∨
    ∃ result, (s.calls thread).result? = some (mutex, result) ∧ Decided timeout woken result

section Course

variable {cond : κ} {mutex : μ} {timeout : Timeout} {woken : ℕ}

omit [DecidableEq θ] [DecidableEq μ] [DecidableEq κ] in
/-- Only the call of the thread and its readiness matter. -/
theorem State.Waits.congr (h : s.Waits thread cond mutex timeout woken)
    (hcall : s'.calls thread = s.calls thread) {more : ℕ}
    (hready : ∀ wait, (s.calls thread).wait? = some wait →
      (if s.Ready thread wait then 1 else 0) + more = if s'.Ready thread wait then 1 else 0)
    (hmore : (s.calls thread).wait? = none → more = 0) :
    s'.Waits thread cond mutex timeout (woken + more) := by
  rcases h with ⟨wait, hwait, hcond, hmutex, htimeout, rfl⟩ | ⟨result, hresult, hdecided⟩
  · refine .inl ⟨wait, ?_, hcond, hmutex, htimeout, hready wait hwait⟩
    rw [hcall, hwait]
  · have hnone : (s.calls thread).wait? = none := by
      cases hcall : s.calls thread with
      | relocking => rfl
      | restoring => rfl
      | _ =>
        rw [hcall] at hresult
        cases hresult
    refine .inr ⟨result, ?_, ?_⟩
    · rw [hcall, hresult]
    · rw [hmore hnone]
      exact hdecided

omit [DecidableEq μ] [DecidableEq κ] in
/-- A wake-up counts for the threads that are woken up. -/
theorem State.Waits.wakesUp (h : s.Waits thread cond mutex timeout woken) (hsound : CondSound s)
    {threads : List θ} (hwakes : WakesUp s s' threads) :
    s'.Waits thread cond mutex timeout (woken + if thread ∈ threads then 1 else 0) := by
  refine h.congr (congrFun hwakes.calls thread) (fun wait hwait => ?_) fun hnone => ?_
  · have hready := hwakes.ready thread wait hwait
    by_cases hmem : thread ∈ threads
    · -- it has been a waiter, so it was not ready
      obtain ⟨any, hany⟩ := hwakes.waiting thread hmem
      obtain ⟨w, hw, -, hnot⟩ := (hsound.waiter any thread).1 hany
      rw [← Option.some.inj (hwait.symm.trans hw)] at hnot
      rw [if_neg hnot, if_pos hmem, if_pos (hready.2 (.inr hmem))]
    · rw [if_neg hmem, Nat.add_zero]
      simp only [hready, hmem, or_false]
  · refine if_neg fun hmem => ?_
    obtain ⟨any, hany⟩ := hwakes.waiting thread hmem
    obtain ⟨w, hw, -⟩ := (hsound.waiter any thread).1 hany
    cases hnone.symm.trans hw

omit [DecidableEq θ] [DecidableEq μ] [DecidableEq κ] in
/-- What a wait finds out that looks at its numbers. -/
theorem CondSound.check (h : CondSound s) {wait : Wait μ κ} {expired : Bool} {result : Result}
    (hwait : (s.calls thread).wait? = some wait)
    (hcheck : s.check thread wait expired = some result) :
    Decided wait.timeout (if s.Ready thread wait then 1 else 0) result := by
  unfold State.check at hcheck
  by_cases htimeout : wait.timeout = .usec 0
  · -- the wait has had no slice, so nobody could wake the thread up
    rw [if_pos htimeout] at hcheck
    have hready : ¬s.Ready thread wait := by
      rcases hlocked : (s.calls thread).locked? with _ | locked
      · exact absurd htimeout (h.asleep thread wait hwait hlocked)
      · rw [Option.some.inj (hwait.symm.trans (Call.wait?_of_locked? hlocked))]
        exact h.still thread locked hlocked
    rw [if_neg hready, htimeout]
    exact .inr ⟨(Option.some.inj hcheck).symm, rfl, nofun⟩
  rw [if_neg htimeout] at hcheck
  by_cases hready : s.Ready thread wait
  · rw [if_pos hready] at hcheck ⊢
    exact .inl ⟨(Option.some.inj hcheck).symm, rfl⟩
  · rw [if_neg hready] at hcheck ⊢
    split at hcheck
    · next hexpired => exact .inr ⟨(Option.some.inj hcheck).symm, rfl, hexpired.2⟩
    · cases hcheck

omit [DecidableEq μ] in
/-- A wait goes on when it looks at its numbers. -/
theorem State.Waits.checked (h : s.Waits thread cond mutex timeout woken) (hsound : CondSound s)
    {wait : Wait μ κ} {recurse : ℕ} {expired : Bool}
    (hwait : (s.calls thread).wait? = some wait) (hresult : (s.calls thread).result? = none)
    (hcalls : s'.calls thread = (s.checked thread wait recurse expired).calls thread)
    (hnumbers : SameNumbers s s') : s'.Waits thread cond mutex timeout woken := by
  rcases h with ⟨w, hw, rfl, rfl, rfl, rfl⟩ | ⟨result, hsome, -⟩
  · obtain rfl := Option.some.inj (hwait.symm.trans hw)
    rcases hcheck : s.check thread wait expired with _ | result
    · refine .inl ⟨wait, ?_, rfl, rfl, rfl, by simp only [hnumbers.ready]⟩
      rw [hcalls]
      unfold State.checked
      rw [hcheck]
      dsimp only [State.setCall]
      rw [Function.update_self]
      rfl
    · refine .inr ⟨result, ?_, hsound.check hwait hcheck⟩
      rw [hcalls]
      unfold State.checked
      rw [hcheck]
      dsimp only [State.setCall]
      rw [Function.update_self]
      rfl
  · cases hresult.symm.trans hsome

/-- What a step makes of a wait: it goes on, or it returns what is decided. -/
inductive Goes (s' : State θ μ κ) (a : Action θ μ κ) (thread : θ) (cond : κ) (mutex : μ)
    (timeout : Timeout) (woken : ℕ) : Prop
  | on (hact : ∀ result, a ≠ .waitReturn thread result)
      (hwaits : s'.Waits thread cond mutex timeout (woken + if thread ∈ a.woken then 1 else 0))
  | returned (result : Result) (hact : a = .waitReturn thread result)
      (hdecided : Decided timeout woken result) (hcall : s'.calls thread = .idle)

omit [DecidableEq θ] [DecidableEq μ] [DecidableEq κ] in
/-- The result of a wait that has one is decided. -/
theorem State.Waits.result (h : s.Waits thread cond mutex timeout woken) {result : Result}
    {other : μ} (hresult : (s.calls thread).result? = some (other, result))
    (hnone : (s.calls thread).wait? = none) : other = mutex ∧ Decided timeout woken result := by
  rcases h with ⟨w, hw, -⟩ | ⟨result', hsome, hdecided⟩
  · cases hnone.symm.trans hw
  · obtain ⟨rfl, rfl⟩ := Prod.mk.inj (Option.some.inj (hresult.symm.trans hsome))
    exact ⟨rfl, hdecided⟩

/-- A step of the thread itself. -/
theorem State.Waits.own (h : s.Waits thread cond mutex timeout woken) (hsound : CondSound s)
    (hmutexes : MutexSound s) (hstep : Step s a s') (hactor : a.thread? = some thread)
    (hnumbers : SameNumbers s s') (hwoken : a.woken = []) :
    Goes s' a thread cond mutex timeout woken := by
  have hon : (∀ result, a ≠ .waitReturn thread result) →
      s'.Waits thread cond mutex timeout woken → Goes s' a thread cond mutex timeout woken :=
    fun hact hwaits => .on hact (by rw [hwoken]; exact hwaits)
  have hidle : (s.calls thread).wait? = none → (s.calls thread).result? = none → False := by
    intro hwait hresult
    rcases h with ⟨_, hw, -⟩ | ⟨_, hw, -⟩
    · cases hwait.symm.trans hw
    · cases hresult.symm.trans hw
  cases hstep with
  | @lock thread' mutex' timeoutUs hcall =>
    obtain rfl := Option.some.inj hactor
    exact (hidle (by rw [hcall]; rfl) (by rw [hcall]; rfl)).elim
  | @lockPoll thread' mutex' timed expired hcall =>
    obtain rfl := Option.some.inj hactor
    exact (hidle (by rw [hcall]; rfl) (by rw [hcall]; rfl)).elim
  | @trylock thread' mutex' hcall =>
    obtain rfl := Option.some.inj hactor
    exact (hidle (by rw [hcall]; rfl) (by rw [hcall]; rfl)).elim
  | @unlock thread' mutex' hcall =>
    obtain rfl := Option.some.inj hactor
    exact (hidle (by rw [hcall]; rfl) (by rw [hcall]; rfl)).elim
  | @waitRefused thread' mutex' result hcall =>
    obtain rfl := Option.some.inj hactor
    exact (hidle (by rw [hcall]; rfl) (by rw [hcall]; rfl)).elim
  | @waitEnter thread' cond' mutex' timeout' hcall =>
    obtain rfl := Option.some.inj hactor
    exact (hidle (by rw [hcall]; rfl) (by rw [hcall]; rfl)).elim
  | @waitRelease thread' wait hcall hresult =>
    obtain rfl := Option.some.inj hactor
    refine hon (fun _ => nofun) ?_
    rcases h with ⟨w, hw, hcond, hmutex, htimeout, rfl⟩ | ⟨_, hw, -⟩
    · rw [hcall] at hw
      refine .inl ⟨w, ?_, hcond, hmutex, htimeout, by simp only [hnumbers.ready]⟩
      exact (congrArg Call.wait? act_call_self).trans hw
    · rw [hcall] at hw
      cases hw
  | @waitFailed thread' wait hcall hresult =>
    -- the thread owns the mutex, so it can release it
    have hfits := hmutexes.fits thread'
    rw [hcall] at hfits
    rw [Mutex.unlock_full hfits] at hresult
    exact absurd rfl hresult
  | @waitCheck thread' wait recurse expired hcall =>
    obtain rfl := Option.some.inj hactor
    exact hon (fun _ => nofun)
      (h.checked hsound (by rw [hcall]; rfl) (by rw [hcall]; rfl) rfl hnumbers)
  | @waitPoll thread' wait recurse expired hcall hlock =>
    obtain rfl := Option.some.inj hactor
    exact hon (fun _ => nofun)
      (h.checked hsound (by rw [hcall]; rfl) (by rw [hcall]; rfl) rfl hnumbers)
  | @relock thread' mutex' recurse result polling x lockResult hcall hlock hresult =>
    obtain rfl := Option.some.inj hactor
    have hresult : (s.calls thread').result? = some (mutex', result) := by
      rw [hcall]
      rfl
    obtain ⟨rfl, hdecided⟩ := h.result hresult (by rw [hcall]; rfl)
    refine hon (fun _ => nofun) (.inr ⟨result, ?_, hdecided⟩)
    refine (congrArg Call.result? act_call_self).trans ?_
    split
    · rfl
    · rfl
  | @relockFailed thread' mutex' recurse result polling x error hcall hlock herror =>
    -- the thread does not own the mutex, so it gets no error
    have hfits := hmutexes.fits thread'
    rw [hcall] at hfits
    rcases relock_spec hfits.1 hlock with ⟨hok, -⟩ | ⟨hnone, -⟩
    · exact absurd (Option.some.inj hok) herror
    · cases hnone
  | @waitReturn thread' mutex' recurse result hcall =>
    obtain rfl := Option.some.inj hactor
    have hresult : (s.calls thread').result? = some (mutex', result) := by
      rw [hcall]
      rfl
    obtain ⟨-, hdecided⟩ := h.result hresult (by rw [hcall]; rfl)
    exact .returned result rfl hdecided act_call_self
  | signal => cases hactor
  | signalTo => cases hactor
  | broadcast => cases hactor

/-- **Step lemma** for a wait. -/
theorem State.Waits.step (h : s.Waits thread cond mutex timeout woken) (hsound : CondSound s)
    (hmutexes : MutexSound s) (hstep : Step s a s') :
    Goes s' a thread cond mutex timeout woken := by
  rcases hsound.step_cases hstep with ⟨actor, hactor, hwoken, hacts⟩ | ⟨hactor, hwakes⟩
  · by_cases hother : actor = thread
    · subst hother
      exact h.own hsound hmutexes hstep hactor hacts.toSameNumbers hwoken
    · refine .on (fun result hact => hother ?_) ?_
      · rw [hact] at hactor
        exact (Option.some.inj hactor).symm
      · rw [hwoken]
        refine h.congr (hacts.calls thread (Ne.symm hother)) (fun wait _ => ?_) fun _ => rfl
        simp only [hacts.ready]
        rfl
  · refine .on (fun result hact => ?_) (h.wakesUp hsound hwakes)
    rw [hact] at hactor
    cases hactor

end Course

end Prosperismo.Pthread
