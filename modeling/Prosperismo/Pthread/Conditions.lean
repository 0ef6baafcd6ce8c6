import Mathlib.Data.List.Nodup
import Prosperismo.Pthread.Model

/-!
# Who waits for a condition

A waiter of a condition is a thread in a wait that is not ready yet, and there are no others
(`CondSound`). A wake-up takes threads out of the list of waiters and makes the same threads ready,
whether it counts up the sequence number of the condition or those of the threads (`WakesUp`). This
rests on two things: a thread is in one wait at a time, so its sequence number can be shared by all
conditions, and the numbers only grow, so a thread that is ready stays so.
-/

namespace Prosperismo.Pthread

variable {θ μ κ : Type}

/-! ### Waits -/

/-- The wait that a thread is in, as long as it has no result. -/
def Call.wait? : Call μ κ → Option (Wait μ κ)
  | .entered wait => some wait
  | .released wait _ => some wait
  | .sleeping wait _ => some wait
  | _ => none

/-- The same, when it holds `m` of its condition. -/
def Call.locked? : Call μ κ → Option (Wait μ κ)
  | .entered wait => some wait
  | .released wait _ => some wait
  | _ => none

theorem Call.wait?_of_locked? {call : Call μ κ} {wait : Wait μ κ} (h : call.locked? = some wait) :
    call.wait? = some wait := by
  cases call with
  | entered => exact h
  | released => exact h
  | _ => cases h

/-- The conditions between two steps. -/
structure CondSound (s : State θ μ κ) : Prop where
  nodup : ∀ cond, (s.conds cond).waiters.Nodup
  /-- A waiter is a thread that is in a wait and not ready. -/
  waiter : ∀ cond thread, thread ∈ (s.conds cond).waiters ↔
    ∃ wait, (s.calls thread).wait? = some wait ∧ wait.cond = cond ∧ ¬s.Ready thread wait
  locked : ∀ cond thread, (s.conds cond).lock = some thread ↔
    ∃ wait, (s.calls thread).locked? = some wait ∧ wait.cond = cond
  /-- The numbers that a wait has noted are not ahead. -/
  noted : ∀ thread wait, (s.calls thread).wait? = some wait →
    wait.sequence ≤ (s.conds wait.cond).sequence ∧
      wait.threadSequence ≤ (s.threads thread).condSequence
  /-- Before the first slice no thread is ready. -/
  still : ∀ thread wait, (s.calls thread).locked? = some wait → ¬s.Ready thread wait
  /-- A wait of no time has no slices. -/
  asleep : ∀ thread wait, (s.calls thread).wait? = some wait → (s.calls thread).locked? = none →
    wait.timeout ≠ .usec 0

theorem CondSound.new [DecidableEq θ] [DecidableEq μ] [DecidableEq κ] (types : μ → ℤ) :
    CondSound (State.new types : State θ μ κ) where
  nodup _ := List.nodup_nil
  waiter _ _ := iff_of_false List.not_mem_nil fun ⟨_, hwait, _⟩ => nomatch hwait
  locked _ _ := iff_of_false nofun fun ⟨_, hwait, _⟩ => nomatch hwait
  noted _ _ := nofun
  still _ _ := nofun
  asleep _ _ := nofun

namespace CondSound

variable {s s' : State θ μ κ} {thread : θ} {cond : κ} {wait : Wait μ κ}

/-- A waiter is in one wait, for one condition. -/
theorem cond_unique (h : CondSound s) {other : κ} (hmem : thread ∈ (s.conds cond).waiters)
    (hmem' : thread ∈ (s.conds other).waiters) : other = cond := by
  obtain ⟨w, hw, rfl, -⟩ := (h.waiter cond thread).1 hmem
  obtain ⟨w', hw', rfl, -⟩ := (h.waiter other thread).1 hmem'
  rw [Option.some.inj (hw.symm.trans hw')]

/-- A step that concerns no condition. -/
theorem congr (h : CondSound s) (hconds : s'.conds = s.conds) (hthreads : s'.threads = s.threads)
    (hwait : ∀ thread, (s'.calls thread).wait? = (s.calls thread).wait?)
    (hlocked : ∀ thread, (s'.calls thread).locked? = (s.calls thread).locked?) : CondSound s' := by
  have hready : ∀ thread wait, s'.Ready thread wait ↔ s.Ready thread wait := fun thread wait => by
    unfold State.Ready
    rw [hconds, hthreads]
  refine ⟨?_, ?_, ?_, ?_, ?_, ?_⟩
  · rw [hconds]
    exact h.nodup
  · intro cond thread
    simp only [hconds, hwait, hready]
    exact h.waiter cond thread
  · intro cond thread
    simp only [hconds, hlocked]
    exact h.locked cond thread
  · intro thread wait
    rw [hconds, hthreads, hwait]
    exact h.noted thread wait
  · intro thread wait
    rw [hready, hlocked]
    exact h.still thread wait
  · intro thread wait
    rw [hwait, hlocked]
    exact h.asleep thread wait

end CondSound

/-! ### Wake-ups -/

section Wake

variable [DecidableEq θ] {s s' : State θ μ κ} {woken : List θ}

/-- Some waiters are woken up, and nothing else happens. -/
structure WakesUp (s s' : State θ μ κ) (woken : List θ) : Prop where
  mutexes : s'.mutexes = s.mutexes
  calls : s'.calls = s.calls
  lock : ∀ cond, (s'.conds cond).lock = (s.conds cond).lock
  waiters : ∀ cond, (s'.conds cond).waiters = (s.conds cond).waiters.filter (· ∉ woken)
  waiting : ∀ thread ∈ woken, ∃ cond, thread ∈ (s.conds cond).waiters
  unlocked : ∀ thread ∈ woken, (s.calls thread).locked? = none
  sequence : ∀ cond, (s.conds cond).sequence ≤ (s'.conds cond).sequence
  condSequence : ∀ thread, (s.threads thread).condSequence ≤ (s'.threads thread).condSequence
  ready : ∀ thread wait, (s.calls thread).wait? = some wait →
    (s'.Ready thread wait ↔ s.Ready thread wait ∨ thread ∈ woken)

theorem WakesUp.refl (s : State θ μ κ) : WakesUp s s [] where
  mutexes := rfl
  calls := rfl
  lock _ := rfl
  waiters _ := by simp
  waiting _ h := absurd h List.not_mem_nil
  unlocked _ h := absurd h List.not_mem_nil
  sequence _ := Nat.le_refl _
  condSequence _ := Nat.le_refl _
  ready _ _ _ := by simp

theorem CondSound.wakesUp (h : CondSound s) (hwakes : WakesUp s s' woken) : CondSound s' where
  nodup cond := by
    rw [hwakes.waiters]
    exact (h.nodup cond).filter _
  waiter cond thread := by
    rw [hwakes.waiters, List.mem_filter, h.waiter, hwakes.calls]
    constructor
    · rintro ⟨⟨wait, hwait, hcond, hready⟩, hnot⟩
      refine ⟨wait, hwait, hcond, fun hready' => ?_⟩
      exact ((hwakes.ready thread wait hwait).1 hready').elim hready (by simpa using hnot)
    · rintro ⟨wait, hwait, hcond, hready'⟩
      have hready := (hwakes.ready thread wait hwait).not.1 hready'
      rw [not_or] at hready
      exact ⟨⟨wait, hwait, hcond, hready.1⟩, by simpa using hready.2⟩
  locked cond thread := by
    rw [hwakes.lock, hwakes.calls]
    exact h.locked cond thread
  noted thread wait hwait := by
    rw [hwakes.calls] at hwait
    obtain ⟨hsequence, hthread⟩ := h.noted thread wait hwait
    exact ⟨Nat.le_trans hsequence (hwakes.sequence _),
      Nat.le_trans hthread (hwakes.condSequence _)⟩
  still thread wait hlocked := by
    rw [hwakes.calls] at hlocked
    rw [hwakes.ready thread wait (Call.wait?_of_locked? hlocked), not_or]
    exact ⟨h.still thread wait hlocked, fun hmem =>
      nomatch hlocked.symm.trans (hwakes.unlocked thread hmem)⟩
  asleep := by
    rw [hwakes.calls]
    exact h.asleep

omit [DecidableEq θ] in
/-- A waiter of a condition whose `m` is free has slept already. -/
theorem CondSound.unlocked (h : CondSound s) {thread : θ} {cond : κ}
    (hlock : (s.conds cond).lock = none) (hmem : thread ∈ (s.conds cond).waiters) :
    (s.calls thread).locked? = none := by
  obtain ⟨wait, hwait, rfl, -⟩ := (h.waiter cond thread).1 hmem
  rcases hcases : (s.calls thread).locked? with _ | locked
  · rfl
  · have hsame := Option.some.inj (hwait.symm.trans (Call.wait?_of_locked? hcases))
    have hheld := (h.locked wait.cond thread).2 ⟨locked, hcases, by rw [hsame]⟩
    cases hlock.symm.trans hheld

variable [DecidableEq κ]

/-- `CondWakeWaiter` wakes up the thread, if it is a waiter. -/
theorem CondSound.condWakeWaiter (h : CondSound s) {cond : κ} (hlock : (s.conds cond).lock = none)
    {thread : θ} (hmem : thread ∈ (s.conds cond).waiters) :
    WakesUp s (s.condWakeWaiter cond thread).2 [thread] := by
  have heq : s.condWakeWaiter cond thread = (true,
      { s with
        threads := Function.update s.threads thread
          { State.Thread.leave (s.threads thread) cond with
            condSequence := (s.threads thread).condSequence + 1 }
        conds := Function.update s.conds cond
          { s.conds cond with waiters := (s.conds cond).waiters.erase thread } }) := if_pos hmem
  rw [heq]
  refine ⟨rfl, rfl, fun other => ?_, fun other => ?_, ?_, ?_, fun other => ?_, fun other => ?_, ?_⟩
  · by_cases hother : other = cond
    · subst hother
      simp
    · simp [hother]
  · by_cases hother : other = cond
    · subst hother
      simp [(h.nodup other).erase_eq_filter, bne, beq_eq_decide]
    · -- the thread is no waiter of another condition
      simp only [Function.update_of_ne hother]
      have hnot : ∀ any ∈ (s.conds other).waiters, any ∉ [thread] := fun any hany hthread => by
        rw [List.mem_singleton.1 hthread] at hany
        exact hother (h.cond_unique hmem hany)
      exact (List.filter_eq_self.2 fun any hany => by simpa using hnot any hany).symm
  · intro other hother
    rw [List.mem_singleton.1 hother]
    exact ⟨cond, hmem⟩
  · intro other hother
    rw [List.mem_singleton.1 hother]
    exact h.unlocked hlock hmem
  · by_cases hother : other = cond
    · subst hother
      simp
    · simp [hother]
  · by_cases hother : other = thread
    · subst hother
      simp
    · simp [hother]
  · intro other wait hwait
    have hsequence : ((Function.update s.conds cond
        { s.conds cond with waiters := (s.conds cond).waiters.erase thread })
          wait.cond).sequence = (s.conds wait.cond).sequence := by
      by_cases hcond : wait.cond = cond
      · subst hcond
        simp
      · simp [hcond]
    unfold State.Ready
    simp only [hsequence, List.mem_singleton]
    by_cases hother : other = thread
    · subst hother
      have hnoted := (h.noted other wait hwait).2
      simp only [Function.update_self, or_true, iff_true]
      exact .inr (Nat.ne_of_gt (Nat.lt_succ_of_le hnoted))
    · simp only [Function.update_of_ne hother, hother, or_false]

/-- `PthreadCondSignal` wakes up the first waiter. -/
theorem CondSound.signal (h : CondSound s) {cond : κ} (hlock : (s.conds cond).lock = none) :
    (s.signal cond).1 = (s.conds cond).waiters.head? ∧
      WakesUp s (s.signal cond).2 (s.conds cond).waiters.head?.toList := by
  unfold State.signal
  split
  · next hnone =>
    rw [hnone]
    exact ⟨rfl, .refl s⟩
  · next thread rest hsome =>
    have hmem : thread ∈ (s.conds cond).waiters := hsome ▸ List.mem_cons_self
    have hwakes := h.condWakeWaiter hlock hmem
    rw [hsome]
    exact ⟨rfl, hwakes⟩

/-- `PthreadCondSignalto` wakes up the thread, if it is a waiter. -/
theorem CondSound.signalTo (h : CondSound s) {cond : κ} (hlock : (s.conds cond).lock = none)
    (thread : θ) :
    ((s.condWakeWaiter cond thread).1 = true ↔ thread ∈ (s.conds cond).waiters) ∧
      WakesUp s (s.condWakeWaiter cond thread).2
        (if thread ∈ (s.conds cond).waiters then [thread] else []) := by
  by_cases hmem : thread ∈ (s.conds cond).waiters
  · have hwakes := h.condWakeWaiter hlock hmem
    rw [if_pos hmem]
    refine ⟨iff_of_true ?_ hmem, hwakes⟩
    unfold State.condWakeWaiter
    rw [if_pos hmem]
  · have heq : s.condWakeWaiter cond thread = (false, s) := if_neg hmem
    rw [heq, if_neg hmem]
    exact ⟨iff_of_false nofun hmem, .refl s⟩

/-- `CondClearWaiters` counts no number up. -/
theorem condClearWaiters_condSequence (s : State θ μ κ) (cond : κ) (thread : θ) :
    ((s.condClearWaiters cond).threads thread).condSequence =
      (s.threads thread).condSequence := by
  unfold State.condClearWaiters State.Thread.leave
  dsimp only
  split
  · split
    · rfl
    · rfl
  · rfl

/-- `PthreadCondBroadcast` wakes up all waiters. -/
theorem CondSound.broadcast (h : CondSound s) {cond : κ} (hlock : (s.conds cond).lock = none) :
    (s.broadcast cond).1 = (s.conds cond).waiters ∧
      WakesUp s (s.broadcast cond).2 (s.conds cond).waiters := by
  unfold State.broadcast
  split
  · next hnone =>
    rw [hnone]
    exact ⟨rfl, .refl s⟩
  refine ⟨rfl, ⟨rfl, rfl, fun other => ?_, fun other => ?_, ?_, ?_, fun other => ?_, fun other => ?_,
    ?_⟩⟩
  · by_cases hother : other = cond
    · subst hother
      simp [State.condClearWaiters, State.setCond]
    · simp [State.condClearWaiters, State.setCond, hother]
  · by_cases hother : other = cond
    · subst hother
      simp [State.condClearWaiters, State.setCond]
    · -- they are no waiters of another condition
      simp only [State.condClearWaiters, State.setCond, Function.update_of_ne hother]
      have hnot : ∀ any ∈ (s.conds other).waiters, any ∉ (s.conds cond).waiters :=
        fun any hany hthread => hother (h.cond_unique hthread hany)
      exact (List.filter_eq_self.2 fun any hany => by simpa using hnot any hany).symm
  · exact fun thread hmem => ⟨cond, hmem⟩
  · exact fun thread hmem => h.unlocked hlock hmem
  · by_cases hother : other = cond
    · subst hother
      simp [State.condClearWaiters, State.setCond]
    · simp [State.condClearWaiters, State.setCond, hother]
  · rw [condClearWaiters_condSequence]
    exact Nat.le_refl _
  · intro thread wait hwait
    unfold State.Ready
    rw [condClearWaiters_condSequence]
    by_cases hcond : wait.cond = cond
    · -- the thread is ready now, and was ready before or a waiter
      subst hcond
      have hnoted := (h.noted thread wait hwait).1
      simp only [State.condClearWaiters, State.setCond, Function.update_self]
      refine iff_of_true (.inl (Nat.ne_of_gt (Nat.lt_succ_of_le hnoted))) ?_
      by_cases hready : s.Ready thread wait
      · exact .inl hready
      · exact .inr ((h.waiter wait.cond thread).2 ⟨wait, hwait, rfl, hready⟩)
    · have hnot : thread ∉ (s.conds cond).waiters := fun hmem => by
        obtain ⟨wait', hwait', rfl, -⟩ := (h.waiter cond thread).1 hmem
        exact hcond (congrArg Wait.cond (Option.some.inj (hwait.symm.trans hwait')))
      simp only [State.condClearWaiters, State.setCond, Function.update_of_ne hcond, hnot, or_false]

end Wake

/-! ### The thread that waits -/

/-- A state in which no number has been counted up. -/
structure SameNumbers (s s' : State θ μ κ) : Prop where
  sequence : ∀ cond, (s'.conds cond).sequence = (s.conds cond).sequence
  condSequence : ∀ thread, (s'.threads thread).condSequence = (s.threads thread).condSequence

theorem SameNumbers.ready {s s' : State θ μ κ} (h : SameNumbers s s') (thread : θ)
    (wait : Wait μ κ) : s'.Ready thread wait ↔ s.Ready thread wait := by
  unfold State.Ready
  rw [h.sequence, h.condSequence]

/-- A thread begins a wait, goes on with it or ends it, and the others see nothing of it. -/
theorem CondSound.alone {s s' : State θ μ κ} (h : CondSound s) (thread : θ)
    (hnumbers : SameNumbers s s') (hcalls : ∀ other, other ≠ thread → s'.calls other = s.calls other)
    (hnodup : ∀ cond, (s'.conds cond).waiters.Nodup)
    (hwaiters : ∀ cond other, other ≠ thread →
      (other ∈ (s'.conds cond).waiters ↔ other ∈ (s.conds cond).waiters))
    (hlock : ∀ cond other, other ≠ thread →
      ((s'.conds cond).lock = some other ↔ (s.conds cond).lock = some other))
    (hwaiter : ∀ cond, thread ∈ (s'.conds cond).waiters ↔
      ∃ wait, (s'.calls thread).wait? = some wait ∧ wait.cond = cond ∧ ¬s.Ready thread wait)
    (hlocked : ∀ cond, (s'.conds cond).lock = some thread ↔
      ∃ wait, (s'.calls thread).locked? = some wait ∧ wait.cond = cond)
    (hnoted : ∀ wait, (s'.calls thread).wait? = some wait →
      wait.sequence ≤ (s.conds wait.cond).sequence ∧
        wait.threadSequence ≤ (s.threads thread).condSequence)
    (hstill : ∀ wait, (s'.calls thread).locked? = some wait → ¬s.Ready thread wait)
    (hasleep : ∀ wait, (s'.calls thread).wait? = some wait → (s'.calls thread).locked? = none →
      wait.timeout ≠ .usec 0) : CondSound s' := by
  refine ⟨hnodup, fun cond other => ?_, fun cond other => ?_, fun other wait => ?_,
    fun other wait => ?_, fun other wait => ?_⟩
  · simp only [hnumbers.ready]
    by_cases hother : other = thread
    · subst hother
      exact hwaiter cond
    · rw [hwaiters cond other hother, hcalls other hother]
      exact h.waiter cond other
  · by_cases hother : other = thread
    · subst hother
      exact hlocked cond
    · rw [hlock cond other hother, hcalls other hother]
      exact h.locked cond other
  · rw [hnumbers.sequence, hnumbers.condSequence]
    by_cases hother : other = thread
    · subst hother
      exact hnoted wait
    · rw [hcalls other hother]
      exact h.noted other wait
  · rw [hnumbers.ready]
    by_cases hother : other = thread
    · subst hother
      exact hstill wait
    · rw [hcalls other hother]
      exact h.still other wait
  · by_cases hother : other = thread
    · subst hother
      exact hasleep wait
    · rw [hcalls other hother]
      exact h.asleep other wait

section Thread

variable [DecidableEq θ] [DecidableEq κ] {s s' : State θ μ κ} {thread : θ} {wait : Wait μ κ}
  {call : Call μ κ}

/-- A wait begins: the thread has the condition's `m`, and is a waiter. -/
theorem CondSound.enter (h : CondSound s) {cond : κ} {mutex : μ} (timeout : Timeout)
    (hcall : s.calls thread = .idle) (hlock : (s.conds cond).lock = none) :
    CondSound (((s.lockCond cond thread).condAddWaiter cond thread).setCall thread
      (.entered ⟨cond, mutex, timeout, (s.conds cond).sequence,
        (s.threads thread).condSequence⟩)) := by
  have hnot : ∀ any, thread ∉ (s.conds any).waiters := fun any hmem => by
    obtain ⟨w, hw, -⟩ := (h.waiter any thread).1 hmem
    rw [hcall] at hw
    cases hw
  have hfree : ∀ any, (s.conds any).lock ≠ some thread := fun any hmem => by
    obtain ⟨w, hw, -⟩ := (h.locked any thread).1 hmem
    rw [hcall] at hw
    cases hw
  generalize hwait : (⟨cond, mutex, timeout, (s.conds cond).sequence,
    (s.threads thread).condSequence⟩ : Wait μ κ) = wait
  have hready : ¬s.Ready thread wait := by
    subst hwait
    exact fun hready => hready.elim (· rfl) (· rfl)
  have hcond : wait.cond = cond := by rw [← hwait]
  generalize hs' : ((s.lockCond cond thread).condAddWaiter cond thread).setCall thread
    (.entered wait) = s'
  have hself : s'.conds cond =
      ⟨some thread, (s.conds cond).sequence, (s.conds cond).waiters ++ [thread]⟩ := by
    subst hs'
    simp [State.lockCond, State.condAddWaiter, State.setCond, State.setCall]
  have hconds : ∀ {any}, any ≠ cond → s'.conds any = s.conds any := fun hany => by
    subst hs'
    simp [State.lockCond, State.condAddWaiter, State.setCond, State.setCall, hany]
  have hcall' : s'.calls thread = .entered wait := by
    subst hs'
    exact Function.update_self ..
  refine h.alone thread ⟨fun any => ?_, fun any => ?_⟩ (fun other hother => ?_)
    (fun any => ?_) (fun any other hother => ?_) (fun any other hother => ?_) (fun any => ?_)
    (fun any => ?_) ?_ ?_ ?_
  · by_cases hany : any = cond
    · rw [hany, hself]
    · rw [hconds hany]
  · subst hs'
    by_cases hany : any = thread
    · subst hany
      simp [State.lockCond, State.condAddWaiter, State.setCond, State.setCall]
    · simp [State.lockCond, State.condAddWaiter, State.setCond, State.setCall, hany]
  · subst hs'
    exact Function.update_of_ne hother _ _
  · by_cases hany : any = cond
    · rw [hany, hself]
      exact List.Nodup.append (h.nodup cond) (List.nodup_singleton thread)
        (List.disjoint_singleton.2 (hnot cond))
    · rw [hconds hany]
      exact h.nodup any
  · by_cases hany : any = cond
    · rw [hany, hself]
      simp [hother]
    · rw [hconds hany]
  · by_cases hany : any = cond
    · rw [hany, hself, hlock]
      exact iff_of_false (fun hsome => hother (Option.some.inj hsome).symm) nofun
    · rw [hconds hany]
  · rw [hcall']
    by_cases hany : any = cond
    · rw [hany, hself]
      exact iff_of_true (List.mem_append_right _ (List.mem_singleton_self thread))
        ⟨wait, rfl, hcond, hready⟩
    · rw [hconds hany]
      refine iff_of_false (hnot any) ?_
      rintro ⟨_, hw, rfl, -⟩
      rw [← Option.some.inj hw] at hany
      exact hany hcond
  · rw [hcall']
    by_cases hany : any = cond
    · rw [hany, hself]
      exact iff_of_true rfl ⟨wait, rfl, hcond⟩
    · rw [hconds hany]
      refine iff_of_false (hfree any) ?_
      rintro ⟨_, hw, rfl⟩
      rw [← Option.some.inj hw] at hany
      exact hany hcond
  · rw [hcall']
    rintro _ ⟨⟩
    subst hwait
    exact ⟨Nat.le_refl _, Nat.le_refl _⟩
  · rw [hcall']
    rintro _ ⟨⟩
    exact hready
  · rw [hcall']
    exact fun _ _ hnone => nomatch hnone

section Unlock

omit [DecidableEq θ]

/-- A condition's `m` is given back. -/
theorem unlockCond_lock (s : State θ μ κ) (cond any : κ) :
    ((s.unlockCond cond).conds any).lock = if any = cond then none else (s.conds any).lock := by
  by_cases hany : any = cond
  · subst hany
    simp [State.unlockCond, State.setCond]
  · simp [State.unlockCond, State.setCond, hany]

theorem unlockCond_waiters (s : State θ μ κ) (cond any : κ) :
    ((s.unlockCond cond).conds any).waiters = (s.conds any).waiters := by
  by_cases hany : any = cond
  · subst hany
    simp [State.unlockCond, State.setCond]
  · simp [State.unlockCond, State.setCond, hany]

theorem unlockCond_sequence (s : State θ μ κ) (cond any : κ) :
    ((s.unlockCond cond).conds any).sequence = (s.conds any).sequence := by
  by_cases hany : any = cond
  · subst hany
    simp [State.unlockCond, State.setCond]
  · simp [State.unlockCond, State.setCond, hany]

/-- Nothing changes if nobody holds it. -/
theorem unlockCond_eq {cond : κ} (hlock : (s.conds cond).lock = none) : s.unlockCond cond = s := by
  have hsame : { s.conds cond with lock := none } = s.conds cond := by rw [← hlock]
  unfold State.unlockCond State.setCond
  rw [hsame, Function.update_eq_self]

/-- Only the thread of the wait can hold the condition's `m`, and afterwards nobody does. -/
theorem CondSound.unlock (h : CondSound s)
    (hheld : (s.conds wait.cond).lock = none ∨ (s.conds wait.cond).lock = some thread)
    (hwait : (s.calls thread).wait? = some wait) :
    (∀ any other, other ≠ thread →
      (((s.unlockCond wait.cond).conds any).lock = some other ↔
        (s.conds any).lock = some other)) ∧
      ∀ any, ((s.unlockCond wait.cond).conds any).lock ≠ some thread := by
  refine ⟨fun any other hother => ?_, fun any => ?_⟩
  · rw [unlockCond_lock]
    split
    · next hany =>
      rw [hany]
      refine iff_of_false nofun fun hsome => ?_
      rcases hheld with hnone | hself
      · cases hnone.symm.trans hsome
      · exact hother (Option.some.inj (hsome.symm.trans hself))
    · exact Iff.rfl
  · rw [unlockCond_lock]
    split
    · exact nofun
    · next hany =>
      intro hsome
      obtain ⟨w, hw, rfl⟩ := (h.locked any thread).1 hsome
      exact hany (congrArg Wait.cond (Option.some.inj ((Call.wait?_of_locked? hw).symm.trans hwait)))

end Unlock

/-- A wait that is not over sleeps, and has given the condition's `m` back. -/
theorem CondSound.settle (h : CondSound s)
    (hheld : (s.conds wait.cond).lock = none ∨ (s.conds wait.cond).lock = some thread)
    (hwait : (s.calls thread).wait? = some wait) (htimeout : wait.timeout ≠ .usec 0)
    (hcall : call.wait? = some wait) (hlocked : call.locked? = none) :
    CondSound ((s.setCall thread call).unlockCond wait.cond) := by
  obtain ⟨hothers, hself⟩ := h.unlock hheld hwait
  have hcall' : ((s.setCall thread call).unlockCond wait.cond).calls thread = call :=
    Function.update_self ..
  refine h.alone thread ⟨unlockCond_sequence _ _, fun _ => rfl⟩ (fun other hother => ?_)
    (fun any => ?_) (fun any other hother => ?_) hothers (fun any => ?_) (fun any => ?_) ?_ ?_ ?_
  · exact Function.update_of_ne hother _ _
  · rw [unlockCond_waiters]
    exact h.nodup any
  · rw [unlockCond_waiters]
    rfl
  · rw [unlockCond_waiters, hcall', hcall, ← hwait]
    exact h.waiter any thread
  · rw [hcall', hlocked]
    exact iff_of_false (hself any) fun ⟨_, hw, _⟩ => nomatch hw
  · rw [hcall', hcall, ← hwait]
    exact h.noted thread
  · rw [hcall', hlocked]
    exact nofun
  · rw [hcall', hcall]
    rintro _ ⟨⟩ -
    exact htimeout

/-- `CondRemoveWaiter` takes the thread out of the waiters, and counts no number up. -/
structure Removes (s s' : State θ μ κ) (cond : κ) (thread : θ) : Prop extends SameNumbers s s' where
  calls : s'.calls = s.calls
  lock : ∀ any, (s'.conds any).lock = (s.conds any).lock
  waiters_self : (s'.conds cond).waiters = (s.conds cond).waiters.erase thread
  waiters : ∀ any, any ≠ cond → (s'.conds any).waiters = (s.conds any).waiters

theorem condRemoveWaiter_removes (s : State θ μ κ) (cond : κ) (thread : θ) :
    Removes s (s.condRemoveWaiter cond thread) cond thread := by
  by_cases hmem : thread ∈ (s.conds cond).waiters
  · have heq : s.condRemoveWaiter cond thread =
        { s with
          threads := Function.update s.threads thread
            (State.Thread.leave (s.threads thread) cond)
          conds := Function.update s.conds cond
            { s.conds cond with waiters := (s.conds cond).waiters.erase thread } } := if_pos hmem
    rw [heq]
    refine ⟨⟨fun any => ?_, fun any => ?_⟩, rfl, fun any => ?_, ?_, fun any hany => ?_⟩
    · by_cases hany : any = cond
      · subst hany
        simp
      · simp [hany]
    · by_cases hany : any = thread
      · subst hany
        simp only [Function.update_self, State.Thread.leave]
        split
        · rfl
        · rfl
      · simp [hany]
    · by_cases hany : any = cond
      · subst hany
        simp
      · simp [hany]
    · simp
    · simp [hany]
  · have heq : s.condRemoveWaiter cond thread = s := if_neg hmem
    rw [heq]
    exact ⟨⟨fun _ => rfl, fun _ => rfl⟩, rfl, fun _ => rfl, (List.erase_of_not_mem hmem).symm,
      fun _ _ => rfl⟩

/-- A wait that is over: the thread waits no more, and has given the condition's `m` back. -/
theorem CondSound.leave (h : CondSound s)
    (hheld : (s.conds wait.cond).lock = none ∨ (s.conds wait.cond).lock = some thread)
    (hwait : (s.calls thread).wait? = some wait) (hcall : call.wait? = none)
    (hlocked : call.locked? = none) :
    CondSound (((s.condRemoveWaiter wait.cond thread).setCall thread call).unlockCond
      wait.cond) := by
  obtain ⟨hothers, hself⟩ := h.unlock hheld hwait
  have hremoves := condRemoveWaiter_removes s wait.cond thread
  generalize s.condRemoveWaiter wait.cond thread = s₁ at hremoves
  have hlock : ∀ any, (((s₁.setCall thread call).unlockCond wait.cond).conds any).lock =
      ((s.unlockCond wait.cond).conds any).lock := fun any => by
    rw [unlockCond_lock, unlockCond_lock]
    exact congrArg (ite _ _) (hremoves.lock any)
  have hcall' : ((s₁.setCall thread call).unlockCond wait.cond).calls thread = call :=
    Function.update_self ..
  -- the thread has been a waiter of this condition only
  have hwaiters : ∀ any other, other ∈ (s₁.conds any).waiters ↔
      other ≠ thread ∧ other ∈ (s.conds any).waiters := by
    intro any other
    by_cases hany : any = wait.cond
    · rw [hany, hremoves.waiters_self, (h.nodup _).mem_erase_iff]
    · rw [hremoves.waiters any hany]
      refine ⟨fun hmem => ⟨fun hother => ?_, hmem⟩, And.right⟩
      obtain ⟨w, hw, rfl, -⟩ := (h.waiter any other).1 hmem
      rw [hother, hwait] at hw
      exact hany (congrArg Wait.cond (Option.some.inj hw)).symm
  refine h.alone thread ⟨fun any => ?_, hremoves.condSequence⟩
    (fun other hother => ?_) (fun any => ?_) (fun any other hother => ?_)
    (fun any other hother => ?_) (fun any => ?_) (fun any => ?_) ?_ ?_ ?_
  · rw [unlockCond_sequence]
    exact hremoves.sequence any
  · exact (Function.update_of_ne hother _ _).trans (congrFun hremoves.calls other)
  · rw [unlockCond_waiters]
    show (s₁.conds any).waiters.Nodup
    by_cases hany : any = wait.cond
    · rw [hany, hremoves.waiters_self]
      exact (h.nodup _).erase thread
    · rw [hremoves.waiters any hany]
      exact h.nodup any
  · rw [unlockCond_waiters]
    exact (hwaiters any other).trans (and_iff_right hother)
  · rw [hlock]
    exact hothers any other hother
  · rw [unlockCond_waiters, hcall', hcall]
    exact iff_of_false (fun hmem => ((hwaiters any thread).1 hmem).1 rfl)
      fun ⟨_, hw, _⟩ => nomatch hw
  · rw [hlock, hcall', hlocked]
    exact iff_of_false (hself any) fun ⟨_, hw, _⟩ => nomatch hw
  · rw [hcall', hcall]
    exact nofun
  · rw [hcall', hlocked]
    exact nofun
  · rw [hcall', hcall]
    exact nofun

end Thread

end Prosperismo.Pthread
