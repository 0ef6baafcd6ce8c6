import Mathlib.Data.Set.Card
import Prosperismo.EventFlag.Model

/-!
# Event flags are safe outside the window of a `Cancel`

`Safe` says what an event flag promises between two states of a run: a call returns `Ok` only
when its condition holds, those that wait when `Cancel` runs are canceled, a wait that starts
after the `Cancel` is not, a single-thread flag has one waiter, the waiters are counted, and a
`Cancel` that polls has woken everybody it polls for.

The flag does not keep the promise. `Set`, `Clear` and `Cancel` let a `Cancel` that polls finish
first, but `Wait` does not look at the status before it goes to sleep. A call that goes to sleep
in the window is canceled when its time is over (`cancel_catches_late_wait`), and the `Cancel`
polls for a thread that it has not woken. What holds is that these calls are all that can go
wrong: in every run where a `Wait` goes to sleep only while the status is `Set`, the promise is
kept (`flag_safe`).
-/

namespace Prosperismo.EventFlag

variable {τ : Type}

/-! ### The loop of `Wait` -/

/-- The three ways through the head of the loop. -/
theorem KernelEventFlag.check_cases (s : KernelEventFlag) (args : WaitArgs) (elapsed : ℕ) :
    (args.Holds s.bits ∧ s.check args elapsed =
        (args.finish .ok s.bits elapsed, { s with bits := args.clear s.bits })) ∨
      (¬args.Holds s.bits ∧ args.Expired elapsed ∧
        s.check args elapsed = (args.finish .timedOut s.bits elapsed, s)) ∨
      (¬args.Holds s.bits ∧ ¬args.Expired elapsed ∧ s.check args elapsed =
        (.waiting args false, { s with waitingThreads := s.waitingThreads + 1 })) := by
  unfold check
  split
  · next hholds => exact .inl ⟨hholds, rfl⟩
  · next hholds =>
    split
    · next hexpired => exact .inr (.inl ⟨hholds, hexpired, rfl⟩)
    · next hexpired => exact .inr (.inr ⟨hholds, hexpired, rfl⟩)

/-- The head of the loop leaves the status, and the kind of the flag. -/
theorem KernelEventFlag.check_frame (s : KernelEventFlag) (args : WaitArgs) (elapsed : ℕ) :
    (s.check args elapsed).2.status = s.status ∧
      (s.check args elapsed).2.singleThread = s.singleThread := by
  rcases s.check_cases args elapsed with ⟨-, h⟩ | ⟨-, -, h⟩ | ⟨-, -, h⟩ <;>
    rw [h] <;> exact ⟨rfl, rfl⟩

theorem KernelEventFlag.wait_frame (s : KernelEventFlag) (args : WaitArgs) :
    (s.wait args).2.status = s.status ∧ (s.wait args).2.singleThread = s.singleThread := by
  unfold wait
  split
  · exact ⟨rfl, rfl⟩
  · exact s.check_frame args 0

/-- The flag for a call that has left the condition wait. -/
def KernelEventFlag.awake (s : KernelEventFlag) : KernelEventFlag :=
  { s with waitingThreads := s.waitingThreads - 1 }

/-- What a call does when it wakes up depends on the status alone. -/
theorem KernelEventFlag.resume_cases (s : KernelEventFlag) (args : WaitArgs) (elapsed : ℕ) :
    (s.status = .canceled ∧
        s.resume args elapsed = (args.finish .canceled s.bits elapsed, s.awake)) ∨
      (s.status = .deleted ∧
        s.resume args elapsed = (args.finish .deleted s.bits elapsed, s.awake)) ∨
      (s.status = .set ∧ s.resume args elapsed = s.awake.check args elapsed) := by
  unfold resume
  dsimp only
  split
  · next h => exact .inl ⟨h, rfl⟩
  · next h => exact .inr (.inl ⟨h, rfl⟩)
  · next h => exact .inr (.inr ⟨h, rfl⟩)

theorem KernelEventFlag.resume_frame (s : KernelEventFlag) (args : WaitArgs) (elapsed : ℕ) :
    (s.resume args elapsed).2.status = s.status ∧
      (s.resume args elapsed).2.singleThread = s.singleThread := by
  rcases s.resume_cases args elapsed with ⟨-, h⟩ | ⟨-, h⟩ | ⟨-, h⟩
  · rw [h]
    exact ⟨rfl, rfl⟩
  · rw [h]
    exact ⟨rfl, rfl⟩
  · rw [h]
    exact s.awake.check_frame args elapsed

/-! ### The sleeping calls -/

/-- The calls in the condition wait. -/
def State.sleepers (s : State τ) : Set τ :=
  {call | s.Sleeps call}

theorem State.not_sleeps {s : State τ} {call : τ} (hcall : s.calls call = .fresh) :
    call ∉ s.sleepers := by
  rintro ⟨args, signaled, hwaiting⟩
  rw [hcall] at hwaiting
  cases hwaiting

/-- A signal wakes nobody up at once. -/
theorem State.signalAll_sleepers (s : State τ) : s.signalAll.sleepers = s.sleepers := by
  ext call
  constructor
  · rintro ⟨args, signaled, hcall⟩
    unfold signalAll at hcall
    dsimp only at hcall
    split at hcall
    · next args' signaled' hbefore => exact ⟨args', signaled', hbefore⟩
    · exact ⟨args, signaled, hcall⟩
  · rintro ⟨args, signaled, hcall⟩
    refine ⟨args, true, ?_⟩
    unfold signalAll
    simp only [hcall]

/-- Everybody who sleeps has been signaled. -/
theorem State.signalAll_signaled {s : State τ} {call : τ} {args : WaitArgs} {signaled : Bool}
    (h : s.signalAll.calls call = .waiting args signaled) : signaled = true := by
  unfold signalAll at h
  dsimp only at h
  split at h
  · exact (Call.waiting.inj h).2.symm
  · next hother => exact absurd h (hother args signaled)

/-- A call that has returned is not touched by a signal. -/
theorem State.signalAll_returned {s : State τ} {call : τ} {args : WaitArgs} {result : Result}
    {stored : Option (BitVec 64)} {micros : Option ℕ} :
    s.signalAll.calls call = .returned args result stored micros ↔
      s.calls call = .returned args result stored micros := by
  unfold signalAll
  dsimp only
  split
  · next hbefore =>
    rw [hbefore]
    exact iff_of_false (fun h => nomatch h) fun h => nomatch h
  · exact Iff.rfl

section Calls

variable [DecidableEq τ] {s : State τ} {call : τ}

@[simp] theorem State.after_calls_self {outcome : Call × KernelEventFlag} :
    (s.after call outcome).calls call = outcome.1 :=
  Function.update_self call _ _

theorem State.after_calls_of_ne {c : τ} {outcome : Call × KernelEventFlag} (h : c ≠ call) :
    (s.after call outcome).calls c = s.calls c :=
  Function.update_of_ne h _ _

/-- A call that has returned does not sleep. -/
theorem State.after_returned_sleepers {args : WaitArgs} {result : Result}
    {stored : Option (BitVec 64)} {micros : Option ℕ} {flag : KernelEventFlag} :
    (s.after call (.returned args result stored micros, flag)).sleepers = s.sleepers \ {call} := by
  ext c
  rcases eq_or_ne c call with rfl | hne
  · refine iff_of_false ?_ fun h => h.2 rfl
    rintro ⟨args, signaled, hwaiting⟩
    rw [State.after_calls_self] at hwaiting
    cases hwaiting
  · constructor
    · rintro ⟨args, signaled, hwaiting⟩
      exact ⟨⟨args, signaled, (State.after_calls_of_ne hne).symm.trans hwaiting⟩, hne⟩
    · rintro ⟨⟨args, signaled, hwaiting⟩, -⟩
      exact ⟨args, signaled, (State.after_calls_of_ne hne).trans hwaiting⟩

/-- A call that goes to sleep sleeps. -/
theorem State.after_waiting_sleepers {args : WaitArgs} {signaled : Bool} {flag : KernelEventFlag} :
    (s.after call (.waiting args signaled, flag)).sleepers = insert call s.sleepers := by
  ext c
  rcases eq_or_ne c call with rfl | hne
  · exact iff_of_true ⟨args, signaled, State.after_calls_self⟩ (Set.mem_insert c _)
  · rw [Set.mem_insert_iff, or_iff_right hne]
    constructor
    · rintro ⟨args, signaled, hwaiting⟩
      exact ⟨args, signaled, (State.after_calls_of_ne hne).symm.trans hwaiting⟩
    · rintro ⟨args, signaled, hwaiting⟩
      exact ⟨args, signaled, (State.after_calls_of_ne hne).trans hwaiting⟩

/-- The head of the loop keeps the number of waiters, if it is right without the call itself. -/
theorem check_count {flag : KernelEventFlag} {args : WaitArgs} {elapsed : ℕ}
    (h : (s.sleepers \ {call}).encard = flag.waitingThreads) :
    (s.after call (flag.check args elapsed)).sleepers.encard =
      (flag.check args elapsed).2.waitingThreads := by
  rcases flag.check_cases args elapsed with ⟨-, hcheck⟩ | ⟨-, -, hcheck⟩ | ⟨-, -, hcheck⟩
  · rw [hcheck]
    exact (congrArg Set.encard State.after_returned_sleepers).trans h
  · rw [hcheck]
    exact (congrArg Set.encard State.after_returned_sleepers).trans h
  · rw [hcheck, State.after_waiting_sleepers, ← Set.insert_sdiff_singleton,
      Set.encard_insert_of_notMem fun hmem => hmem.2 rfl, h]
    rfl

end Calls

/-! ### The invariant -/

/-- Between two steps, however they were made. -/
structure Sound (s : State τ) : Prop where
  /-- `m_waiting_threads` counts the calls in the condition wait. -/
  count : s.sleepers.encard = s.flag.waitingThreads
  single : s.flag.singleThread = true → s.flag.waitingThreads ≤ 1
  /-- The status is `Canceled` exactly while one `Cancel` polls. -/
  polling : s.flag.status = .set ∧ s.polling = 0 ∨ s.flag.status = .canceled ∧ s.polling = 1

/-- The calls that sleep while a `Cancel` polls have been signaled. -/
def Notified (s : State τ) : Prop :=
  s.flag.status = .canceled →
    ∀ call args signaled, s.calls call = .waiting args signaled → signaled = true

theorem Sound.new (singleThread : Bool) (bits : BitVec 64) :
    Sound (State.new singleThread bits : State τ) where
  count := by
    have hnone : (State.new singleThread bits : State τ).sleepers = ∅ :=
      Set.eq_empty_iff_forall_notMem.2 fun call => State.not_sleeps rfl
    rw [hnone, Set.encard_empty]
    rfl
  single _ := Nat.zero_le 1
  polling := .inl ⟨rfl, rfl⟩

section Steps

variable [DecidableEq τ] {s : State τ}

/-- The head of the loop puts one call to sleep at most. -/
theorem KernelEventFlag.check_waiting_le (s : KernelEventFlag) (args : WaitArgs) (elapsed : ℕ) :
    (s.check args elapsed).2.waitingThreads ≤ s.waitingThreads + 1 := by
  rcases s.check_cases args elapsed with ⟨-, h⟩ | ⟨-, -, h⟩ | ⟨-, -, h⟩ <;> rw [h]
  · exact Nat.le_succ _
  · exact Nat.le_succ _

theorem Sound.wait (h : Sound s) {call : τ} (hcall : s.calls call = .fresh) (args : WaitArgs) :
    Sound (s.after call (s.flag.wait args)) where
  count := by
    have hothers : s.sleepers \ {call} = s.sleepers :=
      Set.sdiff_singleton_eq_self (State.not_sleeps hcall)
    unfold KernelEventFlag.wait
    split
    · rw [State.after_returned_sleepers, hothers]
      exact h.count
    · exact check_count (hothers.symm ▸ h.count)
  single hsingle := by
    have hbefore : s.flag.singleThread = true := (s.flag.wait_frame args).2.symm.trans hsingle
    change (s.flag.wait args).2.waitingThreads ≤ 1
    unfold KernelEventFlag.wait
    split
    · exact h.single hbefore
    · next hfree =>
      have hnone : s.flag.waitingThreads = 0 :=
        Nat.eq_zero_of_not_pos fun hpos => hfree ⟨hbefore, hpos⟩
      exact (s.flag.check_waiting_le args 0).trans (by rw [hnone])
  polling := by
    change (s.flag.wait args).2.status = _ ∧ _ ∨ (s.flag.wait args).2.status = _ ∧ _
    rw [(s.flag.wait_frame args).1]
    exact h.polling

theorem Sound.resume (h : Sound s) {call : τ} {args : WaitArgs} {signaled : Bool}
    (hcall : s.calls call = .waiting args signaled) (elapsed : ℕ) :
    Sound (s.after call (s.flag.resume args elapsed)) := by
  have hmem : call ∈ s.sleepers := ⟨args, signaled, hcall⟩
  -- the call is one of those counted
  have hothers : (s.sleepers \ {call}).encard = s.flag.awake.waitingThreads := by
    rw [Set.encard_sdiff_singleton_of_mem hmem, h.count]
    rfl
  have hpos : 0 < s.flag.waitingThreads := by
    have hne := Set.encard_ne_zero_of_mem hmem
    rw [h.count] at hne
    exact Nat.pos_of_ne_zero fun hzero => hne (by rw [hzero]; rfl)
  refine
    { count := ?_
      single := fun hsingle => ?_
      polling := ?_ }
  · rcases s.flag.resume_cases args elapsed with ⟨-, hr⟩ | ⟨-, hr⟩ | ⟨-, hr⟩
    · rw [hr]
      exact (congrArg Set.encard State.after_returned_sleepers).trans hothers
    · rw [hr]
      exact (congrArg Set.encard State.after_returned_sleepers).trans hothers
    · rw [hr]
      exact check_count hothers
  · have hbefore := h.single ((s.flag.resume_frame args elapsed).2.symm.trans hsingle)
    have hawake : s.flag.awake.waitingThreads = s.flag.waitingThreads - 1 := rfl
    change (s.flag.resume args elapsed).2.waitingThreads ≤ 1
    rcases s.flag.resume_cases args elapsed with ⟨-, hr⟩ | ⟨-, hr⟩ | ⟨-, hr⟩
    · rw [hr]
      exact (Nat.sub_le _ _).trans hbefore
    · rw [hr]
      exact (Nat.sub_le _ _).trans hbefore
    · rw [hr]
      exact (s.flag.awake.check_waiting_le args elapsed).trans (by omega)
  · change (s.flag.resume args elapsed).2.status = _ ∧ _ ∨
      (s.flag.resume args elapsed).2.status = _ ∧ _
    rw [(s.flag.resume_frame args elapsed).1]
    exact h.polling

omit [DecidableEq τ] in
theorem Sound.cancel (h : Sound s) (hstatus : s.flag.status = .set) (bits : BitVec 64) :
    Sound (s.cancel bits) := by
  have hpolling : s.polling = 0 := by
    rcases h.polling with ⟨-, hzero⟩ | ⟨hcanceled, -⟩
    · exact hzero
    · cases hstatus.symm.trans hcanceled
  unfold State.cancel
  split
  · exact
      { count := (congrArg Set.encard (State.signalAll_sleepers _)).trans h.count
        single := h.single
        polling := .inr ⟨rfl, congrArg (· + 1) hpolling⟩ }
  · exact
      { count := (congrArg Set.encard (State.signalAll_sleepers _)).trans h.count
        single := h.single
        polling := .inl ⟨hstatus, hpolling⟩ }

/-- **One step keeps the invariant**. -/
theorem Sound.step {s' : State τ} {a : Action τ} (h : Sound s) (hstep : Step s a s') :
    Sound s' := by
  cases hstep with
  | wait args hcall => exact h.wait hcall args
  | resume elapsed hcall => exact h.resume hcall elapsed
  | setBits bits hstatus =>
    exact
      { count := (congrArg Set.encard (State.signalAll_sleepers _)).trans h.count
        single := h.single
        polling := h.polling }
  | clearBits bits hstatus =>
    exact
      { count := h.count
        single := h.single
        polling := h.polling }
  | cancel bits hstatus => exact h.cancel hstatus bits
  | cancelDone hpolling hnone =>
    refine
      { count := h.count
        single := h.single
        polling := .inl ⟨rfl, ?_⟩ }
    change s.polling - 1 = 0
    rcases h.polling with ⟨-, hzero⟩ | ⟨-, hone⟩ <;> omega

/-! ### Calls that are canceled -/

/-- The call has been canceled, or sleeps while the status says so. -/
def State.CanceledCall (s : State τ) (call : τ) : Prop :=
  (s.Sleeps call ∧ s.flag.status = .canceled) ∨
    ∃ args stored micros, s.calls call = .returned args .canceled stored micros

/-- A call that wakes up while the status is `Canceled` returns just that. -/
theorem resume_canceled {call : τ} {args : WaitArgs} {elapsed : ℕ}
    (hstatus : s.flag.status = .canceled) :
    ∃ stored micros, (s.after call (s.flag.resume args elapsed)).calls call =
      .returned args .canceled stored micros := by
  refine ⟨some s.flag.bits, args.micros.map (· - elapsed), ?_⟩
  rw [State.after_calls_self]
  rcases s.flag.resume_cases args elapsed with ⟨-, hr⟩ | ⟨hdeleted, -⟩ | ⟨hset, -⟩
  · rw [hr]
    rfl
  · cases hstatus.symm.trans hdeleted
  · cases hstatus.symm.trans hset

/-- **A canceled call stays canceled**: nothing else can happen to it. -/
theorem Sound.canceledCall (h : Sound s) {s' : State τ} {a : Action τ} (hstep : Step s a s')
    {call : τ} (hcall : s.CanceledCall call) : s'.CanceledCall call := by
  cases hstep with
  | @wait c args hfresh =>
    -- the call is not a new one
    have hne : call ≠ c := by
      rintro rfl
      rcases hcall with ⟨hsleeps, -⟩ | ⟨args, stored, micros, hreturned⟩
      · exact State.not_sleeps hfresh hsleeps
      · cases hfresh.symm.trans hreturned
    have hsame : (s.after c (s.flag.wait args)).calls call = s.calls call :=
      State.after_calls_of_ne hne
    refine hcall.imp (fun ⟨⟨args, signaled, hwaiting⟩, hstatus⟩ => ?_)
      fun ⟨args, stored, micros, hreturned⟩ => ⟨args, stored, micros, hsame.trans hreturned⟩
    exact ⟨⟨args, signaled, hsame.trans hwaiting⟩, (s.flag.wait_frame _).1.trans hstatus⟩
  | @resume c args signaled elapsed hwaiting =>
    rcases eq_or_ne call c with rfl | hne
    · rcases hcall with ⟨-, hstatus⟩ | ⟨args, stored, micros, hreturned⟩
      · exact .inr ⟨args, resume_canceled hstatus⟩
      · cases hwaiting.symm.trans hreturned
    · have hsame : (s.after c (s.flag.resume args elapsed)).calls call = s.calls call :=
        State.after_calls_of_ne hne
      refine hcall.imp (fun ⟨⟨args, signaled, hwaiting⟩, hstatus⟩ => ?_)
        fun ⟨args, stored, micros, hreturned⟩ => ⟨args, stored, micros, hsame.trans hreturned⟩
      exact ⟨⟨args, signaled, hsame.trans hwaiting⟩, (s.flag.resume_frame _ _).1.trans hstatus⟩
  | setBits bits hset =>
    rcases hcall with ⟨-, hstatus⟩ | ⟨args, stored, micros, hreturned⟩
    · cases hset.symm.trans hstatus
    · exact .inr ⟨args, stored, micros, State.signalAll_returned.2 hreturned⟩
  | clearBits bits hset =>
    rcases hcall with ⟨-, hstatus⟩ | hreturned
    · cases hset.symm.trans hstatus
    · exact .inr hreturned
  | cancel bits hset =>
    rcases hcall with ⟨-, hstatus⟩ | ⟨args, stored, micros, hreturned⟩
    · cases hset.symm.trans hstatus
    · refine .inr ⟨args, stored, micros, ?_⟩
      unfold State.cancel
      split <;> exact State.signalAll_returned.2 hreturned
  | cancelDone hpolling hnone =>
    rcases hcall with ⟨hsleeps, -⟩ | hreturned
    · -- the poll does not end while the call sleeps
      have hne := Set.encard_ne_zero_of_mem (show call ∈ s.sleepers from hsleeps)
      rw [h.count, hnone] at hne
      exact absurd rfl hne
    · exact .inr hreturned

omit [DecidableEq τ] in
/-- Whoever sleeps when `Cancel` runs is canceled. -/
theorem Sound.cancel_canceledCall (h : Sound s) {call : τ} (hsleeps : s.Sleeps call)
    (bits : BitVec 64) : (s.cancel bits).CanceledCall call := by
  have hpos : 0 < s.flag.waitingThreads := by
    have hne := Set.encard_ne_zero_of_mem (show call ∈ s.sleepers from hsleeps)
    rw [h.count] at hne
    exact Nat.pos_of_ne_zero fun hzero => hne (by rw [hzero]; rfl)
  unfold State.cancel
  rw [if_pos hpos]
  exact .inl ⟨(Set.ext_iff.1 (State.signalAll_sleepers _) call).2 hsleeps, rfl⟩

/-! ### Calls that start outside the window -/

/-- A call that may return without a sleep does. -/
theorem wait_immediate {flag : KernelEventFlag} {args : WaitArgs} (h : flag.Immediate args)
    (args' : WaitArgs) (signaled : Bool) : (flag.wait args).1 ≠ .waiting args' signaled := by
  unfold KernelEventFlag.wait
  split
  · exact fun h => nomatch h
  · next hfree =>
    rcases flag.check_cases args 0 with ⟨-, hc⟩ | ⟨-, -, hc⟩ | ⟨hholds, hexpired, -⟩
    · rw [hc]
      exact fun h => nomatch h
    · rw [hc]
      exact fun h => nomatch h
    · rcases h with hsingle | hheld | hzero
      · exact absurd hsingle hfree
      · exact absurd hheld hholds
      · exact absurd ⟨0, hzero, le_rfl⟩ hexpired

/-- A step outside the window keeps the sleeping calls signaled while a `Cancel` polls. -/
theorem Notified.step {s' : State τ} {a : Action τ} (h : Notified s) (hstep : StepSet s a s') :
    Notified s' := by
  obtain ⟨hstep, hwindow⟩ := hstep
  intro hstatus c args signaled hwaiting
  cases hstep with
  | @wait call args' hfresh =>
    have hbefore : s.flag.status = .canceled := (s.flag.wait_frame args').1.symm.trans hstatus
    have himmediate : s.flag.Immediate args' := by
      rcases hwindow call args' rfl with hset | himmediate
      · cases hbefore.symm.trans hset
      · exact himmediate
    rcases eq_or_ne c call with rfl | hne
    · rw [State.after_calls_self] at hwaiting
      exact absurd hwaiting (wait_immediate himmediate args signaled)
    · exact h hbefore c args signaled ((State.after_calls_of_ne hne).symm.trans hwaiting)
  | @resume call args' signaled' elapsed hcall =>
    have hbefore : s.flag.status = .canceled :=
      (s.flag.resume_frame args' elapsed).1.symm.trans hstatus
    rcases eq_or_ne c call with rfl | hne
    · obtain ⟨stored, micros, hreturned⟩ := resume_canceled hbefore
      cases hreturned.symm.trans hwaiting
    · exact h hbefore c args signaled ((State.after_calls_of_ne hne).symm.trans hwaiting)
  | setBits bits hset => exact State.signalAll_signaled hwaiting
  | clearBits bits hset => cases hset.symm.trans hstatus
  | cancel bits hset =>
    unfold State.cancel at hwaiting
    split at hwaiting <;> exact State.signalAll_signaled hwaiting
  | cancelDone => cases hstatus

/-- `Cancel`. -/
def Action.Cancels : Action τ → Prop
  | .cancel _ _ => True
  | _ => False

/-- A call that starts outside the window sleeps outside the window, until the next `Cancel`. -/
theorem started_step {s' : State τ} {a : Action τ} (hstep : StepSet s a s') (hcancel : ¬a.Cancels)
    {call : τ} (h : s.Sleeps call → s.flag.status = .set) :
    s'.Sleeps call → s'.flag.status = .set := by
  obtain ⟨hstep, hwindow⟩ := hstep
  rintro ⟨args, signaled, hwaiting⟩
  cases hstep with
  | @wait c args' hfresh =>
    refine (s.flag.wait_frame args').1.trans ?_
    rcases eq_or_ne call c with rfl | hne
    · rcases hwindow call args' rfl with hset | himmediate
      · exact hset
      · rw [State.after_calls_self] at hwaiting
        exact absurd hwaiting (wait_immediate himmediate args signaled)
    · exact h ⟨args, signaled, (State.after_calls_of_ne hne).symm.trans hwaiting⟩
  | @resume c args' signaled' elapsed hcall =>
    refine (s.flag.resume_frame args' elapsed).1.trans (h ?_)
    rcases eq_or_ne call c with rfl | hne
    · exact ⟨args', signaled', hcall⟩
    · exact ⟨args, signaled, (State.after_calls_of_ne hne).symm.trans hwaiting⟩
  | setBits bits hset => exact hset
  | clearBits bits hset => exact hset
  | cancel bits hset => exact absurd trivial hcancel
  | cancelDone => rfl

/-- A call whose time is over, and whose condition does not hold, times out if the status is
`Set`. -/
theorem resume_timedOut {call : τ} {args : WaitArgs} {elapsed : ℕ} (hstatus : s.flag.status = .set)
    (hexpired : args.Expired elapsed) (hholds : ¬args.Holds s.flag.bits) :
    ∃ stored micros, (s.after call (s.flag.resume args elapsed)).calls call =
      .returned args .timedOut stored micros := by
  refine ⟨some s.flag.bits, args.micros.map (· - elapsed), ?_⟩
  rw [State.after_calls_self]
  rcases s.flag.resume_cases args elapsed with ⟨hcanceled, -⟩ | ⟨hdeleted, -⟩ | ⟨-, hr⟩
  · cases hstatus.symm.trans hcanceled
  · cases hstatus.symm.trans hdeleted
  · rcases s.flag.awake.check_cases args elapsed with ⟨hheld, -⟩ | ⟨-, -, hc⟩ | ⟨-, hleft, -⟩
    · exact absurd hheld hholds
    · rw [hr, hc]
      rfl
    · exact absurd hexpired hleft

end Steps

/-! ### Calls that return `Ok` -/

/-- The head of the loop returns `Ok` only where the condition holds, and clears there and
then. -/
theorem check_ok {flag : KernelEventFlag} {args args' : WaitArgs} {elapsed : ℕ}
    {stored : Option (BitVec 64)} {micros : Option ℕ}
    (h : (flag.check args elapsed).1 = .returned args' .ok stored micros) :
    args'.Holds flag.bits ∧ stored = some flag.bits ∧
      (flag.check args elapsed).2.bits = args'.clear flag.bits := by
  rcases flag.check_cases args elapsed with ⟨hholds, hc⟩ | ⟨-, -, hc⟩ | ⟨-, -, hc⟩
  · rw [hc] at h ⊢
    obtain ⟨rfl, -, rfl, -⟩ := Call.returned.inj h
    exact ⟨hholds, rfl, rfl⟩
  · rw [hc] at h
    cases h
  · rw [hc] at h
    cases h

/-- **`Ok` is deserved**: a step in which a call returns `Ok` is made while its condition holds,
and clears the bits. -/
theorem Step.okHeld [DecidableEq τ] {s s' : State τ} {a : Action τ} (hstep : Step s a s')
    {call : τ} {args : WaitArgs} {stored : Option (BitVec 64)} {micros : Option ℕ}
    (h : s'.calls call = .returned args .ok stored micros) :
    s.calls call = .returned args .ok stored micros ∨
      (args.Holds s.flag.bits ∧ stored = some s.flag.bits ∧
        s'.flag.bits = args.clear s.flag.bits) := by
  cases hstep with
  | @wait c args' hfresh =>
    rcases eq_or_ne call c with rfl | hne
    · rw [State.after_calls_self] at h
      change _ ∨ args.Holds s.flag.bits ∧ _ ∧ (s.flag.wait args').2.bits = _
      unfold KernelEventFlag.wait at h ⊢
      split at h
      · cases h
      · next hfree =>
        rw [if_neg hfree]
        exact .inr (check_ok h)
    · exact .inl ((State.after_calls_of_ne hne).symm.trans h)
  | @resume c args' signaled elapsed hcall =>
    rcases eq_or_ne call c with rfl | hne
    · rw [State.after_calls_self] at h
      change _ ∨ args.Holds s.flag.bits ∧ _ ∧ (s.flag.resume args' elapsed).2.bits = _
      rcases s.flag.resume_cases args' elapsed with ⟨-, hr⟩ | ⟨-, hr⟩ | ⟨-, hr⟩
      · rw [hr] at h
        cases h
      · rw [hr] at h
        cases h
      · rw [hr] at h ⊢
        exact .inr (check_ok h)
    · exact .inl ((State.after_calls_of_ne hne).symm.trans h)
  | setBits bits => exact .inl (State.signalAll_returned.1 h)
  | clearBits bits => exact .inl h
  | cancel bits =>
    unfold State.cancel at h
    split at h <;> exact .inl (State.signalAll_returned.1 h)
  | cancelDone => exact .inl h

/-! ### The main result -/

/-- What an event flag promises at the end of a run from `s` by `since` to `s'`. -/
structure Safe [DecidableEq τ] (s : State τ) (since : List (Action τ)) (s' : State τ) : Prop where
  /-- A call returns `Ok` only in a step in which its condition holds, and the bits that it
  clears are cleared in that step. -/
  okHeld : ∀ a s'' call args stored micros, Step s' a s'' →
    s''.calls call = .returned args .ok stored micros →
      s'.calls call = .returned args .ok stored micros ∨
        (args.Holds s'.flag.bits ∧ stored = some s'.flag.bits ∧
          s''.flag.bits = args.clear s'.flag.bits)
  /-- A call that waits when a `Cancel` runs is canceled: it has returned `Canceled`, or will. -/
  canceled : ∀ call bits threads rest, since = .cancel bits threads :: rest → s.Sleeps call →
    s'.CanceledCall call ∧ ∀ elapsed s'', Step s' (.resume call elapsed) s'' →
      ∃ args stored micros, s''.calls call = .returned args .canceled stored micros
  /-- A call that starts after `s`, and is overtaken by no `Cancel`, times out when its time is
  over. -/
  timedOut : ∀ call args signaled elapsed s'', s.calls call = .fresh →
    (∀ a ∈ since, ¬a.Cancels) → s'.calls call = .waiting args signaled → args.Expired elapsed →
      ¬args.Holds s'.flag.bits → Step s' (.resume call elapsed) s'' →
        ∃ stored micros, s''.calls call = .returned args .timedOut stored micros
  /-- A single-thread flag has one waiter at most. -/
  single : s'.flag.singleThread = true →
    ∀ call call', s'.Sleeps call → s'.Sleeps call' → call = call'
  /-- `m_waiting_threads` counts the calls in the condition wait. -/
  count : s'.sleepers.encard = s'.flag.waitingThreads
  /-- While a `Cancel` polls, nobody sleeps who has not been signaled. -/
  notified : 0 < s'.polling →
    ∀ call args signaled, s'.calls call = .waiting args signaled → signaled = true

/-- Two calls that sleep are the same, if one at most does. -/
theorem Sound.single_unique {s : State τ} (h : Sound s) (hsingle : s.flag.singleThread = true)
    {call call' : τ} (hcall : s.Sleeps call) (hcall' : s.Sleeps call') : call = call' := by
  have hle : s.sleepers.encard ≤ 1 := by
    rw [h.count]
    exact_mod_cast h.single hsingle
  exact Set.encard_le_one_iff.1 hle call call' hcall hcall'

/-- What a run in which no `Wait` goes to sleep in the window keeps. -/
theorem Sound.run [DecidableEq τ] {s s' : State τ} {since : List (Action τ)} (h : Sound s)
    (hnotified : Notified s) (hrun : Run StepSet s since s') : Sound s' ∧ Notified s' :=
  hrun.invariant (I := fun s => Sound s ∧ Notified s) ⟨h, hnotified⟩
    fun _ _ _ hinv hstep => ⟨hinv.1.step hstep.1, hinv.2.step hstep⟩

/-- A call that has been canceled stays so along a run. -/
theorem Sound.run_canceledCall [DecidableEq τ] {s s' : State τ} {since : List (Action τ)}
    (h : Sound s) (hrun : Run Step s since s') {call : τ} (hcall : s.CanceledCall call) :
    s'.CanceledCall call := by
  have hinv := hrun.invariant (I := fun s => Sound s ∧ s.CanceledCall call) ⟨h, hcall⟩
    fun _ _ _ hinv hstep => ⟨hinv.1.step hstep, hinv.1.canceledCall hstep hinv.2⟩
  exact hinv.2

/-- The step in which a canceled call returns. -/
theorem State.CanceledCall.resume [DecidableEq τ] {s s' : State τ} {call : τ} {elapsed : ℕ}
    (h : s.CanceledCall call) (hstep : Step s (.resume call elapsed) s') :
    ∃ args stored micros, s'.calls call = .returned args .canceled stored micros := by
  cases hstep with
  | @resume _ args signaled _ hcall =>
    rcases h with ⟨-, hstatus⟩ | ⟨args', stored, micros, hreturned⟩
    · exact ⟨args, resume_canceled hstatus⟩
    · cases hcall.symm.trans hreturned

/-- A call that starts in a run without a `Cancel` sleeps outside the window. -/
theorem run_started [DecidableEq τ] {s s' : State τ} {since : List (Action τ)}
    (hrun : Run StepSet s since s') (hcancel : ∀ a ∈ since, ¬a.Cancels) {call : τ}
    (hfresh : s.calls call = .fresh) : s'.Sleeps call → s'.flag.status = .set := by
  induction hrun with
  | nil => exact fun hsleeps => absurd hsleeps (State.not_sleeps hfresh)
  | snoc _ hlast ih =>
    have hbefore := ih fun a ha => hcancel a (List.mem_append_left _ ha)
    exact started_step hlast (hcancel _ (List.mem_append_right _ List.mem_cons_self)) hbefore

/-- **Event flags are safe** in every run in which a `Wait` goes to sleep only while the status
is `Set`. -/
theorem flag_safe [DecidableEq τ] {singleThread : Bool} {bits : BitVec 64}
    {earlier since : List (Action τ)} {s s' : State τ}
    (hearlier : Run StepSet (State.new singleThread bits) earlier s)
    (hsince : Run StepSet s since s') : Safe s since s' := by
  have hnew : Notified (State.new singleThread bits : State τ) := fun hstatus => nomatch hstatus
  obtain ⟨hsound, hnotified⟩ := (Sound.new singleThread bits).run hnew hearlier
  obtain ⟨hsound', hnotified'⟩ := hsound.run hnotified hsince
  refine
    { okHeld := fun _ _ _ _ _ _ hstep => hstep.okHeld
      canceled := fun call bits threads rest hrest hsleeps => ?_
      timedOut := fun call args signaled elapsed s'' hfresh hcancel hcall hexpired hholds hstep => ?_
      single := fun hsingle _ _ => hsound'.single_unique hsingle
      count := hsound'.count
      notified := fun hpolling => hnotified' ?_ }
  · subst hrest
    obtain ⟨s₁, hfirst, hrun⟩ := (hsince.mono fun _ _ _ hstep => hstep.1).uncons
    have hcanceled : s₁.CanceledCall call := by
      cases hfirst with
      | cancel => exact hsound.cancel_canceledCall hsleeps bits
    have hlater := (hsound.step hfirst).run_canceledCall hrun hcanceled
    exact ⟨hlater, fun _ _ => hlater.resume⟩
  · have hset := run_started hsince hcancel hfresh ⟨args, signaled, hcall⟩
    cases hstep with
    | @resume _ args' _ _ hcall' =>
      obtain ⟨rfl, -⟩ := Call.waiting.inj (hcall.symm.trans hcall')
      exact resume_timedOut hset hexpired hholds
  · rcases hsound'.polling with ⟨-, hzero⟩ | ⟨hstatus, -⟩
    · omega
    · exact hstatus

/-- A `Cancel` while a call waits, and the call wakes up. -/
theorem flag_safe_canceled :
    ∃ s s' : State ℕ, s.Sleeps 0 ∧ Safe s [.cancel 0 1, .resume 0 9, .cancelDone] s' := by
  let args : WaitArgs := ⟨1, .and, .none, none⟩
  let s : State ℕ :=
    ⟨⟨.set, 1, true, 0⟩, Function.update (fun _ => .fresh) 0 (.waiting args false), 0⟩
  let s₁ := s.cancel 0
  let s₂ := s₁.after 0 (s₁.flag.resume args 9)
  have hwait : Step (State.new true 0) (.wait 0 ⟨1, .and, .none, none⟩) s := .wait _ rfl
  have hcancel : Step s (.cancel 0 1) s₁ := @Step.cancel ℕ _ s 0 rfl
  have hresume : Step s₁ (.resume 0 9) s₂ := @Step.resume ℕ _ s₁ 0 args true 9 rfl
  have hdone : Step s₂ .cancelDone s₂.cancelDone := .cancelDone Nat.one_pos rfl
  refine ⟨s, s₂.cancelDone, ⟨args, false, rfl⟩, flag_safe (.single ⟨hwait, fun _ _ _ => .inl rfl⟩)
    (.snoc (.snoc (.single ⟨hcancel, ?_⟩) ⟨hresume, ?_⟩) ⟨hdone, ?_⟩)⟩
  · exact fun _ _ h => nomatch h
  · exact fun _ _ h => nomatch h
  · exact fun _ _ h => nomatch h

/-- **The window catches late waits**: call `1` starts to wait after the `Cancel` took effect,
only its own time runs out, and it is canceled. -/
theorem cancel_catches_late_wait :
    ¬∀ (singleThread : Bool) (bits : BitVec 64) (earlier since : List (Action ℕ))
      (s s' : State ℕ), Run Step (State.new singleThread bits) earlier s → Run Step s since s' →
        Safe s since s' := by
  intro h
  let forever : WaitArgs := ⟨1, .and, .none, none⟩
  let late : WaitArgs := ⟨1, .and, .none, some 5⟩
  let s₁ : State ℕ :=
    ⟨⟨.set, 1, false, 0⟩, Function.update (fun _ => .fresh) 0 (.waiting forever false), 0⟩
  let s := s₁.cancel 0
  let s' : State ℕ :=
    ⟨⟨.canceled, 2, false, 0⟩, Function.update s.calls 1 (.waiting late false), 1⟩
  let s'' := s'.after 1 (s'.flag.resume late 5)
  have hwait : Step (State.new false 0) (.wait 0 ⟨1, .and, .none, none⟩) s₁ := .wait _ rfl
  have hcancel : Step s₁ (.cancel 0 1) s := @Step.cancel ℕ _ s₁ 0 rfl
  have hsleeps : (⟨.canceled, 1, false, 0⟩ : KernelEventFlag).wait ⟨1, .and, .none, some 5⟩ =
      (.waiting ⟨1, .and, .none, some 5⟩ false, ⟨.canceled, 2, false, 0⟩) := rfl
  have hlate : Step s (.wait 1 late) (s.after 1 (s.flag.wait late)) := .wait late rfl
  rw [show s.flag.wait late = (.waiting late false, ⟨.canceled, 2, false, 0⟩) from hsleeps] at hlate
  have hresume : Step s' (.resume 1 5) s'' := @Step.resume ℕ _ s' 1 late false 5 rfl
  have hsafe := h false 0 _ _ s s' (.snoc (.single hwait) hcancel) (.single hlate)
  obtain ⟨stored, micros, hreturned⟩ := hsafe.timedOut 1 late false 5 s'' rfl
    (fun a ha hcancels => by
      rw [List.mem_singleton] at ha
      rw [ha] at hcancels
      exact hcancels)
    rfl ⟨5, rfl, le_rfl⟩ (by decide) hresume
  cases hreturned

end Prosperismo.EventFlag
