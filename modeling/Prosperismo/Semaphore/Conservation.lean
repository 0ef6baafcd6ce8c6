import Prosperismo.Semaphore.Queue

/-!
# Semaphores conserve tokens

`Conserved` says what a semaphore promises between two states of a run: the count keeps its
bounds, it is balanced by the signals and the waits that have their tokens, a wait that has its
tokens keeps them and returns `Ok`, and no waiter is left that could be served.

The source does not keep the promise. `Signal` adds its argument without a look at its sign or
at the range of an `int`, so a signal of `-1` leaves a negative count (`signal_negative`). What
holds is that the sums of `Signal` are all that can go wrong: in every run whose signals add up
inside the range the promise is kept (`tokens_conserved`), and the first one that does not
leaves a negative count (`Sound.signal_out_of_range`).

The proof rests on one invariant, `Sound`, which adds the bounds of the count to the invariant of
the queue (`Waiters`), and on the balance of a single step, `Sound.balance`.
-/

namespace Prosperismo.Semaphore

variable {τ : Type}

/-! ### The invariant -/

/-- Between two steps. -/
structure Sound (s : State τ) : Prop where
  /-- The destructor has not run. -/
  status : s.sema.status = .set
  /-- `Cancel` may restore the initial count. -/
  init : 0 ≤ s.sema.initCount ∧ s.sema.initCount ≤ s.sema.maxCount
  nonneg : 0 ≤ s.sema.count
  le_max : s.sema.count ≤ s.sema.maxCount
  /-- A call has one waiter at most. -/
  nodup : (s.sema.waitingThreads.map (·.call)).Nodup
  /-- The call of a waiter sleeps. -/
  asleep : ∀ w ∈ s.sema.waitingThreads, ∃ micros, s.calls w.call = .waiting w.needCount micros
  /-- A call that sleeps has its waiter in the queue. -/
  queued : ∀ call needCount micros, s.calls call = .waiting needCount micros →
    ∃ w ∈ s.sema.waitingThreads, w.call = call
  need_pos : ∀ w ∈ s.sema.waitingThreads, 1 ≤ w.needCount
  /-- No waiter is left that could be served. -/
  starved : ∀ w ∈ s.sema.waitingThreads, w.ready = false → s.sema.count < w.needCount

theorem Sound.waiters {s : State τ} (h : Sound s) : Waiters s :=
  ⟨h.nodup, h.asleep, h.queued, h.need_pos, h.starved⟩

/-- The queue keeps its invariant by itself; the rest is about the count. -/
theorem Waiters.sound {s : State τ} (h : Waiters s) (hstatus : s.sema.status = .set)
    (hinit : 0 ≤ s.sema.initCount ∧ s.sema.initCount ≤ s.sema.maxCount)
    (hnonneg : 0 ≤ s.sema.count) (hle : s.sema.count ≤ s.sema.maxCount) : Sound s :=
  ⟨hstatus, hinit, hnonneg, hle, h.nodup, h.asleep, h.queued, h.need_pos, h.starved⟩

theorem Sound.not_deleted {s : State τ} (h : Sound s) : ¬s.sema.status = .deleted := by
  rw [h.status]
  decide

theorem Sound.new {name : Option String} {attr : ℕ} {init max : ℤ} {sema : KernelSema τ}
    (h : kernelCreateSema name attr init max = some sema) : Sound (State.new sema) := by
  unfold kernelCreateSema at h
  split at h
  · cases h
  · next hargs =>
    obtain rfl := Option.some.inj h
    push Not at hargs
    exact (Waiters.new rfl).sound rfl ⟨hargs.2.2.1, hargs.2.2.2.2⟩ hargs.2.2.1 hargs.2.2.2.2

/-- A call of `Wait` returns at once, having taken tokens or not. -/
theorem Sound.returned [DecidableEq τ] {s : State τ} (h : Sound s) {call : τ}
    (hcall : s.calls call = .fresh) (needCount : ℤ) (result : Result) (micros : Option ℕ)
    {count : ℤ} (hnonneg : 0 ≤ count) (hle : count ≤ s.sema.count) :
    Sound (s.after call (.returned needCount result micros, { s.sema with count := count })) :=
  (h.waiters.returned hcall needCount result micros hle).sound h.status h.init hnonneg
    (hle.trans h.le_max)

/-- A sleeping call returns. -/
theorem Sound.removed [DecidableEq τ] {s : State τ} (h : Sound s) {call : τ} {needCount : ℤ}
    {result : Result} {micros : Option ℕ} :
    Sound (s.after call (.returned needCount result micros, s.sema.removeWaiter call)) :=
  h.waiters.removed.sound h.status h.init h.nonneg h.le_max

/-- `WakeWaiters` after a new count. -/
theorem Sound.woken {s : State τ} (h : Sound s) {count : ℤ} (hnonneg : 0 ≤ count)
    (hle : count ≤ s.sema.maxCount) :
    Sound ⟨KernelSema.wakeWaiters { s.sema with count := count }, s.calls⟩ :=
  (h.waiters.woken count).sound h.status h.init (wake_nonneg hnonneg _)
    ((wake_le h.need_pos count).trans hle)

/-- `Cancel` with an admissible count. -/
theorem Sound.canceled {s : State τ} (h : Sound s) {count : ℤ} (hnonneg : 0 ≤ count)
    (hle : count ≤ s.sema.maxCount) :
    Sound ⟨{ s.sema with
      count := count
      waitingThreads := s.sema.waitingThreads.map WaitingThread.cancel }, s.calls⟩ :=
  (h.waiters.canceled count).sound h.status h.init hnonneg hle

/-! ### Steps keep the invariant -/

/-- A sum in range is not wrapped. -/
theorem wrapInt_of_range {x : ℤ} (hnonneg : 0 ≤ x) (hle : x ≤ intMax) : wrapInt x = x := by
  unfold intMax at hle
  exact Int.bmod_eq_of_le (by omega) (by omega)

theorem Sound.signal {s : State τ} (h : Sound s) {signalCount : ℤ}
    (hnonneg : 0 ≤ s.sema.count + signalCount) (hle : s.sema.count + signalCount ≤ intMax) :
    Sound ⟨(s.sema.signal signalCount).2, s.calls⟩ := by
  rw [KernelSema.signal, if_neg h.not_deleted, wrapInt_of_range hnonneg hle]
  split
  · exact h
  · next hmax => exact h.woken hnonneg (not_lt.1 hmax)

theorem Sound.cancel {s : State τ} (h : Sound s) (setCount : ℤ) :
    Sound ⟨(s.sema.cancel setCount).2.2, s.calls⟩ := by
  unfold KernelSema.cancel
  split
  · exact h
  · next hmax =>
    rw [if_neg h.not_deleted]
    dsimp only
    split
    · exact h.canceled h.init.1 h.init.2
    · next hneg => exact h.canceled (not_lt.1 hneg) (not_lt.1 hmax)

theorem Sound.wait [DecidableEq τ] {s : State τ} (h : Sound s) {call : τ}
    (hcall : s.calls call = .fresh) (needCount : ℤ) (micros : Option ℕ) (priority : ℤ) :
    Sound (s.after call (s.sema.wait call needCount micros priority)) := by
  unfold KernelSema.wait
  split
  · exact h.returned hcall _ _ _ h.nonneg le_rfl
  · next hneed =>
    obtain ⟨hpos, -⟩ := not_or.1 hneed
    rw [if_neg h.not_deleted]
    split
    · -- the tokens are taken at once
      next henough => exact h.returned hcall _ _ _ (by linarith) (by linarith)
    · next hfew =>
      split
      · exact h.returned hcall _ _ _ h.nonneg le_rfl
      · have hslept := h.waiters.slept hcall (if s.sema.fifoOrder then 0 else priority) .timedOut
          micros (not_lt.1 hpos) (not_le.1 hfew)
        exact hslept.sound h.status h.init h.nonneg h.le_max

theorem Sound.resume [DecidableEq τ] {s : State τ} (h : Sound s) {w : WaitingThread τ}
    {micros : Option ℕ} (hcall : s.calls w.call = .waiting w.needCount micros) (elapsed : ℕ) :
    Sound (s.after w.call (s.sema.resume w micros elapsed)) := by
  -- a call that goes back to sleep changes nothing
  have hsleep : s.after w.call (.waiting w.needCount micros, s.sema) = s := by
    rw [State.after, ← hcall, Function.update_eq_self]
  unfold KernelSema.resume
  split
  · exact h.removed
  · cases micros with
    | none => exact hsleep.symm ▸ h
    | some limit =>
      dsimp only
      split
      · exact h.removed
      · exact hsleep.symm ▸ h

/-- **One step keeps the invariant**, if a signal adds up in range. -/
theorem Sound.step [DecidableEq τ] {s s' : State τ} {a : Action τ} (h : Sound s)
    (hstep : StepInRange s a s') : Sound s' := by
  obtain ⟨hstep, hrange⟩ := hstep
  cases hstep with
  | wait needCount micros priority hcall => exact h.wait hcall needCount micros priority
  | resume elapsed hcall hwaiter => exact h.resume hcall elapsed
  | signal signalCount =>
    obtain ⟨hnonneg, hle⟩ := hrange _ _ rfl
    exact h.signal hnonneg hle
  | cancel setCount => exact h.cancel setCount

/-- **The condition is exact**: a signal of an `int` that does not add up in range leaves a
negative count. -/
theorem Sound.signal_out_of_range {s : State τ} (h : Sound s) (hmax : s.sema.maxCount ≤ intMax)
    {signalCount : ℤ} (hint : -intMax - 1 ≤ signalCount ∧ signalCount ≤ intMax)
    (hrange : ¬(0 ≤ s.sema.count + signalCount ∧ s.sema.count + signalCount ≤ intMax)) :
    (s.sema.signal signalCount).2.count < 0 := by
  have hcount := h.nonneg
  have hle := h.le_max
  unfold intMax at hmax hint hrange
  -- the wrapped sum is negative, and so passes the test against the maximum
  have hneg : wrapInt (s.sema.count + signalCount) < 0 := by
    unfold wrapInt
    rw [Int.bmod_def]
    split <;> omega
  have haccept : ¬s.sema.maxCount < wrapInt (s.sema.count + signalCount) := by linarith
  rw [KernelSema.signal, if_neg h.not_deleted, if_neg haccept]
  exact lt_of_le_of_lt (wake_le h.need_pos _) hneg

/-! ### The balance -/

/-- What an action adds to the count, if it is a signal that is accepted. -/
def Action.accepted : Action τ → ℤ
  | .signal signalCount .ok => signalCount
  | _ => 0

/-- An accepted `Cancel`. -/
def Action.Cancels : Action τ → Prop
  | .cancel _ .ok _ => True
  | _ => False

/-- `accepted` tokens have come in between the two states, and those that are not there any more
have been given to the calls that have theirs now and had not before. -/
def Balanced (s : State τ) (accepted : ℤ) (s' : State τ) : Prop :=
  ∃ calls : List τ, calls.Nodup ∧ (∀ call, call ∈ calls ↔ s'.Granted call ∧ ¬s.Granted call) ∧
    s'.sema.count = s.sema.count + accepted - (calls.map s'.needCount).sum

/-- What a step can do to a call that has its tokens: nothing. -/
def Kept (s s' : State τ) : Prop :=
  ∀ call, s.Granted call → s'.Granted call ∧ s'.needCount call = s.needCount call

theorem Kept.trans {s s' s'' : State τ} (h : Kept s s') (h' : Kept s' s'') : Kept s s'' :=
  fun call hcall =>
    have ⟨hgranted, hneed⟩ := h call hcall
    ⟨(h' call hgranted).1, (h' call hgranted).2.trans hneed⟩

theorem Balanced.refl (s : State τ) : Balanced s 0 s :=
  ⟨[], List.nodup_nil, fun _ => ⟨fun h => absurd h List.not_mem_nil, fun h => absurd h.1 h.2⟩,
    by simp⟩

theorem Balanced.trans {s s' s'' : State τ} {accepted accepted' : ℤ} (h : Balanced s accepted s')
    (h' : Balanced s' accepted' s'') (hkept : Kept s s') (hkept' : Kept s' s'') :
    Balanced s (accepted + accepted') s'' := by
  obtain ⟨calls, hnodup, hcalls, hcount⟩ := h
  obtain ⟨calls', hnodup', hcalls', hcount'⟩ := h'
  refine ⟨calls ++ calls', ?_, fun call => ?_, ?_⟩
  · refine List.nodup_append.2 ⟨hnodup, hnodup', ?_⟩
    rintro call hmem _ hmem' rfl
    -- what was granted between the first two states is not granted again
    exact ((hcalls' call).1 hmem').2 ((hcalls call).1 hmem).1
  · rw [List.mem_append, hcalls, hcalls']
    constructor
    · rintro (⟨hgranted, hnot⟩ | ⟨hgranted, hnot⟩)
      · exact ⟨(hkept' call hgranted).1, hnot⟩
      · exact ⟨hgranted, fun hbefore => hnot (hkept call hbefore).1⟩
    · rintro ⟨hgranted, hnot⟩
      by_cases hbetween : s'.Granted call
      · exact .inl ⟨hbetween, hnot⟩
      · exact .inr ⟨hgranted, hbetween⟩
  · have hneed : calls.map s''.needCount = calls.map s'.needCount :=
      List.map_congr_left fun call hmem => (hkept' call ((hcalls call).1 hmem).1).2
    rw [List.map_append, List.sum_append, hneed, hcount', hcount]
    omega

/-- A step that grants nothing and takes nothing. -/
theorem Balanced.of_iff {s s' : State τ} {accepted : ℤ}
    (hgranted : ∀ call, s'.Granted call ↔ s.Granted call)
    (hcount : s'.sema.count = s.sema.count + accepted) : Balanced s accepted s' := by
  refine ⟨[], List.nodup_nil, fun call => ?_, by simpa using hcount⟩
  rw [hgranted]
  exact ⟨fun h => absurd h List.not_mem_nil, fun h => absurd h.1 h.2⟩

section Grants

variable [DecidableEq τ] {s : State τ}

/-- What a call does to itself keeps the tokens of the other calls. -/
theorem Kept.after {call : τ} {outcome : Call × KernelSema τ}
    (hqueue : ∀ w : WaitingThread τ, w.call ≠ call →
      (w ∈ outcome.2.waitingThreads ↔ w ∈ s.sema.waitingThreads))
    (hcall : s.Granted call → (s.after call outcome).Granted call ∧
      (s.after call outcome).needCount call = s.needCount call) :
    Kept s (s.after call outcome) := by
  intro c hgranted
  rcases eq_or_ne c call with rfl | hne
  · exact hcall hgranted
  · exact ⟨(granted_after_of_ne hne hqueue).2 hgranted, State.after_needCount_of_ne hne⟩

/-- A call that grants itself nothing is balanced. -/
theorem Balanced.after {call : τ} {outcome : Call × KernelSema τ}
    (hqueue : ∀ w : WaitingThread τ, w.call ≠ call →
      (w ∈ outcome.2.waitingThreads ↔ w ∈ s.sema.waitingThreads))
    (hcall : (s.after call outcome).Granted call ↔ s.Granted call)
    (hcount : outcome.2.count = s.sema.count) : Balanced s 0 (s.after call outcome) := by
  refine .of_iff (fun c => ?_) (hcount.trans (add_zero _).symm)
  rcases eq_or_ne c call with rfl | hne
  · exact hcall
  · exact granted_after_of_ne hne hqueue

/-- A call of `Wait` that finds enough tokens takes them. -/
theorem balanced_taken (h : Sound s) {call : τ} (hcall : s.calls call = .fresh) {needCount : ℤ}
    {micros : Option ℕ} (henough : needCount ≤ s.sema.count) (hpos : 0 ≤ needCount) :
    Balanced s 0 (s.after call
      (.returned needCount .ok micros, { s.sema with count := s.sema.count - needCount })) := by
  have hsound := h.returned hcall needCount .ok micros (sub_nonneg.2 henough)
    (sub_le_self _ hpos)
  have hgranted := (hsound.waiters.granted_returned State.after_calls_self).2 rfl
  refine ⟨[call], List.nodup_singleton call, fun c => ?_, ?_⟩
  · rw [List.mem_singleton]
    constructor
    · rintro rfl
      exact ⟨hgranted, h.waiters.not_granted_fresh hcall⟩
    · rintro ⟨hafter, hnot⟩
      by_contra hne
      exact hnot ((granted_after_of_ne hne fun w _ => Iff.rfl).1 hafter)
  · simp [State.after, State.needCount]

/-- `Wait` up to its first sleep. -/
theorem Sound.wait_balanced (h : Sound s) {call : τ} (hcall : s.calls call = .fresh)
    (needCount : ℤ) (micros : Option ℕ) (priority : ℤ) :
    Balanced s 0 (s.after call (s.sema.wait call needCount micros priority)) := by
  have hsound := h.wait hcall needCount micros priority
  have hbefore := h.waiters.not_granted_fresh hcall
  unfold KernelSema.wait at hsound ⊢
  -- a call that returns something else than `Ok` changes nothing
  have hrefused : ∀ result, result ≠ .ok →
      Balanced s 0 (s.after call (.returned needCount result micros, s.sema)) := by
    intro result hresult
    refine .after (fun w _ => Iff.rfl) (iff_of_false ?_ hbefore) rfl
    have hafter := h.returned hcall needCount result micros h.nonneg le_rfl
    have hiff := hafter.waiters.granted_returned State.after_calls_self
    exact fun hgranted => hresult (hiff.1 hgranted)
  split
  · exact hrefused _ (by decide)
  · next hneed =>
    obtain ⟨hpos, -⟩ := not_or.1 hneed
    rw [if_neg h.not_deleted]
    split
    · next henough => exact balanced_taken h hcall henough (by linarith)
    · next hfew =>
      split
      · exact hrefused _ (by decide)
      · have hslept := h.waiters.slept hcall (if s.sema.fifoOrder then 0 else priority) .timedOut
          micros (not_lt.1 hpos) (not_le.1 hfew)
        refine .after (fun w hne => ?_) (iff_of_false ?_ hbefore) rfl
        · rw [mem_addWaiter]
          exact or_iff_right fun hw => hne (congrArg WaitingThread.call hw)
        · have hw := (hslept.granted_waiter (mem_addWaiter.2 (.inl rfl))).1
          exact fun hgranted => Bool.false_ne_true (hw hgranted).1

theorem KernelSema.resume_needCount {sema : KernelSema τ} (w : WaitingThread τ)
    (micros : Option ℕ) (elapsed : ℕ) :
    (∃ left, (sema.resume w micros elapsed).1 = .waiting w.needCount left) ∨
      ∃ result left, (sema.resume w micros elapsed).1 = .returned w.needCount result left := by
  unfold resume
  split
  · exact .inr ⟨_, _, rfl⟩
  · cases micros with
    | none => exact .inl ⟨_, rfl⟩
    | some limit =>
      dsimp only
      split
      · exact .inr ⟨_, _, rfl⟩
      · exact .inl ⟨_, rfl⟩

/-- `Wait` from one sleep to the next, or to its end. -/
theorem Sound.resume_kept (h : Sound s) {w : WaitingThread τ} {micros : Option ℕ}
    (hw : w ∈ s.sema.waitingThreads)
    (hcall : s.calls w.call = .waiting w.needCount micros) (elapsed : ℕ) :
    Balanced s 0 (s.after w.call (s.sema.resume w micros elapsed)) ∧
      Kept s (s.after w.call (s.sema.resume w micros elapsed)) := by
  have hgranted := h.waiters.resume_granted hw hcall elapsed
  have hqueue := fun w' : WaitingThread τ => @Waiters.mem_resume τ _ s h.waiters w micros elapsed w'
  have hneed : (s.after w.call (s.sema.resume w micros elapsed)).needCount w.call =
      s.needCount w.call := by
    unfold State.needCount
    rw [State.after_calls_self, hcall]
    rcases s.sema.resume_needCount w micros elapsed with ⟨left, hout⟩ | ⟨result, left, hout⟩ <;>
      rw [hout]
  refine ⟨.after hqueue hgranted ?_, .after hqueue fun hbefore => ⟨hgranted.2 hbefore, hneed⟩⟩
  rcases s.sema.resume_frame w micros elapsed with hsame | hremoved
  · rw [hsame]
  · rw [hremoved]
    rfl

/-- `Wait` takes no tokens from another call. -/
theorem Sound.wait_kept (h : Sound s) {call : τ} (hcall : s.calls call = .fresh)
    (needCount : ℤ) (micros : Option ℕ) (priority : ℤ) :
    Kept s (s.after call (s.sema.wait call needCount micros priority)) :=
  .after (fun _ hne => mem_wait hne) fun hbefore =>
    absurd hbefore (h.waiters.not_granted_fresh hcall)

end Grants

/-- `WakeWaiters` after `accepted` tokens have come in. -/
theorem Sound.woken_balanced {s : State τ} (h : Sound s) (accepted : ℤ) :
    Balanced s accepted
      ⟨KernelSema.wakeWaiters { s.sema with count := s.sema.count + accepted }, s.calls⟩ := by
  set count := s.sema.count + accepted
  have hsublist := (served_sublist count s.sema.waitingThreads).trans List.filter_sublist
  refine ⟨(served count s.sema.waitingThreads).map (·.call),
    h.nodup.sublist (hsublist.map _), fun call => ?_, ?_⟩
  · rw [h.waiters.granted_woken]
    constructor
    · exact fun hserved => ⟨.inr hserved, h.waiters.not_granted_served hserved⟩
    · rintro ⟨hbefore | hserved, hnot⟩
      · exact absurd hbefore hnot
      · exact hserved
  · -- a waiter's call has the waiter's need
    have hneeds : ∀ w ∈ served count s.sema.waitingThreads,
        State.needCount ⟨KernelSema.wakeWaiters { s.sema with count := count }, s.calls⟩ w.call =
          w.needCount := by
      intro w hw
      obtain ⟨micros, hmicros⟩ := h.asleep w (hsublist.subset hw)
      simp only [State.needCount, hmicros]
    rw [List.map_map, List.map_congr_left (g := fun w => w.needCount) hneeds]
    exact wake_count count s.sema.waitingThreads

/-! ### Runs -/

/-- **The balance of one step** whose sum, if it is a signal, is in range. -/
theorem Sound.balance [DecidableEq τ] {s s' : State τ} {a : Action τ} (h : Sound s)
    (hstep : StepInRange s a s') (hcancel : ¬a.Cancels) : Balanced s a.accepted s' := by
  obtain ⟨hstep, hrange⟩ := hstep
  cases hstep with
  | wait needCount micros priority hcall => exact h.wait_balanced hcall needCount micros priority
  | resume elapsed hcall hwaiter => exact (h.resume_kept hwaiter hcall elapsed).1
  | signal signalCount =>
    obtain ⟨hnonneg, hle⟩ := hrange _ _ rfl
    rw [KernelSema.signal, if_neg h.not_deleted, wrapInt_of_range hnonneg hle]
    split
    · exact .of_iff (fun _ => Iff.rfl) (add_zero _).symm
    · exact h.woken_balanced signalCount
  | cancel setCount =>
    -- the cancel is refused: nothing happens
    unfold KernelSema.cancel at hcancel ⊢
    split
    · exact .of_iff (fun _ => Iff.rfl) (add_zero _).symm
    · next hmax =>
      rw [if_neg hmax, if_neg h.not_deleted] at hcancel
      exact absurd trivial hcancel

/-- **A call that has its tokens keeps them**, whatever happens. -/
theorem Sound.kept [DecidableEq τ] {s s' : State τ} {a : Action τ} (h : Sound s)
    (hstep : Step s a s') : Kept s s' := by
  cases hstep with
  | wait needCount micros priority hcall => exact h.wait_kept hcall needCount micros priority
  | resume elapsed hcall hwaiter => exact (h.resume_kept hwaiter hcall elapsed).2
  | signal signalCount =>
    intro call hgranted
    rw [KernelSema.signal, if_neg h.not_deleted]
    split
    · exact ⟨hgranted, rfl⟩
    · exact ⟨(h.waiters.granted_woken _ call).2 (.inl hgranted), rfl⟩
  | cancel setCount =>
    intro call hgranted
    unfold KernelSema.cancel
    split
    · exact ⟨hgranted, rfl⟩
    · rw [if_neg h.not_deleted]
      exact ⟨(granted_canceled call).2 hgranted, rfl⟩

/-- What a semaphore promises at the end of a run from `s` by `actions` to `s'`. -/
structure Conserved [DecidableEq τ] (s : State τ) (actions : List (Action τ)) (s' : State τ) :
    Prop where
  nonneg : 0 ≤ s'.sema.count
  le_max : s'.sema.count ≤ s'.sema.maxCount
  /-- Without a `Cancel` in between, what was accepted and has not been given away is there. -/
  balanced : (∀ a ∈ actions, ¬a.Cancels) → Balanced s (actions.map Action.accepted).sum s'
  /-- A call that has its tokens keeps them. -/
  kept : Kept s s'
  /-- A call that has its tokens returns `Ok` when it runs next, however late that is. -/
  returnsOk : ∀ call elapsed s'', s'.Granted call → Step s' (.resume call elapsed) s'' →
    ∃ needCount micros, s''.calls call = .returned needCount .ok micros
  /-- A call that sleeps can run. -/
  runs : ∀ call needCount micros, s'.calls call = .waiting needCount micros →
    ∀ elapsed, ∃ s'', Step s' (.resume call elapsed) s''
  /-- No waiter without a result could be served. -/
  starved : ∀ w ∈ s'.sema.waitingThreads, w.ready = false → s'.sema.count < w.needCount

theorem Sound.returnsOk [DecidableEq τ] {s s' : State τ} (h : Sound s) {call : τ} {elapsed : ℕ}
    (hgranted : s.Granted call) (hstep : Step s (.resume call elapsed) s') :
    ∃ needCount micros, s'.calls call = .returned needCount .ok micros := by
  cases hstep with
  | @resume w micros _ hcall hw =>
    obtain ⟨hready, hok⟩ := (h.waiters.granted_waiter hw).1 hgranted
    refine ⟨w.needCount, micros.map (· - elapsed), ?_⟩
    rw [State.after_calls_self]
    unfold KernelSema.resume
    rw [if_pos hready, hok]

theorem Sound.runs [DecidableEq τ] {s : State τ} (h : Sound s) {call : τ} {needCount : ℤ}
    {micros : Option ℕ} (hcall : s.calls call = .waiting needCount micros) (elapsed : ℕ) :
    ∃ s', Step s (.resume call elapsed) s' := by
  obtain ⟨w, hw, rfl⟩ := h.queued call needCount micros hcall
  obtain ⟨micros, hmicros⟩ := h.asleep w hw
  exact ⟨_, .resume elapsed hmicros hw⟩

/-- The invariant and the balance of a run. -/
theorem Sound.run [DecidableEq τ] {s s' : State τ} {actions : List (Action τ)} (h : Sound s)
    (hrun : Run StepInRange s actions s') :
    Sound s' ∧ Kept s s' ∧
      ((∀ a ∈ actions, ¬a.Cancels) → Balanced s (actions.map Action.accepted).sum s') := by
  induction hrun with
  | nil => exact ⟨h, fun call hcall => ⟨hcall, rfl⟩, fun _ => .refl _⟩
  | @snoc s₁ s₂ as a _ hlast ih =>
    obtain ⟨hsound, hkept, hbalanced⟩ := ih
    refine ⟨hsound.step hlast, hkept.trans (hsound.kept hlast.1), fun hcancel => ?_⟩
    have hfirst := hbalanced fun b hb => hcancel b (List.mem_append_left _ hb)
    have hsecond := hsound.balance hlast (hcancel a (List.mem_append_right _ List.mem_cons_self))
    rw [List.map_append, List.sum_append, List.map_singleton, List.sum_singleton]
    exact hfirst.trans hsecond hkept (hsound.kept hlast.1)

/-- **Semaphores conserve tokens** in every run whose signals add up in range: between any two
of its states the count is in its bounds and balanced, a wait that has its tokens returns `Ok`,
and no waiter is left that could be served. -/
theorem tokens_conserved [DecidableEq τ] {name : Option String} {attr : ℕ} {init max : ℤ}
    {sema : KernelSema τ} {earlier actions : List (Action τ)} {s s' : State τ}
    (hcreate : kernelCreateSema name attr init max = some sema)
    (hearlier : Run StepInRange (State.new sema) earlier s)
    (hrun : Run StepInRange s actions s') : Conserved s actions s' := by
  have hsound := ((Sound.new hcreate).run hearlier).1
  obtain ⟨hsound', hkept, hbalanced⟩ := hsound.run hrun
  exact
    { nonneg := hsound'.nonneg
      le_max := hsound'.le_max
      balanced := hbalanced
      kept := hkept
      returnsOk := fun _ _ _ => hsound'.returnsOk
      runs := fun _ _ _ => hsound'.runs
      starved := hsound'.starved }

/-- A semaphore of one token that nobody has: a call waits for it, a signal gives it to the call,
and the call returns after its time. -/
theorem tokens_conserved_handover :
    ∃ s s' s'' : State ℕ, Step s' (.resume 0 9) s'' ∧ s''.calls 0 = .returned 1 .ok (some 0) ∧
      Conserved s [.signal 1 .ok] s' := by
  let sema : KernelSema ℕ := ⟨.set, [], true, 0, 0, 1⟩
  let s := (State.new sema).after 0 (sema.wait 0 1 (some 5) 700)
  let s' : State ℕ := ⟨(s.sema.signal 1).2, s.calls⟩
  have hwait : Step (State.new sema) (.wait 0 1 (some 5) 700) s := .wait 1 (some 5) 700 rfl
  have hsignal : Step s (.signal 1 .ok) s' := .signal 1
  have hresume : Step s' (.resume 0 9) _ :=
    @Step.resume ℕ _ s' ⟨0, 0, 1, .ok, true⟩ (some 5) 9 rfl List.mem_cons_self
  refine ⟨s, s', _, hresume, rfl, tokens_conserved (show kernelCreateSema (some "sema") 1 0 1 =
    some sema from rfl) (.single ⟨hwait, ?_⟩) (.single ⟨hsignal, ?_⟩)⟩
  · rintro signalCount result hsame
    cases hsame
  · rintro signalCount result hsame
    cases hsame
    exact ⟨by decide, by decide⟩

/-- **The semaphore does not keep its promise**: a signal of `-1` takes a token that is not
there. -/
theorem signal_negative :
    ¬∀ (sema : KernelSema ℕ) (earlier actions : List (Action ℕ)) (s s' : State ℕ),
      kernelCreateSema (some "sema") 1 0 1 = some sema →
      Run Step (State.new sema) earlier s → Run Step s actions s' → Conserved s actions s' := by
  intro h
  have hrun : Run Step (State.new (τ := ℕ) ⟨.set, [], true, 0, 0, 1⟩) [.signal (-1) .ok]
      ⟨⟨.set, [], true, -1, 0, 1⟩, fun _ => .fresh⟩ := .single (.signal (-1))
  have hnonneg := (h _ _ _ _ _ rfl (.nil _) hrun).nonneg
  exact absurd hnonneg (by decide)

end Prosperismo.Semaphore
