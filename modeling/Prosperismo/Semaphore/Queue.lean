import Mathlib.Algebra.Order.BigOperators.Group.List
import Mathlib.Data.List.Nodup
import Mathlib.Tactic.Linarith
import Prosperismo.Semaphore.Model

/-!
# The queue of a semaphore

What `WakeWaiters` does to the queue, and the invariant of it that every step keeps, whatever the
counts are (`Waiters`): a call that sleeps has one waiter, and no waiter is left that could be
served. A call has its tokens (`State.Granted`) when it has returned `Ok` or its waiter has been
given them.
-/

namespace Prosperismo.Semaphore

variable {τ : Type}

/-! ### The queue -/

/-- The waiters that `WakeWaiters` gives their tokens. -/
def served (count : ℤ) : List (WaitingThread τ) → List (WaitingThread τ)
  | [] => []
  | waiter :: rest =>
    if waiter.ready = false ∧ waiter.needCount ≤ count then
      waiter :: served (count - waiter.needCount) rest
    else served count rest

theorem wake_serve {count : ℤ} {waiter : WaitingThread τ} {rest : List (WaitingThread τ)}
    (h : waiter.ready = false ∧ waiter.needCount ≤ count) :
    wake count (waiter :: rest) =
      ((wake (count - waiter.needCount) rest).1,
        waiter.grant :: (wake (count - waiter.needCount) rest).2) := by
  rw [wake, if_pos h]

theorem wake_skip {count : ℤ} {waiter : WaitingThread τ} {rest : List (WaitingThread τ)}
    (h : ¬(waiter.ready = false ∧ waiter.needCount ≤ count)) :
    wake count (waiter :: rest) = ((wake count rest).1, waiter :: (wake count rest).2) := by
  rw [wake, if_neg h]

/-- Only waiters without a result are served. -/
theorem served_sublist (count : ℤ) (queue : List (WaitingThread τ)) :
    (served count queue).Sublist (queue.filter fun waiter => !waiter.ready) := by
  induction queue generalizing count with
  | nil => exact .slnil
  | cons waiter rest ih =>
    by_cases h : waiter.ready = false ∧ waiter.needCount ≤ count
    · rw [served, if_pos h, List.filter_cons_of_pos (by simp [h.1])]
      exact (ih _).cons_cons waiter
    · rw [served, if_neg h]
      refine (ih _).trans ?_
      exact (List.sublist_cons_self waiter rest).filter _

/-- The tokens that are gone are those of the waiters served. -/
theorem wake_count (count : ℤ) (queue : List (WaitingThread τ)) :
    (wake count queue).1 = count - ((served count queue).map (·.needCount)).sum := by
  induction queue generalizing count with
  | nil => simp [wake, served]
  | cons waiter rest ih =>
    by_cases h : waiter.ready = false ∧ waiter.needCount ≤ count
    · rw [wake_serve h, served, if_pos h, ih, List.map_cons, List.sum_cons, sub_sub]
    · rw [wake_skip h, served, if_neg h, ih]

/-- No more tokens are given away than there are. -/
theorem wake_nonneg {count : ℤ} (h : 0 ≤ count) (queue : List (WaitingThread τ)) :
    0 ≤ (wake count queue).1 := by
  induction queue generalizing count with
  | nil => exact h
  | cons waiter rest ih =>
    by_cases hserve : waiter.ready = false ∧ waiter.needCount ≤ count
    · rw [wake_serve hserve]
      exact ih (by linarith [hserve.2])
    · rw [wake_skip hserve]
      exact ih h

/-- Tokens are only given away. -/
theorem wake_le {queue : List (WaitingThread τ)} (h : ∀ w ∈ queue, 1 ≤ w.needCount) (count : ℤ) :
    (wake count queue).1 ≤ count := by
  rw [wake_count]
  have hsum : 0 ≤ ((served count queue).map (·.needCount)).sum := by
    refine List.sum_nonneg fun need hneed => ?_
    obtain ⟨waiter, hwaiter, rfl⟩ := List.mem_map.1 hneed
    have hmem := List.mem_of_mem_filter ((served_sublist count queue).subset hwaiter)
    linarith [h waiter hmem]
  linarith

/-- The calls in the queue stay, in their order. -/
theorem wake_calls (count : ℤ) (queue : List (WaitingThread τ)) :
    (wake count queue).2.map (·.call) = queue.map (·.call) := by
  induction queue generalizing count with
  | nil => rfl
  | cons waiter rest ih =>
    by_cases h : waiter.ready = false ∧ waiter.needCount ≤ count
    · rw [wake_serve h, List.map_cons, List.map_cons, ih]
      rfl
    · rw [wake_skip h, List.map_cons, List.map_cons, ih]

/-- A waiter in the queue afterwards has been served, or is as before: then it has its result,
or there are not enough tokens for it. -/
theorem mem_wake {queue : List (WaitingThread τ)} (h : ∀ w ∈ queue, 1 ≤ w.needCount) {count : ℤ}
    {waiter : WaitingThread τ} (hmem : waiter ∈ (wake count queue).2) :
    (∃ w ∈ served count queue, waiter = w.grant) ∨
      waiter ∈ queue ∧ (waiter.ready = true ∨ (wake count queue).1 < waiter.needCount) := by
  induction queue generalizing count with
  | nil => simp [wake] at hmem
  | cons first rest ih =>
    have hrest : ∀ w ∈ rest, 1 ≤ w.needCount := fun w hw => h w (List.mem_cons_of_mem _ hw)
    by_cases hserve : first.ready = false ∧ first.needCount ≤ count
    · rw [wake_serve hserve] at hmem ⊢
      rw [served, if_pos hserve]
      rcases List.mem_cons.1 hmem with rfl | hmem
      · exact .inl ⟨first, List.mem_cons_self, rfl⟩
      · rcases ih hrest hmem with ⟨w, hw, rfl⟩ | ⟨hw, hleft⟩
        · exact .inl ⟨w, List.mem_cons_of_mem _ hw, rfl⟩
        · exact .inr ⟨List.mem_cons_of_mem _ hw, hleft⟩
    · rw [wake_skip hserve] at hmem ⊢
      rw [served, if_neg hserve]
      rcases List.mem_cons.1 hmem with rfl | hmem
      · -- it was passed over with the tokens there were then, and there are no more now
        refine .inr ⟨List.mem_cons_self, ?_⟩
        cases hready : waiter.ready with
        | true => exact .inl rfl
        | false =>
          have hfew : ¬waiter.needCount ≤ count := fun hle => hserve ⟨hready, hle⟩
          exact .inr (lt_of_le_of_lt (wake_le hrest count) (not_le.1 hfew))
      · rcases ih hrest hmem with hw | ⟨hw, hleft⟩
        · exact .inl hw
        · exact .inr ⟨List.mem_cons_of_mem _ hw, hleft⟩

/-- A waiter that has its result keeps it. -/
theorem mem_wake_of_ready {queue : List (WaitingThread τ)} {count : ℤ} {waiter : WaitingThread τ}
    (hmem : waiter ∈ queue) (hready : waiter.ready = true) : waiter ∈ (wake count queue).2 := by
  induction queue generalizing count with
  | nil => cases hmem
  | cons first rest ih =>
    by_cases hserve : first.ready = false ∧ first.needCount ≤ count
    · rw [wake_serve hserve]
      rcases List.mem_cons.1 hmem with rfl | hmem
      · rw [hready] at hserve
        cases hserve.1
      · exact List.mem_cons_of_mem _ (ih hmem)
    · rw [wake_skip hserve]
      rcases List.mem_cons.1 hmem with rfl | hmem
      · exact List.mem_cons_self
      · exact List.mem_cons_of_mem _ (ih hmem)

/-- A waiter that is served is in the queue afterwards with its tokens. -/
theorem grant_mem_wake {queue : List (WaitingThread τ)} {count : ℤ} {waiter : WaitingThread τ}
    (hmem : waiter ∈ served count queue) : waiter.grant ∈ (wake count queue).2 := by
  induction queue generalizing count with
  | nil => cases hmem
  | cons first rest ih =>
    by_cases hserve : first.ready = false ∧ first.needCount ≤ count
    · rw [served, if_pos hserve] at hmem
      rw [wake_serve hserve]
      rcases List.mem_cons.1 hmem with rfl | hmem
      · exact List.mem_cons_self
      · exact List.mem_cons_of_mem _ (ih hmem)
    · rw [served, if_neg hserve] at hmem
      rw [wake_skip hserve]
      exact List.mem_cons_of_mem _ (ih hmem)

/-- `AddWaiter` puts one waiter in. -/
theorem KernelSema.addWaiter_perm (s : KernelSema τ) (waiter : WaitingThread τ) :
    (s.addWaiter waiter).waitingThreads.Perm (waiter :: s.waitingThreads) := by
  unfold addWaiter
  split
  · exact List.perm_append_singleton waiter s.waitingThreads
  · refine List.perm_middle.trans (List.Perm.cons waiter ?_)
    rw [List.takeWhile_append_dropWhile]

theorem mem_addWaiter {s : KernelSema τ} {waiter w : WaitingThread τ} :
    w ∈ (s.addWaiter waiter).waitingThreads ↔ w = waiter ∨ w ∈ s.waitingThreads :=
  (s.addWaiter_perm waiter).mem_iff.trans List.mem_cons

/-- Where every call has one waiter at most, `RemoveWaiter` takes out exactly the waiter of the
call. -/
theorem mem_removeWaiter [DecidableEq τ] {s : KernelSema τ}
    (h : (s.waitingThreads.map (·.call)).Nodup) {call : τ} {w : WaitingThread τ} :
    w ∈ (s.removeWaiter call).waitingThreads ↔ w ∈ s.waitingThreads ∧ w.call ≠ call := by
  unfold KernelSema.removeWaiter
  dsimp only
  generalize s.waitingThreads = queue at h
  induction queue with
  | nil => simp
  | cons first rest ih =>
    obtain ⟨hfirst, hrest⟩ := List.nodup_cons.1 h
    by_cases hcall : first.call = call
    · rw [List.eraseP_cons_of_pos (by simpa using hcall)]
      constructor
      · intro hw
        -- no other waiter of the call follows
        refine ⟨List.mem_cons_of_mem _ hw, fun hsame => hfirst ?_⟩
        exact List.mem_map.2 ⟨w, hw, hsame.trans hcall.symm⟩
      · rintro ⟨hw, hne⟩
        rcases List.mem_cons.1 hw with rfl | hw
        · exact absurd hcall hne
        · exact hw
    · rw [List.eraseP_cons_of_neg (by simpa using hcall), List.mem_cons, ih hrest, List.mem_cons]
      constructor
      · rintro (rfl | ⟨hw, hne⟩)
        · exact ⟨.inl rfl, hcall⟩
        · exact ⟨.inr hw, hne⟩
      · rintro ⟨rfl | hw, hne⟩
        · exact .inl rfl
        · exact .inr ⟨hw, hne⟩
/-! ### The waiters -/

/-- Between two steps. -/
structure Waiters (s : State τ) : Prop where
  /-- A call has one waiter at most. -/
  nodup : (s.sema.waitingThreads.map (·.call)).Nodup
  /-- The call of a waiter sleeps. -/
  asleep : ∀ w ∈ s.sema.waitingThreads, ∃ micros, s.calls w.call = .waiting w.needCount micros
  /-- A call that sleeps has its waiter in the queue. -/
  queued : ∀ call needCount micros, s.calls call = .waiting needCount micros →
    ∃ w ∈ s.sema.waitingThreads, w.call = call
  need_pos : ∀ w ∈ s.sema.waitingThreads, 1 ≤ w.needCount
  /-- No waiter is left that could be served. -/
  starved : ∀ w ∈ s.sema.waitingThreads, w.ready = false → s.sema.count < w.needCount

/-- Two waiters of one call are the same. -/
theorem Waiters.waiter_unique {s : State τ} (h : Waiters s) {w w' : WaitingThread τ}
    (hw : w ∈ s.sema.waitingThreads) (hw' : w' ∈ s.sema.waitingThreads) (hcall : w.call = w'.call) :
    w = w' :=
  List.inj_on_of_nodup_map h.nodup hw hw' hcall

/-- A semaphore without waiters. -/
theorem Waiters.new {sema : KernelSema τ} (h : sema.waitingThreads = []) :
    Waiters (State.new sema) where
  nodup := by
    rw [State.new, h]
    exact List.nodup_nil
  asleep w hw := by
    rw [State.new, h] at hw
    cases hw
  queued call needCount micros hcall := by cases hcall
  need_pos w hw := by
    rw [State.new, h] at hw
    cases hw
  starved w hw := by
    rw [State.new, h] at hw
    cases hw

section Steps

variable [DecidableEq τ] {s : State τ}

/-- A call of `Wait` returns at once, having taken tokens or not. -/
theorem Waiters.returned (h : Waiters s) {call : τ} (hcall : s.calls call = .fresh)
    (needCount : ℤ) (result : Result) (micros : Option ℕ) {count : ℤ}
    (hle : count ≤ s.sema.count) :
    Waiters (s.after call (.returned needCount result micros, { s.sema with count := count })) where
  nodup := h.nodup
  asleep w hw := by
    obtain ⟨micros, hmicros⟩ := h.asleep w hw
    have hne : w.call ≠ call := by
      rintro rfl
      rw [hcall] at hmicros
      cases hmicros
    exact ⟨micros, (Function.update_of_ne hne _ _).trans hmicros⟩
  queued c needCount micros hc := by
    rcases eq_or_ne c call with rfl | hne
    · cases (Function.update_self c _ s.calls).symm.trans hc
    · exact h.queued c needCount micros ((Function.update_of_ne hne _ _).symm.trans hc)
  need_pos := h.need_pos
  starved w hw hready := lt_of_le_of_lt hle (h.starved w hw hready)

/-- A call of `Wait` goes to sleep. -/
theorem Waiters.slept (h : Waiters s) {call : τ} (hcall : s.calls call = .fresh) {needCount : ℤ}
    (priority : ℤ) (result : Result) (micros : Option ℕ) (hpos : 1 ≤ needCount)
    (hfew : s.sema.count < needCount) :
    Waiters (s.after call (.waiting needCount micros,
      s.sema.addWaiter ⟨call, priority, needCount, result, false⟩)) where
  nodup := by
    refine ((s.sema.addWaiter_perm _).map (·.call)).nodup_iff.2 (List.nodup_cons.2 ⟨?_, h.nodup⟩)
    -- a call that sleeps is not fresh
    intro hmem
    obtain ⟨w, hw, hsame⟩ := List.mem_map.1 hmem
    obtain ⟨micros, hmicros⟩ := h.asleep w hw
    rw [hsame, hcall] at hmicros
    cases hmicros
  asleep w hw := by
    rcases mem_addWaiter.1 hw with rfl | hw
    · exact ⟨micros, Function.update_self call _ s.calls⟩
    · obtain ⟨micros, hmicros⟩ := h.asleep w hw
      have hne : w.call ≠ call := by
        rintro rfl
        rw [hcall] at hmicros
        cases hmicros
      exact ⟨micros, (Function.update_of_ne hne _ _).trans hmicros⟩
  queued c needCount micros hc := by
    rcases eq_or_ne c call with rfl | hne
    · exact ⟨_, mem_addWaiter.2 (.inl rfl), rfl⟩
    · obtain ⟨w, hw, rfl⟩ :=
        h.queued c needCount micros ((Function.update_of_ne hne _ _).symm.trans hc)
      exact ⟨w, mem_addWaiter.2 (.inr hw), rfl⟩
  need_pos w hw := by
    rcases mem_addWaiter.1 hw with rfl | hw
    · exact hpos
    · exact h.need_pos w hw
  starved w hw hready := by
    rcases mem_addWaiter.1 hw with rfl | hw
    · exact hfew
    · exact h.starved w hw hready

/-- A sleeping call returns. -/
theorem Waiters.removed (h : Waiters s) {call : τ} {needCount : ℤ} {result : Result}
    {micros : Option ℕ} :
    Waiters (s.after call (.returned needCount result micros, s.sema.removeWaiter call)) where
  nodup := h.nodup.sublist (List.eraseP_sublist.map _)
  asleep w hw := by
    obtain ⟨hw, hne⟩ := (mem_removeWaiter h.nodup).1 hw
    obtain ⟨micros, hmicros⟩ := h.asleep w hw
    exact ⟨micros, (Function.update_of_ne hne _ _).trans hmicros⟩
  queued c needCount micros hc := by
    rcases eq_or_ne c call with rfl | hne
    · cases (Function.update_self c _ s.calls).symm.trans hc
    · obtain ⟨w, hw, rfl⟩ :=
        h.queued c needCount micros ((Function.update_of_ne hne _ _).symm.trans hc)
      exact ⟨w, (mem_removeWaiter h.nodup).2 ⟨hw, hne⟩, rfl⟩
  need_pos w hw := h.need_pos w ((mem_removeWaiter h.nodup).1 hw).1
  starved w hw hready := h.starved w ((mem_removeWaiter h.nodup).1 hw).1 hready

end Steps

/-- `WakeWaiters` after a new count. -/
theorem Waiters.woken {s : State τ} (h : Waiters s) (count : ℤ) :
    Waiters ⟨KernelSema.wakeWaiters { s.sema with count := count }, s.calls⟩ where
  nodup := (wake_calls count s.sema.waitingThreads).symm ▸ h.nodup
  asleep w hw := by
    rcases mem_wake h.need_pos hw with ⟨w', hw', rfl⟩ | ⟨hw', -⟩
    · exact h.asleep w' (List.mem_of_mem_filter ((served_sublist _ _).subset hw'))
    · exact h.asleep w hw'
  queued c needCount micros hc := by
    obtain ⟨w, hw, rfl⟩ := h.queued c needCount micros hc
    have hmem : w.call ∈ (wake count s.sema.waitingThreads).2.map (·.call) := by
      rw [wake_calls]
      exact List.mem_map_of_mem hw
    obtain ⟨w', hw', hsame⟩ := List.mem_map.1 hmem
    exact ⟨w', hw', hsame⟩
  need_pos w hw := by
    rcases mem_wake h.need_pos hw with ⟨w', hw', rfl⟩ | ⟨hw', -⟩
    · exact h.need_pos w' (List.mem_of_mem_filter ((served_sublist _ _).subset hw'))
    · exact h.need_pos w hw'
  starved w hw hready := by
    rcases mem_wake h.need_pos hw with ⟨w', -, rfl⟩ | ⟨-, hset | hfew⟩
    · cases hready
    · rw [hready] at hset
      cases hset
    · exact hfew

@[simp] theorem WaitingThread.cancel_call (w : WaitingThread τ) : w.cancel.call = w.call := by
  unfold cancel
  split <;> rfl

@[simp] theorem WaitingThread.cancel_needCount (w : WaitingThread τ) :
    w.cancel.needCount = w.needCount := by
  unfold cancel
  split <;> rfl

/-- After a `Cancel` every waiter has its result. -/
theorem WaitingThread.cancel_ready (w : WaitingThread τ) : w.cancel.ready = true := by
  unfold cancel
  split
  · next h => exact h
  · rfl

/-- `Cancel`. -/
theorem Waiters.canceled {s : State τ} (h : Waiters s) (count : ℤ) :
    Waiters ⟨{ s.sema with
      count := count
      waitingThreads := s.sema.waitingThreads.map WaitingThread.cancel }, s.calls⟩ where
  nodup := by
    have hcalls : (s.sema.waitingThreads.map WaitingThread.cancel).map (·.call) =
        s.sema.waitingThreads.map (·.call) := by simp [Function.comp_def]
    exact hcalls ▸ h.nodup
  asleep w hw := by
    obtain ⟨w', hw', rfl⟩ := List.mem_map.1 hw
    simpa using h.asleep w' hw'
  queued c needCount micros hc := by
    obtain ⟨w, hw, rfl⟩ := h.queued c needCount micros hc
    exact ⟨w.cancel, List.mem_map_of_mem hw, w.cancel_call⟩
  need_pos w hw := by
    obtain ⟨w', hw', rfl⟩ := List.mem_map.1 hw
    simpa using h.need_pos w' hw'
  starved w hw hready := by
    obtain ⟨w, hw, rfl⟩ := List.mem_map.1 hw
    rw [w.cancel_ready] at hready
    cases hready
/-! ### Steps keep the waiters -/

theorem Waiters.signal {s : State τ} (h : Waiters s) (signalCount : ℤ) :
    Waiters ⟨(s.sema.signal signalCount).2, s.calls⟩ := by
  unfold KernelSema.signal
  split_ifs
  · exact h
  · exact h
  · exact h.woken _

theorem Waiters.cancel {s : State τ} (h : Waiters s) (setCount : ℤ) :
    Waiters ⟨(s.sema.cancel setCount).2.2, s.calls⟩ := by
  unfold KernelSema.cancel
  split
  · exact h
  · split
    · exact h
    · exact h.canceled _

theorem Waiters.wait [DecidableEq τ] {s : State τ} (h : Waiters s) {call : τ}
    (hcall : s.calls call = .fresh) (needCount : ℤ) (micros : Option ℕ) (priority : ℤ) :
    Waiters (s.after call (s.sema.wait call needCount micros priority)) := by
  unfold KernelSema.wait
  split
  · exact h.returned hcall _ _ _ le_rfl
  · next hneed =>
    obtain ⟨hpos, -⟩ := not_or.1 hneed
    split
    · exact h.returned hcall _ _ _ le_rfl
    · split
      · -- the tokens are taken at once
        exact h.returned hcall _ _ _ (by linarith)
      · next hfew =>
        split
        · exact h.returned hcall _ _ _ le_rfl
        · exact h.slept hcall _ _ _ (not_lt.1 hpos) (not_le.1 hfew)

theorem Waiters.resume [DecidableEq τ] {s : State τ} (h : Waiters s) {w : WaitingThread τ}
    {micros : Option ℕ} (hcall : s.calls w.call = .waiting w.needCount micros) (elapsed : ℕ) :
    Waiters (s.after w.call (s.sema.resume w micros elapsed)) := by
  -- a call that goes back to sleep changes nothing
  have hsleep : s.after w.call (.waiting w.needCount micros, s.sema) = s := by
    rw [State.after, ← hcall, Function.update_eq_self]
  unfold KernelSema.resume
  split
  · exact h.removed
  · cases micros with
    | none => exact hsleep.symm ▸ h
    | some limit =>
      dsimp only
      split
      · exact h.removed
      · exact hsleep.symm ▸ h
/-- **One step keeps the waiters.** -/
theorem Waiters.step [DecidableEq τ] {s s' : State τ} {a : Action τ} (h : Waiters s)
    (hstep : Step s a s') : Waiters s' := by
  cases hstep with
  | wait needCount micros priority hcall => exact h.wait hcall needCount micros priority
  | resume elapsed hcall hwaiter => exact h.resume hcall elapsed
  | signal signalCount => exact h.signal signalCount
  | cancel setCount => exact h.cancel setCount

/-! ### Calls that have their tokens -/

/-- The call has its tokens: it has returned `Ok`, or its waiter has been given them. -/
def State.Granted (s : State τ) (call : τ) : Prop :=
  (∃ needCount micros, s.calls call = .returned needCount .ok micros) ∨
    ∃ w ∈ s.sema.waitingThreads, w.call = call ∧ w.ready = true ∧ w.result = .ok

/-- The argument `need_count` of the call. -/
def State.needCount (s : State τ) (call : τ) : ℤ :=
  match s.calls call with
  | .fresh => 0
  | .waiting needCount _ => needCount
  | .returned needCount _ _ => needCount

/-- A call that is not made yet has no tokens. -/
theorem Waiters.not_granted_fresh {s : State τ} (h : Waiters s) {call : τ}
    (hcall : s.calls call = .fresh) : ¬s.Granted call := by
  rintro (⟨needCount, micros, hreturned⟩ | ⟨w, hw, rfl, -, -⟩)
  · rw [hcall] at hreturned
    cases hreturned
  · obtain ⟨micros, hmicros⟩ := h.asleep w hw
    rw [hcall] at hmicros
    cases hmicros

/-- A call that has its tokens and sleeps has them in its waiter. -/
theorem Waiters.granted_waiter {s : State τ} (h : Waiters s) {w : WaitingThread τ}
    (hw : w ∈ s.sema.waitingThreads) :
    s.Granted w.call ↔ w.ready = true ∧ w.result = .ok := by
  constructor
  · rintro (⟨needCount, micros, hreturned⟩ | ⟨w', hw', hsame, hgranted⟩)
    · obtain ⟨micros, hmicros⟩ := h.asleep w hw
      rw [hreturned] at hmicros
      cases hmicros
    · rwa [h.waiter_unique hw' hw hsame] at hgranted
  · exact fun hgranted => .inr ⟨w, hw, rfl, hgranted⟩

/-- A call that has returned has its tokens if and only if it returned `Ok`. -/
theorem Waiters.granted_returned {s : State τ} (h : Waiters s) {call : τ} {needCount : ℤ}
    {result : Result} {micros : Option ℕ} (hcall : s.calls call = .returned needCount result micros) :
    s.Granted call ↔ result = .ok := by
  constructor
  · rintro (⟨needCount, micros, hreturned⟩ | ⟨w, hw, rfl, -, -⟩)
    · rw [hcall] at hreturned
      cases hreturned
      rfl
    · obtain ⟨micros, hmicros⟩ := h.asleep w hw
      rw [hcall] at hmicros
      cases hmicros
  · rintro rfl
    exact .inl ⟨needCount, micros, hcall⟩

/-- A call that sleeps has the need of its waiter. -/
theorem Waiters.needCount_waiter {s : State τ} (h : Waiters s) {w : WaitingThread τ}
    (hw : w ∈ s.sema.waitingThreads) : s.needCount w.call = w.needCount := by
  obtain ⟨micros, hmicros⟩ := h.asleep w hw
  unfold State.needCount
  rw [hmicros]

section Grants

variable [DecidableEq τ] {s : State τ}

@[simp] theorem State.after_calls_self {call : τ} {outcome : Call × KernelSema τ} :
    (s.after call outcome).calls call = outcome.1 :=
  Function.update_self call _ _

@[simp] theorem State.after_sema {call : τ} {outcome : Call × KernelSema τ} :
    (s.after call outcome).sema = outcome.2 := rfl

theorem State.after_calls_of_ne {call c : τ} {outcome : Call × KernelSema τ} (h : c ≠ call) :
    (s.after call outcome).calls c = s.calls c :=
  Function.update_of_ne h _ _

theorem State.after_needCount_of_ne {call c : τ} {outcome : Call × KernelSema τ}
    (h : c ≠ call) : (s.after call outcome).needCount c = s.needCount c := by
  unfold State.needCount
  rw [State.after_calls_of_ne h]

/-- Whether another call has its tokens is not decided by what a call does to itself. -/
theorem granted_after_of_ne {call c : τ} {outcome : Call × KernelSema τ} (hne : c ≠ call)
    (hqueue : ∀ w : WaitingThread τ, w.call ≠ call →
      (w ∈ outcome.2.waitingThreads ↔ w ∈ s.sema.waitingThreads)) :
    (s.after call outcome).Granted c ↔ s.Granted c := by
  unfold State.Granted
  rw [State.after_calls_of_ne hne]
  refine or_congr_right (exists_congr fun w => ?_)
  constructor
  · rintro ⟨hw, rfl, hgranted⟩
    exact ⟨(hqueue w hne).1 hw, rfl, hgranted⟩
  · rintro ⟨hw, rfl, hgranted⟩
    exact ⟨(hqueue w hne).2 hw, rfl, hgranted⟩

/-- The next check of a call that slept. -/
theorem Waiters.resume_granted (h : Waiters s) {w : WaitingThread τ} {micros : Option ℕ}
    (hw : w ∈ s.sema.waitingThreads)
    (hcall : s.calls w.call = .waiting w.needCount micros) (elapsed : ℕ) :
    (s.after w.call (s.sema.resume w micros elapsed)).Granted w.call ↔ s.Granted w.call := by
  have hsound := h.resume hcall elapsed
  have hbefore := h.granted_waiter hw
  -- a call that goes back to sleep changes nothing
  have hsleep : s.after w.call (.waiting w.needCount micros, s.sema) = s := by
    rw [State.after, ← hcall, Function.update_eq_self]
  unfold KernelSema.resume at hsound ⊢
  split at hsound
  · next hready =>
    rw [if_pos hready, hsound.granted_returned State.after_calls_self, hbefore]
    exact ⟨fun hok => ⟨hready, hok⟩, And.right⟩
  · next hready =>
    rw [if_neg hready]
    cases micros with
    | none => exact hsleep.symm ▸ Iff.rfl
    | some limit =>
      dsimp only at hsound ⊢
      split at hsound
      · next htime =>
        rw [if_pos htime, hsound.granted_returned State.after_calls_self, hbefore]
        exact iff_of_false (by decide) fun hgranted => hready hgranted.1
      · next htime =>
        rw [if_neg htime]
        exact hsleep.symm ▸ Iff.rfl

/-- A check takes at most its own waiter out, and leaves the count. -/
theorem KernelSema.resume_frame {sema : KernelSema τ} (w : WaitingThread τ) (micros : Option ℕ)
    (elapsed : ℕ) :
    (sema.resume w micros elapsed).2 = sema ∨
      (sema.resume w micros elapsed).2 = sema.removeWaiter w.call := by
  unfold resume
  split
  · exact .inr rfl
  · cases micros with
    | none => exact .inl rfl
    | some limit =>
      dsimp only
      split
      · exact .inr rfl
      · exact .inl rfl

/-- The waiters of other calls are not touched by a check. -/
theorem Waiters.mem_resume (h : Waiters s) (w : WaitingThread τ) (micros : Option ℕ)
    (elapsed : ℕ) {w' : WaitingThread τ} (hne : w'.call ≠ w.call) :
    w' ∈ (s.sema.resume w micros elapsed).2.waitingThreads ↔ w' ∈ s.sema.waitingThreads := by
  rcases s.sema.resume_frame w micros elapsed with hsame | hremoved
  · rw [hsame]
  · rw [hremoved, mem_removeWaiter h.nodup, and_iff_left hne]

omit [DecidableEq τ] in
/-- A call of `Wait` puts in at most its own waiter, and leaves the others. -/
theorem KernelSema.wait_queue (sema : KernelSema τ) (call : τ) (needCount : ℤ)
    (micros : Option ℕ) (priority : ℤ) :
    (sema.wait call needCount micros priority).2.waitingThreads = sema.waitingThreads ∨
      (sema.wait call needCount micros priority).2 =
        sema.addWaiter
          ⟨call, if sema.fifoOrder then 0 else priority, needCount, .timedOut, false⟩ := by
  unfold wait
  generalize (if sema.fifoOrder then 0 else priority) = place
  split_ifs
  · exact .inl rfl
  · exact .inl rfl
  · exact .inl rfl
  · exact .inl rfl
  · exact .inr rfl

omit [DecidableEq τ] in
theorem mem_wait {call : τ} {needCount : ℤ} {micros : Option ℕ} {priority : ℤ}
    {w : WaitingThread τ} (hne : w.call ≠ call) :
    w ∈ (s.sema.wait call needCount micros priority).2.waitingThreads ↔
      w ∈ s.sema.waitingThreads := by
  rcases s.sema.wait_queue call needCount micros priority with hsame | hadded
  · rw [hsame]
  · rw [hadded, mem_addWaiter]
    exact or_iff_right fun hw => hne (congrArg WaitingThread.call hw)

end Grants

/-- The calls that have their tokens after `WakeWaiters`: those that had them, and those that
are served. -/
theorem Waiters.granted_woken {s : State τ} (h : Waiters s) (count : ℤ) (call : τ) :
    State.Granted ⟨KernelSema.wakeWaiters { s.sema with count := count }, s.calls⟩ call ↔
      s.Granted call ∨ call ∈ (served count s.sema.waitingThreads).map (·.call) := by
  constructor
  · rintro (hreturned | ⟨w, hw, rfl, hready, hok⟩)
    · exact .inl (.inl hreturned)
    · rcases mem_wake h.need_pos hw with ⟨w', hw', rfl⟩ | ⟨hw', -⟩
      · exact .inr (List.mem_map.2 ⟨w', hw', rfl⟩)
      · exact .inl (.inr ⟨w, hw', rfl, hready, hok⟩)
  · rintro ((hreturned | ⟨w, hw, rfl, hready, hok⟩) | hserved)
    · exact .inl hreturned
    · exact .inr ⟨w, mem_wake_of_ready hw hready, rfl, hready, hok⟩
    · obtain ⟨w, hw, rfl⟩ := List.mem_map.1 hserved
      exact .inr ⟨w.grant, grant_mem_wake hw, rfl, rfl, rfl⟩

/-- A waiter that is served has no tokens yet. -/
theorem Waiters.not_granted_served {s : State τ} (h : Waiters s) {count : ℤ} {call : τ}
    (hserved : call ∈ (served count s.sema.waitingThreads).map (·.call)) : ¬s.Granted call := by
  obtain ⟨w, hw, rfl⟩ := List.mem_map.1 hserved
  obtain ⟨hw, hready⟩ := List.mem_filter.1 ((served_sublist _ _).subset hw)
  rw [h.granted_waiter hw]
  rintro ⟨hset, -⟩
  rw [hset] at hready
  cases hready

/-- `Cancel` gives no tokens and takes none from a call. -/
theorem granted_canceled {s : State τ} {count : ℤ} (call : τ) :
    State.Granted ⟨{ s.sema with
      count := count
      waitingThreads := s.sema.waitingThreads.map WaitingThread.cancel }, s.calls⟩ call ↔
      s.Granted call := by
  have hsame : ∀ w : WaitingThread τ, w.cancel.ready = true ∧ w.cancel.result = .ok ↔
      w.ready = true ∧ w.result = .ok := by
    intro w
    unfold WaitingThread.cancel
    split
    · exact Iff.rfl
    · next hready => exact iff_of_false (fun hok => nomatch hok.2) fun hok => hready hok.1
  refine or_congr_right ⟨?_, ?_⟩
  · rintro ⟨w, hw, hcall, hgranted⟩
    obtain ⟨w, hw', rfl⟩ := List.mem_map.1 hw
    exact ⟨w, hw', w.cancel_call.symm.trans hcall, (hsame w).1 hgranted⟩
  · rintro ⟨w, hw, hcall, hgranted⟩
    exact ⟨w.cancel, List.mem_map_of_mem hw, w.cancel_call.trans hcall, (hsame w).2 hgranted⟩

end Prosperismo.Semaphore
