import Mathlib.Data.List.TakeWhile
import Prosperismo.Semaphore.Queue

/-!
# The order of the queue

The waiters of a FIFO semaphore stand in the queue in the order of their calls, those of a
priority semaphore by their priority first (`Ahead`). `WakeWaiters` goes through the queue in this
order, but passes over a waiter that needs more tokens than there are, and a call of `Wait` that
finds enough tokens takes them without a look at the queue. So a waiter can be overtaken, by a
call that needs less (`fifo_overtaken`), and only by such a call (`needCount_lt_of_passes`).

That the fast path of `Wait` passes over greater needs only is the invariant of the queue: no
waiter is left that could be served (`Waiters.starved`). For `WakeWaiters` it is the order of the
queue (`Ordered`): the tokens that a waiter is passed over with are all that is left for those
behind it.
-/

namespace Prosperismo.Semaphore

variable {τ : Type}

/-! ### The order of the calls -/

/-- The `i`-th action makes the call of `Wait`, at the priority. -/
def WaitsAt (actions : List (Action τ)) (i : ℕ) (call : τ) (priority : ℤ) : Prop :=
  ∃ needCount micros, actions[i]? = some (.wait call needCount micros priority)

/-- The call of `early` comes before that of `late`: in a FIFO semaphore it is made earlier, and
otherwise it is more urgent, or as urgent and made earlier. -/
def Ahead (fifo : Bool) (actions : List (Action τ)) (early late : τ) : Prop :=
  ∃ i j p q, WaitsAt actions i early p ∧ WaitsAt actions j late q ∧
    if fifo then i < j else p < q ∨ p = q ∧ i < j

/-- In a step from `s` to `s'` the call `late` gets its tokens and the waiter of `early` is passed
over: it is left without a result. -/
def Passes (s s' : State τ) (early late : τ) : Prop :=
  ¬ s.Granted late ∧ s'.Granted late ∧
    ∃ w ∈ s'.sema.waitingThreads, w.call = early ∧ w.ready = false

section WaitsAt

variable {actions : List (Action τ)} {i : ℕ} {call : τ} {priority : ℤ}

theorem WaitsAt.lt_length (h : WaitsAt actions i call priority) : i < actions.length := by
  obtain ⟨needCount, micros, h⟩ := h
  exact (List.getElem?_eq_some_iff.1 h).1

theorem WaitsAt.append (h : WaitsAt actions i call priority) (a : Action τ) :
    WaitsAt (actions ++ [a]) i call priority := by
  have hlt := h.lt_length
  obtain ⟨needCount, micros, h⟩ := h
  refine ⟨needCount, micros, ?_⟩
  rw [List.getElem?_append_left hlt]
  exact h

/-- The last action of the run makes the call, or an earlier one does. -/
theorem WaitsAt.of_append {a : Action τ} (h : WaitsAt (actions ++ [a]) i call priority) :
    WaitsAt actions i call priority ∨
      i = actions.length ∧ ∃ needCount micros, a = .wait call needCount micros priority := by
  obtain ⟨needCount, micros, h⟩ := h
  rcases lt_or_ge i actions.length with hlt | hge
  · rw [List.getElem?_append_left hlt] at h
    exact .inl ⟨needCount, micros, h⟩
  · rw [List.getElem?_append_right hge, List.getElem?_singleton] at h
    split_ifs at h with hzero
    exact .inr ⟨by omega, needCount, micros, Option.some.inj h⟩

theorem WaitsAt.last (actions : List (Action τ)) (call : τ) (needCount : ℤ) (micros : Option ℕ)
    (priority : ℤ) : WaitsAt (actions ++ [.wait call needCount micros priority]) actions.length call
      priority :=
  ⟨needCount, micros, List.getElem?_concat_length⟩

/-- A call has one priority. -/
theorem WaitsAt.priority_unique {priority' : ℤ} (h : WaitsAt actions i call priority)
    (h' : WaitsAt actions i call priority') : priority = priority' := by
  obtain ⟨needCount, micros, h⟩ := h
  obtain ⟨needCount', micros', h'⟩ := h'
  rw [h] at h'
  cases h'
  rfl

theorem Ahead.append {fifo : Bool} {early late : τ} (h : Ahead fifo actions early late)
    (a : Action τ) : Ahead fifo (actions ++ [a]) early late := by
  obtain ⟨i, j, p, q, hearly, hlate, horder⟩ := h
  exact ⟨i, j, p, q, hearly.append a, hlate.append a, horder⟩

end WaitsAt

/-! ### The scan of the queue -/

/-- A waiter that is served needs no more tokens than there are. -/
theorem needCount_le_of_mem_served {queue : List (WaitingThread τ)}
    (h : ∀ w ∈ queue, 1 ≤ w.needCount) {count : ℤ} {waiter : WaitingThread τ}
    (hmem : waiter ∈ served count queue) : waiter.needCount ≤ count := by
  induction queue generalizing count with
  | nil => cases hmem
  | cons first rest ih =>
    have hrest : ∀ w ∈ rest, 1 ≤ w.needCount := fun w hw => h w (List.mem_cons_of_mem _ hw)
    by_cases hserve : first.ready = false ∧ first.needCount ≤ count
    · rw [served, if_pos hserve] at hmem
      rcases List.mem_cons.1 hmem with rfl | hmem
      · exact hserve.2
      · have hle := ih hrest hmem
        have hpos := h first List.mem_cons_self
        linarith
    · rw [served, if_neg hserve] at hmem
      exact ih hrest hmem

/-- **`WakeWaiters` passes over greater needs only**: a waiter that is served needs less than one
before it that is not. -/
theorem needCount_lt_of_mem_served {before behind : List (WaitingThread τ)}
    {early late : WaitingThread τ} {count : ℤ}
    (hnodup : ((before ++ early :: behind).map (·.call)).Nodup)
    (h : ∀ w ∈ before ++ early :: behind, 1 ≤ w.needCount) (hbehind : late ∈ behind)
    (hlate : late ∈ served count (before ++ early :: behind))
    (hearly : early ∉ served count (before ++ early :: behind)) (hready : early.ready = false) :
    late.needCount < early.needCount := by
  induction before generalizing count with
  | nil =>
    rw [List.nil_append] at hlate hearly h
    have hpassed : ¬(early.ready = false ∧ early.needCount ≤ count) := by
      intro hserve
      rw [served, if_pos hserve] at hearly
      exact hearly List.mem_cons_self
    rw [served, if_neg hpassed] at hlate
    -- what is left for those behind is too little for the waiter
    have hle := needCount_le_of_mem_served (fun w hw => h w (List.mem_cons_of_mem _ hw)) hlate
    exact hle.trans_lt (not_le.1 fun hle => hpassed ⟨hready, hle⟩)
  | cons first before ih =>
    rw [List.cons_append] at hlate hearly hnodup h
    rw [List.map_cons, List.nodup_cons] at hnodup
    have hrest : ∀ w ∈ before ++ early :: behind, 1 ≤ w.needCount :=
      fun w hw => h w (List.mem_cons_of_mem _ hw)
    by_cases hserve : first.ready = false ∧ first.needCount ≤ count
    · rw [served, if_pos hserve] at hlate hearly
      refine ih hnodup.2 hrest ?_ fun hmem => hearly (List.mem_cons_of_mem _ hmem)
      refine (List.mem_cons.1 hlate).resolve_left ?_
      rintro rfl
      exact hnodup.1 (List.mem_map_of_mem (by simp [hbehind]))
    · rw [served, if_neg hserve] at hlate hearly
      exact ih hnodup.2 hrest hlate hearly

/-- The waiters keep their places. -/
theorem wake_places (count : ℤ) (queue : List (WaitingThread τ)) :
    (wake count queue).2.map (fun w => (w.call, w.priority)) =
      queue.map fun w => (w.call, w.priority) := by
  induction queue generalizing count with
  | nil => rfl
  | cons waiter rest ih =>
    by_cases h : waiter.ready = false ∧ waiter.needCount ≤ count
    · rw [wake_serve h, List.map_cons, List.map_cons, ih]
      rfl
    · rw [wake_skip h, List.map_cons, List.map_cons, ih]

theorem WaitingThread.cancel_priority (w : WaitingThread τ) : w.cancel.priority = w.priority := by
  unfold cancel
  split <;> rfl

theorem canceled_places (queue : List (WaitingThread τ)) :
    (queue.map WaitingThread.cancel).map (fun w => (w.call, w.priority)) =
      queue.map fun w => (w.call, w.priority) := by
  rw [List.map_map]
  exact List.map_congr_left fun w _ => Prod.ext w.cancel_call w.cancel_priority

/-! ### The queue is ordered -/

/-- After a run: no call is made twice, and the waiters stand in the order of their calls. -/
structure Ordered (fifo : Bool) (actions : List (Action τ)) (s : State τ) : Prop where
  waiters : Waiters s
  fifoOrder : s.sema.fifoOrder = fifo
  /-- A call that is made is not made again. -/
  made : ∀ i call priority, WaitsAt actions i call priority → s.calls call ≠ .fresh
  once : ∀ i j call p q, WaitsAt actions i call p → WaitsAt actions j call q → i = j
  /-- A waiter has the priority of its call. -/
  arrived : ∀ w ∈ s.sema.waitingThreads, ∃ i priority, WaitsAt actions i w.call priority ∧
    (fifo = false → w.priority = priority)
  ahead : s.sema.waitingThreads.Pairwise fun w w' =>
    Ahead fifo actions w.call w'.call ∧ (fifo = false → w.priority ≤ w'.priority)

/-- Before the first call. -/
theorem Ordered.new {sema : KernelSema τ} (h : sema.waitingThreads = []) :
    Ordered sema.fifoOrder [] (State.new sema) where
  waiters := .new h
  fifoOrder := rfl
  made _ _ _ hwait := absurd hwait.lt_length (Nat.not_lt_zero _)
  once _ _ _ _ _ hwait := absurd hwait.lt_length (Nat.not_lt_zero _)
  arrived w hw := by
    rw [State.new, h] at hw
    cases hw
  ahead := by
    rw [State.new, h]
    exact .nil

section Steps

variable {fifo : Bool} {actions : List (Action τ)} {s s' : State τ}

/-- Of two calls one comes first. -/
theorem Ordered.ahead_asymm (h : Ordered fifo actions s) {early late : τ}
    (hahead : Ahead fifo actions early late) (hbehind : Ahead fifo actions late early) : False := by
  obtain ⟨i, j, p, q, hearly, hlate, horder⟩ := hahead
  obtain ⟨j', i', q', p', hlate', hearly', horder'⟩ := hbehind
  obtain rfl := h.once i i' early p p' hearly hearly'
  obtain rfl := h.once j j' late q q' hlate hlate'
  obtain rfl := hearly.priority_unique hearly'
  obtain rfl := hlate.priority_unique hlate'
  split_ifs at horder horder'
  · exact lt_asymm horder horder'
  · omega

/-- A step that makes no call, and that takes waiters out of the queue or gives them their results,
keeps the order. -/
theorem Ordered.of_sublist {a : Action τ} (h : Ordered fifo actions s) (hwaiters : Waiters s')
    (hfifo : s'.sema.fifoOrder = s.sema.fifoOrder)
    (hcalls : ∀ call, s.calls call ≠ .fresh → s'.calls call ≠ .fresh)
    (ha : ∀ call needCount micros priority, a ≠ .wait call needCount micros priority)
    (hqueue : (s'.sema.waitingThreads.map fun w => (w.call, w.priority)).Sublist
      (s.sema.waitingThreads.map fun w => (w.call, w.priority))) :
    Ordered fifo (actions ++ [a]) s' := by
  have hold {i : ℕ} {call : τ} {p : ℤ} (hwait : WaitsAt (actions ++ [a]) i call p) :
      WaitsAt actions i call p :=
    hwait.of_append.resolve_right fun ⟨_, needCount, micros, hsame⟩ => ha _ _ _ _ hsame
  refine ⟨hwaiters, hfifo.trans h.fifoOrder, fun i call p hwait => ?_, fun i j call p q hi hj => ?_,
    fun w hw => ?_, ?_⟩
  · exact hcalls call (h.made i call p (hold hwait))
  · exact h.once i j call p q (hold hi) (hold hj)
  · obtain ⟨w', hw', hsame⟩ := List.mem_map.1 (hqueue.subset (List.mem_map_of_mem hw))
    obtain ⟨hcall, hpriority⟩ := Prod.mk.inj hsame
    obtain ⟨i, priority, hwait, hp⟩ := h.arrived w' hw'
    exact ⟨i, priority, hcall ▸ hwait.append a, fun hfalse => hpriority ▸ hp hfalse⟩
  · have hpairs : (s.sema.waitingThreads.map fun w => (w.call, w.priority)).Pairwise
        fun w w' => Ahead fifo actions w.1 w'.1 ∧ (fifo = false → w.2 ≤ w'.2) :=
      List.pairwise_map.2 h.ahead
    refine (List.pairwise_map.1 (hpairs.sublist hqueue)).imp fun hahead => ?_
    exact ⟨hahead.1.append a, hahead.2⟩

/-- In a sorted queue the waiters behind the place of a new one are less urgent. -/
theorem lt_priority_of_mem_dropWhile {queue : List (WaitingThread τ)} {priority : ℤ}
    (h : queue.Pairwise fun w w' => w.priority ≤ w'.priority) {w : WaitingThread τ}
    (hw : w ∈ queue.dropWhile fun other => other.priority ≤ priority) : priority < w.priority := by
  induction queue with
  | nil => cases hw
  | cons first rest ih =>
    rw [List.pairwise_cons] at h
    by_cases hle : first.priority ≤ priority
    · rw [List.dropWhile_cons_of_pos (by simpa using hle)] at hw
      exact ih h.2 hw
    · rw [List.dropWhile_cons_of_neg (by simpa using hle)] at hw
      rcases List.mem_cons.1 hw with rfl | hw
      · exact not_le.1 hle
      · exact (not_le.1 hle).trans_le (h.1 w hw)

/-- `AddWaiter` puts the waiter of a new call in its place. -/
theorem Ordered.ahead_addWaiter (h : Ordered fifo actions s) {call : τ} (needCount : ℤ)
    (micros : Option ℕ) {priority : ℤ} {waiter : WaitingThread τ} (hcall : waiter.call = call)
    (hpriority : fifo = false → waiter.priority = priority) :
    (s.sema.addWaiter waiter).waitingThreads.Pairwise fun w w' =>
      Ahead fifo (actions ++ [.wait call needCount micros priority]) w.call w'.call ∧
        (fifo = false → w.priority ≤ w'.priority) := by
  have hlast := WaitsAt.last actions call needCount micros priority
  generalize Action.wait call needCount micros priority = a at hlast
  have hbefore : s.sema.waitingThreads.Pairwise fun w w' =>
      Ahead fifo (actions ++ [a]) w.call w'.call ∧ (fifo = false → w.priority ≤ w'.priority) :=
    h.ahead.imp fun hahead => ⟨hahead.1.append a, hahead.2⟩
  unfold KernelSema.addWaiter
  rw [h.fifoOrder]
  cases fifo with
  | true =>
    refine List.pairwise_append.2 ⟨hbefore, List.pairwise_singleton _ _, fun w hw w' hw' => ?_⟩
    obtain rfl := List.mem_singleton.1 hw'
    obtain ⟨i, p, hwait, -⟩ := h.arrived w hw
    exact ⟨⟨i, _, p, _, hwait.append a, hcall ▸ hlast, hwait.lt_length⟩, nofun⟩
  | false =>
    have hpriority := hpriority rfl
    have hsorted : s.sema.waitingThreads.Pairwise fun w w' => w.priority ≤ w'.priority :=
      h.ahead.imp fun hahead => hahead.2 rfl
    have hsplit := s.sema.waitingThreads.takeWhile_append_dropWhile
      (p := fun other => other.priority ≤ waiter.priority)
    rw [← hsplit] at hbefore
    obtain ⟨htake, hdrop, hcross⟩ := List.pairwise_append.1 hbefore
    refine List.pairwise_append.2 ⟨htake, List.pairwise_cons.2 ⟨fun w hw => ?_, hdrop⟩,
      fun w hw w' hw' => ?_⟩
    · -- those behind it are less urgent
      have hlt := lt_priority_of_mem_dropWhile hsorted hw
      obtain ⟨i, p, hwait, hp⟩ := h.arrived w (List.dropWhile_subset _ hw)
      refine ⟨⟨_, i, _, p, hcall ▸ hlast, hwait.append a, .inl ?_⟩, fun _ => hlt.le⟩
      rw [← hpriority, ← hp rfl]
      exact hlt
    · rcases List.mem_cons.1 hw' with rfl | hw'
      · -- those before it are as urgent at least, and older
        have hle : w.priority ≤ w'.priority := by simpa using List.mem_takeWhile_imp hw
        obtain ⟨i, p, hwait, hp⟩ := h.arrived w (List.takeWhile_subset _ hw)
        refine ⟨⟨i, _, p, _, hwait.append a, hcall ▸ hlast, ?_⟩, fun _ => hle⟩
        rw [← hpriority, ← hp rfl]
        exact hle.lt_or_eq.imp_right fun heq => ⟨heq, hwait.lt_length⟩
      · exact hcross w hw w' hw'

variable [DecidableEq τ]

/-- A call of `Wait` keeps the order. -/
theorem Ordered.wait (h : Ordered fifo actions s) {call : τ} (hcall : s.calls call = .fresh)
    (needCount : ℤ) (micros : Option ℕ) (priority : ℤ) :
    Ordered fifo (actions ++ [.wait call needCount micros priority])
      (s.after call (s.sema.wait call needCount micros priority)) := by
  have hnew : ∀ i c p, WaitsAt actions i c p → c ≠ call := by
    rintro i c p hwait rfl
    exact h.made i c p hwait hcall
  have hfifo : (s.sema.wait call needCount micros priority).2.fifoOrder = s.sema.fifoOrder := by
    unfold KernelSema.wait
    split_ifs <;> rfl
  have hmade : (s.sema.wait call needCount micros priority).1 ≠ .fresh := by
    unfold KernelSema.wait
    split_ifs <;> exact nofun
  refine ⟨h.waiters.wait hcall _ _ _, hfifo.trans h.fifoOrder, fun i c p hwait => ?_,
    fun i j c p q hi hj => ?_, fun w hw => ?_, ?_⟩
  · rcases hwait.of_append with hold | ⟨-, n, m, hsame⟩
    · rw [State.after_calls_of_ne (hnew i c p hold)]
      exact h.made i c p hold
    · cases hsame
      rw [State.after_calls_self]
      exact hmade
  · rcases hi.of_append with hi | ⟨rfl, n, m, hsame⟩ <;>
      rcases hj.of_append with hj | ⟨rfl, n', m', hsame'⟩
    · exact h.once i j c p q hi hj
    · cases hsame'
      exact absurd rfl (hnew i _ p hi)
    · cases hsame
      exact absurd rfl (hnew j _ q hj)
    · rfl
  · rcases eq_or_ne w.call call with hsame | hne
    · refine ⟨actions.length, priority, ?_, fun hfalse => ?_⟩
      · rw [hsame]
        exact .last actions call needCount micros priority
      -- an old waiter of the call would be asleep, and the call is fresh
      have hold : w ∉ s.sema.waitingThreads := by
        intro hw
        obtain ⟨i, p, hwait, -⟩ := h.arrived w hw
        exact hnew i _ p hwait hsame
      rcases s.sema.wait_queue call needCount micros priority with hqueue | hadded
      · exact absurd (hqueue ▸ hw) hold
      · have hw : w ∈ (s.sema.wait call needCount micros priority).2.waitingThreads := hw
        rw [hadded, mem_addWaiter] at hw
        rw [hw.resolve_right hold, h.fifoOrder, hfalse]
        rfl
    · obtain ⟨i, p, hwait, hp⟩ := h.arrived w ((mem_wait hne).1 hw)
      exact ⟨i, p, hwait.append _, hp⟩
  · rcases s.sema.wait_queue call needCount micros priority with hqueue | hadded
    · have hbefore := h.ahead.imp fun hahead =>
        And.intro (hahead.1.append (.wait call needCount micros priority)) hahead.2
      rw [State.after_sema, hqueue]
      exact hbefore
    · rw [State.after_sema, hadded]
      refine h.ahead_addWaiter needCount micros rfl fun hfalse => ?_
      rw [h.fifoOrder, hfalse]
      rfl

/-- **One step keeps the order.** -/
theorem Ordered.step {a : Action τ} (h : Ordered fifo actions s) (hstep : Step s a s') :
    Ordered fifo (actions ++ [a]) s' := by
  have hwaiters := h.waiters.step hstep
  cases hstep with
  | wait needCount micros priority hcall => exact h.wait hcall needCount micros priority
  | @resume w micros elapsed hcall hw =>
    refine h.of_sublist hwaiters ?_ (fun call hmade => ?_)
      (fun _ _ _ _ haction => by cases haction) ?_
    · rw [State.after_sema]
      rcases s.sema.resume_frame w micros elapsed with hsame | hremoved
      · rw [hsame]
      · rw [hremoved]
        rfl
    · rcases eq_or_ne call w.call with rfl | hne
      · rw [State.after_calls_self]
        unfold KernelSema.resume
        split_ifs
        · intro hfresh
          cases hfresh
        · split
          · intro hfresh
            cases hfresh
          · split_ifs <;>
            · intro hfresh
              cases hfresh
      · rw [State.after_calls_of_ne hne]
        exact hmade
    · refine List.Sublist.map _ ?_
      rw [State.after_sema]
      rcases s.sema.resume_frame w micros elapsed with hsame | hremoved
      · rw [hsame]
      · rw [hremoved]
        exact List.eraseP_sublist
  | signal signalCount =>
    refine h.of_sublist hwaiters ?_ (fun _ => id)
      (fun _ _ _ _ haction => by cases haction) ?_
    · unfold KernelSema.signal
      split_ifs <;> rfl
    · unfold KernelSema.signal
      split_ifs
      · exact .refl _
      · exact .refl _
      · exact (wake_places _ _).symm ▸ .refl _
  | cancel setCount =>
    refine h.of_sublist hwaiters ?_ (fun _ => id)
      (fun _ _ _ _ haction => by cases haction) ?_
    · unfold KernelSema.cancel
      split_ifs <;> rfl
    · unfold KernelSema.cancel
      split_ifs
      · exact .refl _
      · exact .refl _
      · exact (canceled_places _).symm ▸ .refl _
      · exact (canceled_places _).symm ▸ .refl _

/-! ### Who is passed over -/

/-- **The fast path of `Wait`** passes over greater needs only: who could be served is not left. -/
theorem Ordered.needCount_lt_of_wait (h : Ordered fifo actions s) {call : τ}
    (hcall : s.calls call = .fresh) {needCount : ℤ} {micros : Option ℕ} {priority : ℤ}
    {early late : τ}
    (hpasses : Passes s (s.after call (s.sema.wait call needCount micros priority)) early late) :
    (s.after call (s.sema.wait call needCount micros priority)).needCount late <
      (s.after call (s.sema.wait call needCount micros priority)).needCount early := by
  obtain ⟨hnot, hgranted, w, hw, rfl, hready⟩ := hpasses
  have hafter := h.waiters.wait hcall needCount micros priority
  -- only the call itself can have got its tokens
  obtain rfl : late = call := by
    by_contra hne
    exact hnot ((granted_after_of_ne hne fun w hne => mem_wait hne).1 hgranted)
  rw [hafter.needCount_waiter hw]
  unfold State.needCount
  rw [State.after_calls_self]
  rw [State.after_sema] at hw
  unfold KernelSema.wait at hgranted hafter hw ⊢
  have hreturned : ∀ {result : Result} {sema : KernelSema τ},
      Waiters (s.after late (.returned needCount result micros, sema)) →
      (s.after late (.returned needCount result micros, sema)).Granted late → result = .ok :=
    fun hafter hgranted => (hafter.granted_returned State.after_calls_self).1 hgranted
  split_ifs at hgranted hafter hw ⊢ with hbad hdeleted henough hzero
  · cases hreturned hafter hgranted
  · cases hreturned hafter hgranted
  · exact henough.trans_lt (h.waiters.starved w hw hready)
  · cases hreturned hafter hgranted
  all_goals
    -- the call has gone to sleep
    have hwaiter := (hafter.granted_waiter (mem_addWaiter.2 (.inl rfl))).1 hgranted
    cases hwaiter.1

omit [DecidableEq τ] in
/-- **`WakeWaiters`** serves a waiter behind another one that it passes over only if it needs
less. -/
theorem Ordered.needCount_lt_of_woken {a : Action τ} {count : ℤ}
    (h : Ordered fifo (actions ++ [a])
      ⟨KernelSema.wakeWaiters { s.sema with count := count }, s.calls⟩)
    (hbefore : Waiters s) {early late : τ} (hahead : Ahead fifo (actions ++ [a]) early late)
    (hpasses :
      Passes s ⟨KernelSema.wakeWaiters { s.sema with count := count }, s.calls⟩ early late) :
    s.needCount late < s.needCount early := by
  obtain ⟨hnot, hgranted, w, hw, rfl, hready⟩ := hpasses
  obtain ⟨w', hw', rfl⟩ :=
    List.mem_map.1 (((hbefore.granted_woken count late).1 hgranted).resolve_left hnot)
  have hqueue : w ∈ s.sema.waitingThreads := by
    rcases mem_wake hbefore.need_pos hw with ⟨first, -, rfl⟩ | ⟨hqueue, -⟩
    · cases hready
    · exact hqueue
  have hpassed : w ∉ served count s.sema.waitingThreads := by
    intro hserved
    have hsame := h.waiters.waiter_unique hw (grant_mem_wake hserved) rfl
    rw [hsame] at hready
    cases hready
  have hqueue' := ((served_sublist count _).trans List.filter_sublist).subset hw'
  rw [hbefore.needCount_waiter hqueue, hbefore.needCount_waiter hqueue']
  -- the waiter that is served stands behind the other one
  obtain ⟨before, behind, hsplit⟩ := List.append_of_mem hqueue
  have hplaces : ((before ++ w :: behind).map fun w => (w.call, w.priority)).Pairwise
      fun p p' => Ahead fifo (actions ++ [a]) p.1 p'.1 := by
    rw [← hsplit, ← wake_places count]
    exact List.pairwise_map.2 (h.ahead.imp And.left)
  rw [hsplit] at hqueue' hw' hpassed
  have hbehind : w' ∈ behind := by
    rcases List.mem_append.1 hqueue' with hmem | hmem
    · have hcross := (List.pairwise_append.1 (List.pairwise_map.1 hplaces)).2.2
      exact (h.ahead_asymm hahead (hcross w' hmem w List.mem_cons_self)).elim
    · refine (List.mem_cons.1 hmem).resolve_left ?_
      rintro rfl
      exact hpassed hw'
  exact needCount_lt_of_mem_served (hsplit ▸ hbefore.nodup) (hsplit ▸ hbefore.need_pos) hbehind hw'
    hpassed hready

/-- **A step passes over greater needs only.** -/
theorem Ordered.needCount_lt {a : Action τ} (h : Ordered fifo actions s) (hstep : Step s a s')
    {early late : τ} (hahead : Ahead fifo (actions ++ [a]) early late)
    (hpasses : Passes s s' early late) : s'.needCount late < s'.needCount early := by
  have hafter := h.step hstep
  cases hstep with
  | wait needCount micros priority hcall => exact h.needCount_lt_of_wait hcall hpasses
  | @resume w micros elapsed hcall hw =>
    -- a check gives no tokens
    refine absurd ?_ hpasses.1
    rcases eq_or_ne late w.call with rfl | hne
    · exact (h.waiters.resume_granted hw hcall elapsed).1 hpasses.2.1
    · exact (granted_after_of_ne hne fun w' hne => h.waiters.mem_resume w micros elapsed hne).1
        hpasses.2.1
  | signal signalCount =>
    generalize Action.signal signalCount (s.sema.signal signalCount).1 = a at hafter hahead
    unfold KernelSema.signal at hafter hpasses ⊢
    split_ifs at hafter hpasses ⊢
    · exact absurd hpasses.2.1 hpasses.1
    · exact absurd hpasses.2.1 hpasses.1
    · exact hafter.needCount_lt_of_woken h.waiters hahead hpasses
  | cancel setCount =>
    refine absurd ?_ hpasses.1
    have hgranted := hpasses.2.1
    unfold KernelSema.cancel at hgranted
    split_ifs at hgranted
    · exact hgranted
    · exact hgranted
    · exact (granted_canceled late).1 hgranted
    · exact (granted_canceled late).1 hgranted

end Steps

/-! ### Runs -/

theorem kernelCreateSema_waiters {name : Option String} {attr : ℕ} {init max : ℤ}
    {sema : KernelSema τ} (h : kernelCreateSema name attr init max = some sema) :
    sema.waitingThreads = [] ∧ sema.fifoOrder = (attr == 1) := by
  unfold kernelCreateSema at h
  split_ifs at h
  cases h
  exact ⟨rfl, rfl⟩

/-- **A semaphore passes over greater needs only.** In every run, when a call gets its tokens and
leaves behind one that comes before it (in the order of the calls in a FIFO semaphore, which has the
attribute `1`, and by priority and then in the order of the calls otherwise), then it needs less. -/
theorem needCount_lt_of_passes [DecidableEq τ] {name : Option String} {attr : ℕ} {init max : ℤ}
    {sema : KernelSema τ} {actions : List (Action τ)} {s s' : State τ} {a : Action τ}
    (hcreate : kernelCreateSema name attr init max = some sema)
    (hrun : Run Step (State.new sema) actions s) (hstep : Step s a s') {early late : τ}
    (hahead : Ahead (attr == 1) (actions ++ [a]) early late) (hpasses : Passes s s' early late) :
    s'.needCount late < s'.needCount early := by
  obtain ⟨hempty, hfifo⟩ := kernelCreateSema_waiters hcreate
  have hordered : Ordered (attr == 1) actions s :=
    hrun.history (hfifo ▸ .new hempty) fun _ _ _ _ h hstep => h.step hstep
  exact hordered.needCount_lt hstep hahead hpasses

/-- With one token there is, a call that needs two goes to sleep, and a call that needs one takes
it. -/
theorem needCount_lt_of_passes_fast : ∃ s s' : State ℕ, Passes s s' 0 1 ∧
    s'.needCount 1 < s'.needCount 0 := by
  let sema : KernelSema ℕ := ⟨.set, [], true, 1, 1, 2⟩
  let s := (State.new sema).after 0 (sema.wait 0 2 none 700)
  let s' := s.after 1 (s.sema.wait 1 1 none 700)
  have hwait : Step (State.new sema) (.wait 0 2 none 700) s := .wait 2 none 700 rfl
  have hlast : Step s (.wait 1 1 none 700) s' := .wait 1 none 700 rfl
  have hpasses : Passes s s' 0 1 := by
    refine ⟨?_, .inl ⟨1, none, rfl⟩, ⟨0, 0, 2, .timedOut, false⟩, List.mem_cons_self, rfl, rfl⟩
    rintro (⟨needCount, micros, hcall⟩ | ⟨w, hw, hcall, -⟩)
    · cases hcall
    · obtain rfl := List.mem_singleton.1 hw
      cases hcall
  exact ⟨s, s', hpasses, needCount_lt_of_passes (show kernelCreateSema (some "sema") 1 1 2 =
    some sema from rfl) (.single hwait) hlast ⟨0, 1, 700, 700, ⟨2, none, rfl⟩, ⟨1, none, rfl⟩,
      show (0 : ℕ) < 1 by decide⟩ hpasses⟩

/-- **A waiter can be overtaken**, by the fast path of `Wait`: the second call takes the token that
is not enough for the first one. -/
theorem fifo_overtaken :
    ¬∀ (sema : KernelSema ℕ) (actions : List (Action ℕ)) (s s' : State ℕ) (a : Action ℕ)
      (early late : ℕ), kernelCreateSema (some "sema") 1 1 2 = some sema →
      Run Step (State.new sema) actions s → Step s a s' →
      Ahead true (actions ++ [a]) early late → ¬ Passes s s' early late := by
  intro h
  let sema : KernelSema ℕ := ⟨.set, [], true, 1, 1, 2⟩
  let s := (State.new sema).after 0 (sema.wait 0 2 none 700)
  have hwait : Step (State.new sema) (.wait 0 2 none 700) s := .wait 2 none 700 rfl
  refine h sema _ s _ _ 0 1 rfl (.single hwait) (@Step.wait ℕ _ s 1 1 none 700 rfl)
    ⟨0, 1, 700, 700, ⟨2, none, rfl⟩, ⟨1, none, rfl⟩, show (0 : ℕ) < 1 by decide⟩ ?_
  refine ⟨?_, .inl ⟨1, none, rfl⟩, ⟨0, 0, 2, .timedOut, false⟩, List.mem_cons_self, rfl, rfl⟩
  rintro (⟨needCount, micros, hcall⟩ | ⟨w, hw, hcall, -⟩)
  · cases hcall
  · obtain rfl := List.mem_singleton.1 hw
    cases hcall

end Prosperismo.Semaphore
