import Mathlib.Algebra.BigOperators.Group.Finset.Basic
import Mathlib.Algebra.BigOperators.Group.Finset.Piecewise
import Mathlib.Data.Fintype.Basic
import Prosperismo.GpuQueues.Model

/-!
# The queues lose nothing

`Conserved` is the invariant of every interleaving. Each queue's history is a list in three
parts: what has completed, what the GPU thread holds, what waits (`requests`); so is the
history of the commands (`commands`). The count is the length of the queues (`count`), and
while the GPU thread holds anything, `m_processing` says so (`busy`). Whoever finds the state
`Idle` has therefore found everything completed (`Conserved.all_completed`).

`Conserved.asleep` says that no wake-up is lost: the GPU thread sleeps without a signal only
when there is nothing to do.
-/

namespace Prosperismo.GpuQueues

variable {κ ε τ : Type}

/-! ### Counting -/

/-- The submissions that wait. -/
def pending (queues : QueueId → List (Submission ε)) : ℕ :=
  ∑ id, (queues id).length

/-- The length of one queue is part of the sum. -/
theorem pending_update (queues : QueueId → List (Submission ε)) (id : QueueId)
    (queue : List (Submission ε)) :
    pending (Function.update queues id queue) + (queues id).length =
      pending queues + queue.length := by
  have hrest : ∑ i ∈ Finset.univ.erase id, (Function.update queues id queue i).length =
      ∑ i ∈ Finset.univ.erase id, (queues i).length := by
    refine Finset.sum_congr rfl fun i hi => ?_
    rw [Function.update_of_ne (Finset.ne_of_mem_erase hi)]
  have hold := Finset.add_sum_erase Finset.univ (fun i => (queues i).length) (Finset.mem_univ id)
  have hnew := Finset.add_sum_erase Finset.univ
    (fun i => (Function.update queues id queue i).length) (Finset.mem_univ id)
  simp only [Function.update_self] at hold hnew
  calc pending (Function.update queues id queue) + (queues id).length
      = queue.length + ∑ i ∈ Finset.univ.erase id, (queues i).length + (queues id).length := by
        rw [pending, ← hnew, hrest]
    _ = (queues id).length + ∑ i ∈ Finset.univ.erase id, (queues i).length + queue.length := by
        omega
    _ = pending queues + queue.length := by rw [hold, pending]

/-- Nothing waits iff every queue is empty. -/
theorem pending_eq_zero {queues : QueueId → List (Submission ε)} :
    pending queues = 0 ↔ ∀ id, queues id = [] := by
  simp [pending]

@[simp] theorem length_clearBlocked (queue : List (Submission ε)) :
    (clearBlocked queue).length = queue.length := by
  cases queue <;> rfl

@[simp] theorem requests_clearBlocked (queue : List (Submission ε)) :
    (clearBlocked queue).map Submission.request = queue.map Submission.request := by
  cases queue <;> rfl

@[simp] theorem pending_clearBlocked (queues : QueueId → List (Submission ε)) :
    pending (fun id => clearBlocked (queues id)) = pending queues := by
  simp [pending]

/-! ### The invariant -/

/-- The request that the GPU thread holds, if it is one of the queue `id`. -/
def GpuThread.held (thread : GpuThread κ ε) (id : QueueId) : List Request :=
  match thread with
  | .processing submission =>
    if submission.request.queueId = id then [submission.request] else []
  | _ => []

/-- The command that the GPU thread holds. -/
def GpuThread.heldCommand (thread : GpuThread κ ε) : List κ :=
  match thread with
  | .running command => [command]
  | _ => []

/-- The GPU thread holds a command or a submission. -/
def GpuThread.Busy (thread : GpuThread κ ε) : Prop :=
  match thread with
  | .running _ | .processing _ => True
  | _ => False

/-- A thread that is not busy holds nothing. -/
theorem held_of_not_busy {thread : GpuThread κ ε} (h : ¬ thread.Busy) :
    (∀ id, thread.held id = []) ∧ thread.heldCommand = [] := by
  cases thread with
  | running command | processing submission => exact absurd trivial h
  | polling | waiting | pausing | stopped => exact ⟨fun _ => rfl, rfl⟩

/-- What had been enqueued and sent at the mark has been since. -/
def Mark.Before (mark : Mark κ) (s : State κ ε τ) : Prop :=
  (∀ id, mark.enqueued id <+: s.enqueued id) ∧ mark.sent <+: s.sent

/-- The invariant of the queues. -/
structure Conserved (s : State κ ε τ) : Prop where
  requests : ∀ id, s.enqueued id =
    s.completed id ++ s.thread.held id ++ (s.queues id).map Submission.request
  ownQueue : ∀ id, ∀ submission ∈ s.queues id, submission.request.queueId = id
  count : s.submissionCount = pending s.queues
  commands : s.sent = s.ran ++ s.thread.heldCommand ++ s.commands
  busy : s.processing = true ↔ s.thread.Busy
  asleep : s.thread = .waiting → s.workAvailable = false →
    s.commands = [] ∧ s.submissionCount = 0 ∧ s.stopping = false
  stopped : s.thread = .stopped →
    s.commands = [] ∧ s.submissionCount = 0 ∧ s.accepting = false
  stopping : s.stopping = true → s.accepting = false
  waits : ∀ t mark, s.guests t = .waiting mark ∨ s.guests t = .draining mark → mark.Before s

namespace Conserved

variable {s : State κ ε τ}

/-- **An idle state has completed everything.** -/
theorem all_completed (h : Conserved s) (hidle : s.Idle) :
    (∀ id, s.completed id = s.enqueued id) ∧ s.ran = s.sent := by
  obtain ⟨hprocessing, hcommands, hcount⟩ := hidle
  have hempty : ∀ id, s.queues id = [] := pending_eq_zero.1 (h.count ▸ hcount)
  have hbusy : ¬ s.thread.Busy := by
    rw [← h.busy, hprocessing]
    exact Bool.false_ne_true
  have hheld := held_of_not_busy hbusy
  refine ⟨fun id => ?_, ?_⟩
  · rw [h.requests id, hempty id, hheld.1 id]
    simp
  · rw [h.commands, hheld.2, hcommands]
    simp

/-! ### The guest threads -/

/-- What only the guest threads look at does not matter. -/
theorem frame (h : Conserved s) (graphicsDone submissionMutex : Bool) (doneNum : ℕ) :
    Conserved { s with
      graphicsDone := graphicsDone, submissionMutex := submissionMutex, doneNum := doneNum } :=
  ⟨h.requests, h.ownQueue, h.count, h.commands, h.busy, h.asleep, h.stopped, h.stopping, h.waits⟩

/-- A guest thread moves on; where it waits, it has marked what came before. -/
theorem setGuest [DecidableEq τ] (h : Conserved s) (t : τ) (guest : Guest κ)
    (hguest : ∀ mark, guest = .waiting mark ∨ guest = .draining mark → mark.Before s) :
    Conserved (s.setGuest t guest) := by
  refine ⟨h.requests, h.ownQueue, h.count, h.commands, h.busy, h.asleep, h.stopped, h.stopping,
    fun t' mark hwaits => ?_⟩
  by_cases ht : t' = t
  · subst ht
    simp only [State.setGuest, Function.update_self] at hwaits
    exact hguest mark hwaits
  · simp only [State.setGuest, Function.update_of_ne ht] at hwaits
    exact h.waits t' mark hwaits

/-- A guest thread that does not wait. -/
theorem setGuest_active [DecidableEq τ] (h : Conserved s) (t : τ) {guest : Guest κ}
    (hwaiting : ∀ mark, guest ≠ .waiting mark) (hdraining : ∀ mark, guest ≠ .draining mark) :
    Conserved (s.setGuest t guest) := by
  refine h.setGuest t guest fun mark hguest => ?_
  rcases hguest with hguest | hguest
  · exact absurd hguest (hwaiting mark)
  · exact absurd hguest (hdraining mark)

/-- What is marked now has been enqueued and sent. -/
theorem mark_before (s : State κ ε τ) : s.mark.Before s :=
  ⟨fun _ => List.prefix_rfl, List.prefix_rfl⟩

/-- A submission joins the end of its queue. -/
theorem enqueue [Inhabited ε] (h : Conserved s) (haccepting : s.accepting = true)
    (request : Request) : Conserved (s.enqueue request) where
  requests id := by
    by_cases hid : id = request.queueId
    · subst hid
      simp only [State.enqueue, Function.update_self, h.requests request.queueId, List.map_append,
        List.append_assoc, List.map_cons, List.map_nil]
      rfl
    · simp only [State.enqueue, Function.update_of_ne hid]
      exact h.requests id
  ownQueue id submission hmem := by
    by_cases hid : id = request.queueId
    · subst hid
      simp only [State.enqueue, Function.update_self, List.mem_append, List.mem_singleton] at hmem
      rcases hmem with hmem | rfl
      · exact h.ownQueue _ submission hmem
      · rfl
    · simp only [State.enqueue, Function.update_of_ne hid] at hmem
      exact h.ownQueue id submission hmem
  count := by
    have hpending := pending_update s.queues request.queueId
      (s.queues request.queueId ++ [.new request])
    have hcount := h.count
    simp only [List.length_append, List.length_singleton] at hpending
    change s.submissionCount + 1 = pending (Function.update s.queues request.queueId _)
    omega
  commands := h.commands
  busy := h.busy
  asleep _ hsignal := absurd hsignal (by simp [State.enqueue])
  stopped hthread := by
    have hclosed := (h.stopped hthread).2.2
    rw [haccepting] at hclosed
    cases hclosed
  stopping := h.stopping
  waits t mark hguest := by
    obtain ⟨henqueued, hsent⟩ := h.waits t mark hguest
    refine ⟨fun id => ?_, hsent⟩
    by_cases hid : id = request.queueId
    · subst hid
      simp only [State.enqueue, Function.update_self]
      exact (henqueued request.queueId).trans (List.prefix_append _ _)
    · simp only [State.enqueue, Function.update_of_ne hid]
      exact henqueued id

/-- A command joins the end of the commands. -/
theorem sendCommand (h : Conserved s) (haccepting : s.accepting = true) (command : κ) :
    Conserved (s.sendCommand command) where
  requests := h.requests
  ownQueue := h.ownQueue
  count := h.count
  commands := by
    simp only [State.sendCommand, h.commands, List.append_assoc]
  busy := h.busy
  asleep _ hsignal := absurd hsignal (by simp [State.sendCommand])
  stopped hthread := by
    have hclosed := (h.stopped hthread).2.2
    rw [haccepting] at hclosed
    cases hclosed
  stopping := h.stopping
  waits t mark hguest := by
    obtain ⟨henqueued, hsent⟩ := h.waits t mark hguest
    exact ⟨henqueued, hsent.trans (List.prefix_append _ _)⟩

/-- `Shutdown` wakes the GPU thread up. -/
theorem shutdown (h : Conserved s) :
    Conserved { s with accepting := false, stopping := true, workAvailable := true } where
  requests := h.requests
  ownQueue := h.ownQueue
  count := h.count
  commands := h.commands
  busy := h.busy
  asleep _ hsignal := absurd hsignal (by simp)
  stopped hthread := ⟨(h.stopped hthread).1, (h.stopped hthread).2.1, rfl⟩
  stopping _ := rfl
  waits := h.waits

/-! ### The GPU thread -/

/-- The GPU thread moves from one place where it holds nothing to another. -/
theorem setThread (h : Conserved s) (thread : GpuThread κ ε) (workAvailable : Bool)
    (hfrom : ¬ s.thread.Busy) (hto : ¬ thread.Busy)
    (hasleep : thread = .waiting → s.commands = [] ∧ s.submissionCount = 0 ∧ s.stopping = false)
    (hstopped : thread = .stopped →
      s.commands = [] ∧ s.submissionCount = 0 ∧ s.accepting = false) :
    Conserved { s with
      processing := false, thread := thread, workAvailable := workAvailable } := by
  refine ⟨fun id => ?_, h.ownQueue, h.count, ?_, ⟨nofun, fun hbusy => absurd hbusy hto⟩,
    fun hthread _ => hasleep hthread, hstopped, h.stopping, h.waits⟩
  · change s.enqueued id = s.completed id ++ thread.held id ++ _
    rw [h.requests id, (held_of_not_busy hfrom).1, (held_of_not_busy hto).1]
  · change s.sent = s.ran ++ thread.heldCommand ++ s.commands
    rw [h.commands, (held_of_not_busy hfrom).2, (held_of_not_busy hto).2]

/-- The first command is taken. -/
theorem takeCommand (h : Conserved s) (hthread : ¬ s.thread.Busy) {command : κ} {rest : List κ}
    (hcommands : s.commands = command :: rest) :
    Conserved { s with commands := rest, processing := true, thread := .running command } where
  requests id := by
    change s.enqueued id = s.completed id ++ [] ++ (s.queues id).map Submission.request
    rw [h.requests id, (held_of_not_busy hthread).1]
  ownQueue := h.ownQueue
  count := h.count
  commands := by
    change s.sent = s.ran ++ [command] ++ rest
    rw [h.commands, (held_of_not_busy hthread).2, hcommands]
    simp
  busy := ⟨fun _ => trivial, fun _ => rfl⟩
  asleep hwaiting := nomatch hwaiting
  stopped hstopped := nomatch hstopped
  stopping := h.stopping
  waits := h.waits

/-- The front of a queue is taken. -/
theorem take (h : Conserved s) (hthread : ¬ s.thread.Busy) {id : QueueId}
    {front : Submission ε} {rest : List (Submission ε)} (hqueue : s.queues id = front :: rest) :
    Conserved (s.take id front rest) where
  requests id' := by
    have hfront : front.request.queueId = id :=
      h.ownQueue id front (hqueue ▸ List.mem_cons_self)
    have hrequests := h.requests id'
    rw [(held_of_not_busy hthread).1] at hrequests
    by_cases hid : id' = id
    · subst hid
      simp only [State.take, GpuThread.held, Function.update_self, if_pos hfront]
      rw [hrequests, hqueue]
      simp
    · have hother : front.request.queueId ≠ id' := fun heq => hid (heq.symm.trans hfront)
      simp only [State.take, GpuThread.held, Function.update_of_ne hid, if_neg hother]
      exact hrequests
  ownQueue id' submission hmem := by
    by_cases hid : id' = id
    · subst hid
      simp only [State.take, Function.update_self] at hmem
      exact h.ownQueue id' submission (hqueue ▸ List.mem_cons_of_mem front hmem)
    · simp only [State.take, Function.update_of_ne hid] at hmem
      exact h.ownQueue id' submission hmem
  count := by
    have hpending := pending_update s.queues id rest
    have hcount := h.count
    simp only [hqueue, List.length_cons] at hpending
    change s.submissionCount - 1 = pending (Function.update s.queues id rest)
    omega
  commands := by
    change s.sent = s.ran ++ [] ++ s.commands
    rw [h.commands, (held_of_not_busy hthread).2]
  busy := ⟨fun _ => trivial, fun _ => rfl⟩
  asleep hwaiting := nomatch hwaiting
  stopped hstopped := nomatch hstopped
  stopping := h.stopping
  waits := h.waits

/-- **The head of the GPU thread's loop.** -/
theorem poll (h : Conserved s) (hthread : ¬ s.thread.Busy) : Conserved s.poll := by
  rw [State.poll]
  split
  · rename_i command rest hcommands
    exact h.takeCommand hthread hcommands
  · rename_i hcommands
    split
    · rename_i hcount
      split
      · rename_i hstopping
        exact h.setThread .stopped s.workAvailable hthread id nofun
          fun _ => ⟨hcommands, hcount, h.stopping hstopping⟩
      · rename_i hstopping
        exact h.setThread .waiting false hthread id
          (fun _ => ⟨hcommands, hcount, Bool.eq_false_iff.2 hstopping⟩) nofun
    · split
      · exact h.setThread .pausing s.workAvailable hthread id nofun nofun
      · split
        · exact h
        · rename_i hqueue
          exact h.take hthread hqueue

/-- The fronts may be taken again. -/
theorem unblock (h : Conserved s) : Conserved s.unblock where
  requests id := by
    change s.enqueued id = s.completed id ++ s.thread.held id ++
      (clearBlocked (s.queues id)).map Submission.request
    rw [requests_clearBlocked]
    exact h.requests id
  ownQueue id submission hmem := by
    have hrequest : submission.request ∈ (s.queues id).map Submission.request := by
      rw [← requests_clearBlocked]
      exact List.mem_map_of_mem hmem
    obtain ⟨submission', hmem', heq⟩ := List.mem_map.1 hrequest
    rw [← heq]
    exact h.ownQueue id submission' hmem'
  count := by
    change s.submissionCount = pending fun id => clearBlocked (s.queues id)
    rw [pending_clearBlocked]
    exact h.count
  commands := h.commands
  busy := h.busy
  asleep := h.asleep
  stopped := h.stopped
  stopping := h.stopping
  waits := h.waits

/-- The pause is over. -/
theorem pauseOver (h : Conserved s) (hthread : s.thread = .pausing) :
    Conserved { s.unblock with thread := .polling } := by
  have hunblock := h.unblock
  refine ⟨fun id => ?_, hunblock.ownQueue, hunblock.count, ?_, ?_, nofun, nofun, h.stopping,
    h.waits⟩
  · have hrequests := hunblock.requests id
    rw [show s.unblock.thread = .pausing from hthread] at hrequests
    exact hrequests
  · have hcommands := h.commands
    rw [hthread] at hcommands
    exact hcommands
  · have hbusy := h.busy
    rw [hthread] at hbusy
    exact hbusy

/-- A command has run. -/
theorem finishCommand (h : Conserved s) {command : κ} (hthread : s.thread = .running command) :
    Conserved (s.finishCommand command) where
  requests id := by
    have hrequests := h.requests id
    rw [hthread] at hrequests
    exact hrequests
  ownQueue := h.ownQueue
  count := h.count
  commands := by
    change s.sent = s.ran ++ [command] ++ [] ++ s.commands
    rw [h.commands, hthread, List.append_nil]
    rfl
  busy := ⟨nofun, False.elim⟩
  asleep hwaiting := nomatch hwaiting
  stopped hstopped := nomatch hstopped
  stopping := h.stopping
  waits := h.waits

/-- A submission has completed. -/
theorem finish (h : Conserved s) {submission : Submission ε}
    (hthread : s.thread = .processing submission) : Conserved (s.finish submission) where
  requests id := by
    have hrequests := h.unblock.requests id
    rw [show s.unblock.thread = .processing submission from hthread] at hrequests
    by_cases hid : id = submission.request.queueId
    · subst hid
      simp only [State.finish, GpuThread.held, Function.update_self, List.append_nil]
      simp only [GpuThread.held, if_true] at hrequests
      exact hrequests
    · simp only [State.finish, GpuThread.held, Function.update_of_ne hid]
      simp only [GpuThread.held, if_neg (Ne.symm hid)] at hrequests
      exact hrequests
  ownQueue := h.unblock.ownQueue
  count := h.unblock.count
  commands := by
    have hcommands := h.commands
    rw [hthread] at hcommands
    exact hcommands
  busy := ⟨nofun, False.elim⟩
  asleep hwaiting := nomatch hwaiting
  stopped hstopped := nomatch hstopped
  stopping := h.stopping
  waits := h.waits

/-- A blocked submission is the front of its queue again. -/
theorem putBack (h : Conserved s) {submission : Submission ε}
    (hthread : s.thread = .processing submission) (progress : Progress ε) :
    Conserved (s.putBack submission progress) where
  requests id := by
    have hrequests := h.requests id
    rw [hthread] at hrequests
    by_cases hid : id = submission.request.queueId
    · subst hid
      simp only [State.putBack, GpuThread.held, Function.update_self, List.map_cons,
        List.append_nil]
      simp only [GpuThread.held, if_true, List.append_assoc] at hrequests
      exact hrequests
    · simp only [State.putBack, GpuThread.held, Function.update_of_ne hid]
      simp only [GpuThread.held, if_neg (Ne.symm hid)] at hrequests
      exact hrequests
  ownQueue id submission' hmem := by
    by_cases hid : id = submission.request.queueId
    · subst hid
      simp only [State.putBack, Function.update_self, List.mem_cons] at hmem
      rcases hmem with rfl | hmem
      · rfl
      · exact h.ownQueue _ submission' hmem
    · simp only [State.putBack, Function.update_of_ne hid] at hmem
      exact h.ownQueue id submission' hmem
  count := by
    have hpending := pending_update s.queues submission.request.queueId
      ({ submission with progress := progress, blocked := true } ::
        s.queues submission.request.queueId)
    have hcount := h.count
    simp only [List.length_cons] at hpending
    change s.submissionCount + 1 = pending (Function.update s.queues submission.request.queueId _)
    omega
  commands := by
    have hcommands := h.commands
    rw [hthread] at hcommands
    exact hcommands
  busy := ⟨nofun, False.elim⟩
  asleep hwaiting := nomatch hwaiting
  stopped hstopped := nomatch hstopped
  stopping := h.stopping
  waits := h.waits

/-- **Every step keeps the invariant.** -/
theorem step [Inhabited ε] [DecidableEq τ] {a : Action κ ε τ} {s' : State κ ε τ}
    (h : Conserved s) (hstep : Step s a s') : Conserved s' := by
  cases hstep with
  | submit _ _ hrequest =>
    cases hrequest
    exact (h.frame false true s.doneNum).setGuest_active _ nofun nofun
  | submitCompute _ _ hrequest =>
    rw [State.submitCompute] at hrequest
    split at hrequest <;> cases hrequest
    exact (h.frame s.graphicsDone true s.doneNum).setGuest_active _ nofun nofun
  | submitFlipPreparation _ _ hrequest =>
    cases hrequest
    exact (h.frame false true s.doneNum).setGuest_active _ nofun nofun
  | enqueue _ haccepting =>
    exact ((h.enqueue haccepting _).frame s.graphicsDone false s.doneNum).setGuest_active _
      nofun nofun
  | sendCommand _ haccepting => exact h.sendCommand haccepting _
  | waitForIdle _ =>
    refine h.setGuest _ _ fun mark hguest => ?_
    rcases hguest with hguest | hguest <;> cases hguest
    exact mark_before s
  | idle _ _ => exact h.setGuest_active _ nofun nofun
  | done _ _ =>
    refine (h.frame s.graphicsDone true s.doneNum).setGuest _ _ fun mark hguest => ?_
    rcases hguest with hguest | hguest <;> cases hguest
    exact mark_before s
  | drained _ _ => exact h.setGuest_active _ nofun nofun
  | flush _ haccepting => exact (h.sendCommand haccepting _).setGuest_active _ nofun nofun
  | flushed _ _ =>
    exact (h.frame true false (s.doneNum + 1)).setGuest_active _ nofun nofun
  | shutdown => exact h.shutdown
  | poll hthread =>
    refine h.poll ?_
    rcases hthread with hthread | ⟨hthread, -⟩ <;> rw [hthread] <;> exact id
  | spuriousWakeup hthread =>
    refine h.poll ?_
    rw [hthread]
    exact id
  | pauseOver hthread => exact h.pauseOver hthread
  | commandRun hthread => exact h.finishCommand hthread
  | blocked hthread => exact h.putBack hthread _
  | complete hthread => exact h.finish hthread

end Conserved

/-- The invariant holds when the GPU thread starts. -/
theorem conserved_start : Conserved (State.start : State κ ε τ) where
  requests _ := rfl
  ownQueue _ _ h := absurd h List.not_mem_nil
  count := by simp [State.start, pending]
  commands := rfl
  busy := ⟨nofun, False.elim⟩
  asleep h := nomatch h
  stopped h := nomatch h
  stopping h := nomatch h
  waits _ _ h := by rcases h with h | h <;> cases h

end Prosperismo.GpuQueues
