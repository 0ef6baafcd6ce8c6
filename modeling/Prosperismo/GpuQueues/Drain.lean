import Mathlib.Algebra.Group.Fin.Basic
import Mathlib.Logic.Relation
import Prosperismo.GpuQueues.Conservation

/-!
# The queues are drained

From every state of every interleaving the GPU thread can complete everything that has been
enqueued, by its own steps (`Conserved.drains`): a blocked submission is taken again, the flags
that keep it from being taken are cleared, and no wake-up is lost. With the invariant this gives
the main result, `queues_lose_nothing`.
-/

namespace Prosperismo.GpuQueues

open Relation

variable {κ ε τ : Type}

/-! ### The queue that is taken from -/

instance : @NeZero ℕ Zero.ofOfNat0 queueCount := ⟨Nat.succ_ne_zero 56⟩

/-- The selected queue has a front. -/
theorem selectQueue_some {s : State κ ε τ} {id : QueueId} (h : s.selectQueue = some id) :
    ∃ front rest, s.queues id = front :: rest := by
  have hfront := List.find?_some h
  cases hqueue : s.queues id with
  | nil => simp [hqueue] at hfront
  | cons front rest => exact ⟨front, rest, rfl⟩

/-- Where no queue is selected, every front is blocked. -/
theorem selectQueue_none {s : State κ ε τ} (h : s.selectQueue = none) {id : QueueId}
    {front : Submission ε} {rest : List (Submission ε)} (hqueue : s.queues id = front :: rest) :
    front.blocked = true := by
  -- the search passes every queue once around
  have hmem : id ∈ (List.finRange queueCount).map (s.nextQueue + ·) :=
    List.mem_map.2 ⟨id - s.nextQueue, List.mem_finRange _, add_sub_cancel s.nextQueue id⟩
  have hnot := List.find?_eq_none.1 h id hmem
  simpa [hqueue] using hnot

/-- After the fronts have been unblocked, a queue is selected if any submission waits. -/
theorem selectQueue_unblock {s : State κ ε τ} (h : pending s.queues ≠ 0) :
    s.unblock.selectQueue ≠ none := by
  intro hnone
  refine h (pending_eq_zero.2 fun id => ?_)
  cases hqueue : s.queues id with
  | nil => rfl
  | cons front rest =>
    have hunblocked : s.unblock.queues id = { front with blocked := false } :: rest := by
      simp only [State.unblock, hqueue, clearBlocked]
    have hblocked := selectQueue_none hnone hunblocked
    cases hblocked

/-! ### Steps of the GPU thread -/

/-- The steps of the GPU thread when every submission it takes completes and no wake-up is
spurious. -/
def Action.Gpu : Action κ ε τ → Prop
  | poll | pauseOver | commandRun | complete => True
  | _ => False

/-- A step of the GPU thread. -/
def GpuStep [Inhabited ε] [DecidableEq τ] (s s' : State κ ε τ) : Prop :=
  ∃ a : Action κ ε τ, a.Gpu ∧ Step s a s'

/-- The GPU thread is at the head of its loop, or has been woken up. -/
def State.Awake (s : State κ ε τ) : Prop :=
  s.thread = .polling ∨ s.thread = .waiting ∧ s.workAvailable = true

/-- What is left to do. -/
def State.work (s : State κ ε τ) : ℕ :=
  s.commands.length + s.submissionCount

variable [Inhabited ε] [DecidableEq τ]

/-- The GPU thread enqueues and sends nothing. -/
theorem GpuStep.frame {s s' : State κ ε τ} (h : GpuStep s s') :
    s'.enqueued = s.enqueued ∧ s'.sent = s.sent := by
  obtain ⟨a, ha, hstep⟩ := h
  cases hstep with
  | poll _ =>
    simp only [State.poll]
    split
    · exact ⟨rfl, rfl⟩
    · split
      · split <;> exact ⟨rfl, rfl⟩
      · split
        · exact ⟨rfl, rfl⟩
        · split <;> exact ⟨rfl, rfl⟩
  | pauseOver _ | commandRun _ | complete _ => exact ⟨rfl, rfl⟩
  | submit | submitCompute | submitFlipPreparation | enqueue | sendCommand | waitForIdle | idle
  | done | drained | flush | flushed | shutdown | spuriousWakeup | blocked => exact ha.elim

/-- The GPU thread's steps enqueue and send nothing. -/
theorem gpuSteps_frame {s s' : State κ ε τ} (h : ReflTransGen GpuStep s s') :
    s'.enqueued = s.enqueued ∧ s'.sent = s.sent := by
  induction h with
  | refl => exact ⟨rfl, rfl⟩
  | tail _ hstep ih => exact ⟨hstep.frame.1.trans ih.1, hstep.frame.2.trans ih.2⟩

/-- The steps of the GPU thread keep the invariant. -/
theorem Conserved.gpuSteps {s s' : State κ ε τ} (h : Conserved s)
    (hsteps : ReflTransGen GpuStep s s') : Conserved s' := by
  induction hsteps with
  | refl => exact h
  | tail _ hstep ih =>
    obtain ⟨a, -, hstep⟩ := hstep
    exact ih.step hstep

/-- Where a queue is selected, a submission is taken and completed. -/
theorem completes_selected {s : State κ ε τ} (hawake : s.Awake)
    (hcommands : s.commands = []) (hcount : s.submissionCount ≠ 0) {id : QueueId}
    (hselect : s.selectQueue = some id) :
    ∃ s', ReflTransGen GpuStep s s' ∧ s'.Awake ∧ s'.work < s.work := by
  obtain ⟨front, rest, hqueue⟩ := selectQueue_some hselect
  have hpoll : s.poll = s.take id front rest := by
    simp only [State.poll, hcommands, if_neg hcount, hselect, hqueue]
  refine ⟨(s.take id front rest).finish front, ?_, .inl rfl, ?_⟩
  · have htake : GpuStep s (s.take id front rest) :=
      ⟨.poll, trivial, hpoll ▸ .poll hawake⟩
    have hfinish : GpuStep (s.take id front rest) ((s.take id front rest).finish front) :=
      ⟨.complete, trivial, .complete rfl⟩
    exact (ReflTransGen.single htake).tail hfinish
  · change s.commands.length + (s.submissionCount - 1) < s.commands.length + s.submissionCount
    omega

/-- **Progress.** As long as something is left to do, the GPU thread does some of it. -/
theorem completes_some {s : State κ ε τ} (h : Conserved s) (hawake : s.Awake)
    (hwork : s.work ≠ 0) :
    ∃ s', ReflTransGen GpuStep s s' ∧ s'.Awake ∧ s'.work < s.work := by
  have hpolled : GpuStep s s.poll := ⟨.poll, trivial, .poll hawake⟩
  cases hcommands : s.commands with
  | cons command rest =>
    -- a command runs before any submission
    have hpoll : s.poll =
        { s with commands := rest, processing := true, thread := .running command } := by
      simp only [State.poll, hcommands]
    rw [hpoll] at hpolled
    refine ⟨_, (ReflTransGen.single hpolled).tail ⟨.commandRun, trivial, .commandRun rfl⟩,
      .inl rfl, ?_⟩
    simp [State.work, State.finishCommand, hcommands]
  | nil =>
    have hcount : s.submissionCount ≠ 0 := by simpa [State.work, hcommands] using hwork
    cases hselect : s.selectQueue with
    | some id => exact completes_selected hawake hcommands hcount hselect
    | none =>
      -- every front is blocked: after the pause they are not
      set paused : State κ ε τ := { s with processing := false, thread := .pausing }
      set resumed : State κ ε τ := { paused.unblock with thread := .polling }
      have hpoll : s.poll = paused := by
        rw [State.poll]
        split
        · rename_i hmore
          rw [hcommands] at hmore
          cases hmore
        · rw [if_neg hcount, hselect]
      rw [hpoll] at hpolled
      have hover : GpuStep paused resumed := ⟨.pauseOver, trivial, .pauseOver rfl⟩
      obtain ⟨id, hid⟩ : ∃ id, resumed.selectQueue = some id :=
        Option.ne_none_iff_exists'.1 (selectQueue_unblock (h.count ▸ hcount))
      obtain ⟨s', hsteps, hawake', hless⟩ :=
        completes_selected (s := resumed) (.inl rfl) hcommands hcount hid
      exact ⟨s', ((ReflTransGen.single hpolled).tail hover).trans hsteps, hawake', hless⟩

/-- An awake GPU thread does everything that is left to do. -/
theorem completes_all {n : ℕ} {s : State κ ε τ} (h : Conserved s) (hawake : s.Awake)
    (hwork : s.work = n) : ∃ s', ReflTransGen GpuStep s s' ∧ s'.Awake ∧ s'.work = 0 := by
  induction n using Nat.strongRecOn generalizing s with
  | ind n ih =>
    by_cases hzero : s.work = 0
    · exact ⟨s, .refl, hawake, hzero⟩
    · obtain ⟨s₁, hsteps₁, hawake₁, hless⟩ := completes_some h hawake hzero
      obtain ⟨s₂, hsteps₂, hawake₂, hzero₂⟩ :=
        ih s₁.work (hwork ▸ hless) (h.gpuSteps hsteps₁) hawake₁ rfl
      exact ⟨s₂, hsteps₁.trans hsteps₂, hawake₂, hzero₂⟩

/-- The GPU thread comes back to the head of its loop, unless there is nothing left to do. -/
theorem comes_back {s : State κ ε τ} (h : Conserved s) :
    ∃ s', ReflTransGen GpuStep s s' ∧ (s'.Awake ∨ s'.work = 0 ∧ ¬ s'.thread.Busy) := by
  cases hthread : s.thread with
  | polling => exact ⟨s, .refl, .inl (.inl hthread)⟩
  | waiting =>
    cases hsignal : s.workAvailable with
    | true => exact ⟨s, .refl, .inl (.inr ⟨hthread, hsignal⟩)⟩
    | false =>
      obtain ⟨hcommands, hcount, -⟩ := h.asleep hthread hsignal
      refine ⟨s, .refl, .inr ⟨?_, ?_⟩⟩
      · rw [State.work, hcommands, hcount]
        rfl
      · rw [hthread]
        exact id
  | pausing => exact ⟨_, .single ⟨.pauseOver, trivial, .pauseOver hthread⟩, .inl (.inl rfl)⟩
  | running command =>
    exact ⟨_, .single ⟨.commandRun, trivial, .commandRun hthread⟩, .inl (.inl rfl)⟩
  | processing submission =>
    exact ⟨_, .single ⟨.complete, trivial, .complete hthread⟩, .inl (.inl rfl)⟩
  | stopped =>
    obtain ⟨hcommands, hcount, -⟩ := h.stopped hthread
    refine ⟨s, .refl, .inr ⟨?_, ?_⟩⟩
    · rw [State.work, hcommands, hcount]
      rfl
    · rw [hthread]
      exact id

/-- **The GPU thread can complete everything**, whatever it holds and whatever is blocked. -/
theorem Conserved.drains {s : State κ ε τ} (h : Conserved s) :
    ∃ s', ReflTransGen GpuStep s s' ∧ (∀ id, s'.completed id = s.enqueued id) ∧
      s'.ran = s.sent := by
  -- a state in which nothing is left to do has completed what had been enqueued
  have hcompleted : ∀ s', ReflTransGen GpuStep s s' → s'.work = 0 → ¬ s'.thread.Busy →
      (∀ id, s'.completed id = s.enqueued id) ∧ s'.ran = s.sent := by
    intro s' hsteps hzero hbusy
    have hconserved := h.gpuSteps hsteps
    obtain ⟨hcommands, hcount⟩ := Nat.add_eq_zero_iff.1 hzero
    have hidle : s'.Idle :=
      ⟨Bool.eq_false_iff.2 fun hprocessing => hbusy (hconserved.busy.1 hprocessing),
        List.length_eq_zero_iff.1 hcommands, hcount⟩
    obtain ⟨hall, hran⟩ := hconserved.all_completed hidle
    obtain ⟨henqueued, hsent⟩ := gpuSteps_frame hsteps
    exact ⟨fun id => (hall id).trans (congrFun henqueued id), hran.trans hsent⟩
  obtain ⟨s₁, hsteps₁, hawake | ⟨hzero, hbusy⟩⟩ := comes_back h
  · obtain ⟨s₂, hsteps₂, hawake₂, hzero₂⟩ := completes_all (h.gpuSteps hsteps₁) hawake rfl
    refine ⟨s₂, hsteps₁.trans hsteps₂, hcompleted s₂ (hsteps₁.trans hsteps₂) hzero₂ ?_⟩
    rcases hawake₂ with hthread | ⟨hthread, -⟩ <;> rw [hthread] <;> exact id
  · exact ⟨s₁, hsteps₁, hcompleted s₁ hsteps₁ hzero hbusy⟩

/-! ### Every interleaving -/

/-- The invariant holds in every interleaving. -/
theorem conserved_run {as : List (Action κ ε τ)} {s : State κ ε τ} (h : Run Step .start as s) :
    Conserved s :=
  h.invariant conserved_start fun _ _ _ hs hstep => hs.step hstep

/-- **GPU queues lose nothing.** In every interleaving: the submissions of a queue complete in
the order in which they were enqueued, each once, and the others are held by the GPU thread or
wait; the count is the number of those that wait; the commands run in the order sent;
`WaitForIdle` returns when everything has completed that had been enqueued before its call; and
the GPU thread can complete whatever has been enqueued. -/
theorem queues_lose_nothing {as : List (Action κ ε τ)} {s : State κ ε τ}
    (h : Run Step .start as s) :
    (∀ id, s.enqueued id =
      s.completed id ++ s.thread.held id ++ (s.queues id).map Submission.request) ∧
    s.submissionCount = ∑ id, (s.queues id).length ∧
    s.sent = s.ran ++ s.thread.heldCommand ++ s.commands ∧
    (∀ t s', Step s (.idle t) s' ∨ Step s (.drained t) s' → ∃ mark : Mark κ,
      (s.guests t = .waiting mark ∨ s.guests t = .draining mark) ∧
        (∀ id, mark.enqueued id <+: s'.completed id) ∧ mark.sent <+: s'.ran) ∧
    ∃ s', ReflTransGen GpuStep s s' ∧ (∀ id, s'.completed id = s.enqueued id) ∧
      s'.ran = s.sent := by
  have hconserved := conserved_run h
  -- what a waiting thread had marked has completed when it finds the state idle
  have hreturns : ∀ t mark, s.guests t = .waiting mark ∨ s.guests t = .draining mark → s.Idle →
      (∀ id, mark.enqueued id <+: s.completed id) ∧ mark.sent <+: s.ran := by
    intro t mark hguest hidle
    obtain ⟨hall, hran⟩ := hconserved.all_completed hidle
    obtain ⟨henqueued, hsent⟩ := hconserved.waits t mark hguest
    exact ⟨fun id => (hall id).symm ▸ henqueued id, hran.symm ▸ hsent⟩
  refine ⟨hconserved.requests, hconserved.count, hconserved.commands, fun t s' hstep => ?_,
    hconserved.drains⟩
  rcases hstep with hstep | hstep
  · cases hstep with
    | @idle _ mark hguest hidle =>
      exact ⟨mark, .inl hguest, hreturns t mark (.inl hguest) hidle⟩
  · cases hstep with
    | @drained _ mark hguest hidle =>
      exact ⟨mark, .inr hguest, hreturns t mark (.inr hguest) hidle⟩

/-- A submission that is blocked once completes at the second attempt. -/
theorem queues_lose_nothing_blocked :
    ∃ (as : List (Action ℕ Unit Unit)) (s : State ℕ Unit Unit), Run Step .start as s ∧
      s.completed 0 = [⟨.flipPreparation, 0, [], [], false, true, 5⟩] ∧
      s.enqueued 0 = s.completed 0 ++ s.thread.held 0 ++ (s.queues 0).map Submission.request := by
  have hsubmit : Step (State.start : State ℕ Unit Unit) (.submitFlipPreparation () 5) _ :=
    .submitFlipPreparation rfl rfl rfl
  have henqueued := (Run.single hsubmit).snoc (Step.enqueue (t := ()) rfl rfl)
  have hblocked := (henqueued.snoc (Step.poll (.inl rfl))).snoc
    (Step.blocked rfl : Step _ (.blocked ⟨(), (), true, false, false⟩) _)
  have hresumed := ((hblocked.snoc (Step.poll (.inl rfl))).snoc (Step.pauseOver rfl)).snoc
    (Step.poll (.inl rfl))
  have hrun := hresumed.snoc (Step.complete rfl)
  exact ⟨_, _, hrun, rfl, (queues_lose_nothing hrun).1 0⟩

end Prosperismo.GpuQueues
