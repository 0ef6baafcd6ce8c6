import Mathlib.Data.Fin.Basic
import Mathlib.Data.List.FinRange
import Mathlib.Logic.Function.Basic
import Prosperismo.Base.Run

/-!
# The queues of the GPU thread

Guest threads put submissions into 57 queues and commands into one; the GPU thread takes them
out one at a time. A submission that `Process` reports blocked goes back to the front of its
queue, and is not taken again until another one completes or a pause is over.

Everything shared is read and written under `m_queue_mutex`, so a step is one critical
section (`Step`): of a guest thread, or of the GPU thread. What `Process` does to a
submission is left open: it writes the submission's progress, and reports it complete or not.
A call that stops the process has no step.

`enqueued`, `completed`, `sent` and `ran` are histories that the source does not keep.
-/

namespace Prosperismo.GpuQueues

/-! ### Submissions -/

/-- `ComputePipeCount * QueuesPerComputePipe`. -/
def computeQueueCount : ℕ := 7 * 8

/-- `QueueCount`: the graphics queue and the compute queues. -/
def queueCount : ℕ := 1 + computeQueueCount

/-- A queue's number; the source stops the process at any other. -/
abbrev QueueId := Fin queueCount

/-- `SubmissionType`. -/
inductive SubmissionType
  | graphics
  | compute
  | flipPreparation
  deriving DecidableEq

/-- The part of a `Submission` that is fixed when it is enqueued. -/
structure Request where
  type : SubmissionType
  queueId : QueueId
  commands : List UInt32
  constantCommands : List UInt32
  triggerAgcInterruptOnDone : Bool
  resetProcessor : Bool
  flipRequestId : ℕ
  deriving DecidableEq

/-- The part of a `Submission` that `Process` writes, over the type of a `Pm4Execution`. -/
structure Progress (ε : Type) where
  commandExecution : ε
  constantExecution : ε
  started : Bool
  commandComplete : Bool
  constantComplete : Bool

/-- `Submission`. -/
structure Submission (ε : Type) where
  request : Request
  progress : Progress ε
  blocked : Bool

/-- A submission as it is enqueued. -/
def Submission.new {ε : Type} [Inhabited ε] (request : Request) : Submission ε :=
  ⟨request, ⟨default, default, false, false, false⟩, false⟩

/-- `front().blocked = false`, if there is a front. -/
def clearBlocked {ε : Type} : List (Submission ε) → List (Submission ε)
  | [] => []
  | front :: rest => { front with blocked := false } :: rest

/-! ### Threads -/

/-- Where the GPU thread stands between two critical sections: at the head of its loop, in
`m_work_available.Wait`, in the pause of `WaitFor`, in a command, in `Process`, or at its end. -/
inductive GpuThread (κ ε : Type)
  | polling
  | waiting
  | pausing
  | running (command : κ)
  | processing (submission : Submission ε)
  | stopped

/-- What had been enqueued and sent when `WaitForIdle` was called. -/
structure Mark (κ : Type) where
  enqueued : QueueId → List Request
  sent : List κ

/-- Where a guest thread stands: outside; between `m_submission_mutex` and `Enqueue`; in
`WaitForIdle`; or in `Done`, waiting for idleness, about to send its command, or waiting for the
command with the given index. -/
inductive Guest (κ : Type)
  | outside
  | submitting (request : Request)
  | waiting (mark : Mark κ)
  | draining (mark : Mark κ)
  | drained
  | flushing (index : ℕ)

/-- `GpuState`, with its threads and the histories. -/
structure State (κ ε τ : Type) where
  queues : QueueId → List (Submission ε)
  commands : List κ
  nextQueue : QueueId
  submissionCount : ℕ
  processing : Bool
  graphicsDone : Bool
  accepting : Bool
  stopping : Bool
  doneNum : ℕ
  submissionMutex : Bool
  thread : GpuThread κ ε
  workAvailable : Bool
  guests : τ → Guest κ
  enqueued : QueueId → List Request
  completed : QueueId → List Request
  sent : List κ
  ran : List κ

namespace State

variable {κ ε τ : Type}

/-- The state when the GPU thread starts. -/
def start : State κ ε τ where
  queues _ := []
  commands := []
  nextQueue := ⟨0, by decide⟩
  submissionCount := 0
  processing := false
  graphicsDone := true
  accepting := true
  stopping := false
  doneNum := 0
  submissionMutex := false
  thread := .polling
  workAvailable := false
  guests _ := .outside
  enqueued _ := []
  completed _ := []
  sent := []
  ran := []

/-- The condition `WaitForIdle` waits for. -/
def Idle (s : State κ ε τ) : Prop :=
  s.processing = false ∧ s.commands = [] ∧ s.submissionCount = 0

/-- What has been enqueued and sent so far. -/
def mark (s : State κ ε τ) : Mark κ :=
  ⟨s.enqueued, s.sent⟩

/-! ### Guest threads -/

/-- `Enqueue`, with `m_work_available.Signal()`. -/
def enqueue [Inhabited ε] (s : State κ ε τ) (request : Request) : State κ ε τ :=
  { s with
    queues := Function.update s.queues request.queueId
      (s.queues request.queueId ++ [.new request])
    submissionCount := s.submissionCount + 1
    workAvailable := true
    enqueued := Function.update s.enqueued request.queueId
      (s.enqueued request.queueId ++ [request]) }

/-- `SendCommand` of a guest thread, with `m_work_available.Signal()`. -/
def sendCommand (s : State κ ε τ) (command : κ) : State κ ε τ :=
  { s with
    commands := s.commands ++ [command]
    workAvailable := true
    sent := s.sent ++ [command] }

/-- A guest thread moves on. -/
def setGuest [DecidableEq τ] (s : State κ ε τ) (t : τ) (guest : Guest κ) : State κ ε τ :=
  { s with guests := Function.update s.guests t guest }

/-- `Submit` up to `Enqueue`. -/
def submit (s : State κ ε τ) (commands constantCommands : List UInt32) (trigger : Bool) :
    Request × State κ ε τ :=
  (⟨.graphics, ⟨0, by decide⟩, commands, constantCommands, trigger, s.graphicsDone, 0⟩,
    { s with graphicsDone := false, submissionMutex := true })

/-- `SubmitCompute` up to `Enqueue`; the queue is one of `0x20 .. 0x57`. -/
def submitCompute (s : State κ ε τ) (queue : ℕ) (commands : List UInt32) (trigger : Bool) :
    Option (Request × State κ ε τ) :=
  if h : 0x20 ≤ queue ∧ queue < 0x20 + computeQueueCount then
    have hlt : 1 + (queue - 0x20) < queueCount := by
      simp only [queueCount]
      omega
    some (⟨.compute, ⟨1 + (queue - 0x20), hlt⟩, commands, [], trigger, false, 0⟩,
      { s with submissionMutex := true })
  else
    none

/-- `SubmitFlipPreparation` up to `Enqueue`. -/
def submitFlipPreparation (s : State κ ε τ) (requestId : ℕ) : Request × State κ ε τ :=
  (⟨.flipPreparation, ⟨0, by decide⟩, [], [], false, s.graphicsDone, requestId⟩,
    { s with graphicsDone := false, submissionMutex := true })

/-! ### The GPU thread -/

/-- The queue the GPU thread takes from next: the first from `m_next_queue` on that has a
front that is not blocked. -/
def selectQueue (s : State κ ε τ) : Option QueueId :=
  ((List.finRange queueCount).map (s.nextQueue + ·)).find? fun id =>
    match s.queues id with
    | [] => false
    | front :: _ => !front.blocked

/-- The GPU thread takes the front of the queue `id`. -/
def take (s : State κ ε τ) (id : QueueId) (front : Submission ε) (rest : List (Submission ε)) :
    State κ ε τ :=
  { s with
    queues := Function.update s.queues id rest
    submissionCount := s.submissionCount - 1
    nextQueue := id + ⟨1, by decide⟩
    processing := true
    thread := .processing front }

/-- The critical section at the head of the GPU thread's loop. -/
def poll (s : State κ ε τ) : State κ ε τ :=
  match s.commands with
  | command :: rest =>
    { s with commands := rest, processing := true, thread := .running command }
  | [] =>
    if s.submissionCount = 0 then
      if s.stopping then { s with processing := false, thread := .stopped }
      else { s with processing := false, thread := .waiting, workAvailable := false }
    else
      match s.selectQueue with
      | none => { s with processing := false, thread := .pausing }
      | some id =>
        match s.queues id with
        | [] => s
        | front :: rest => s.take id front rest

/-- The blocked fronts of all queues may be taken again. -/
def unblock (s : State κ ε τ) : State κ ε τ :=
  { s with queues := fun id => clearBlocked (s.queues id) }

/-- The command has run. -/
def finishCommand (s : State κ ε τ) (command : κ) : State κ ε τ :=
  { s with processing := false, thread := .polling, ran := s.ran ++ [command] }

/-- `Process` has reported the submission complete. -/
def finish (s : State κ ε τ) (submission : Submission ε) : State κ ε τ :=
  { s.unblock with
    processing := false
    thread := .polling
    completed := Function.update s.completed submission.request.queueId
      (s.completed submission.request.queueId ++ [submission.request]) }

/-- `Process` has reported the submission blocked. -/
def putBack (s : State κ ε τ) (submission : Submission ε) (progress : Progress ε) :
    State κ ε τ :=
  { s with
    queues := Function.update s.queues submission.request.queueId
      ({ submission with progress := progress, blocked := true } ::
        s.queues submission.request.queueId)
    submissionCount := s.submissionCount + 1
    processing := false
    thread := .polling }

end State

/-! ### Steps -/

/-- What the threads do. -/
inductive Action (κ ε τ : Type)
  | submit (t : τ) (commands constantCommands : List UInt32) (trigger : Bool)
  | submitCompute (t : τ) (queue : ℕ) (commands : List UInt32) (trigger : Bool)
  | submitFlipPreparation (t : τ) (requestId : ℕ)
  | enqueue (t : τ)
  | sendCommand (t : τ) (command : κ)
  | waitForIdle (t : τ)
  | idle (t : τ)
  | done (t : τ)
  | drained (t : τ)
  | flush (t : τ) (command : κ)
  | flushed (t : τ)
  | shutdown
  | poll
  | spuriousWakeup
  | pauseOver
  | commandRun
  | blocked (progress : Progress ε)
  | complete

/-- `Step s a s'`: a critical section, or the run of a command or of `Process`. -/
inductive Step {κ ε τ : Type} [Inhabited ε] [DecidableEq τ] :
    State κ ε τ → Action κ ε τ → State κ ε τ → Prop
  | submit {s s' : State κ ε τ} {t : τ} {commands constantCommands : List UInt32}
      {trigger : Bool} {request : Request}
      (hguest : s.guests t = .outside) (hmutex : s.submissionMutex = false)
      (hrequest : s.submit commands constantCommands trigger = (request, s')) :
      Step s (.submit t commands constantCommands trigger) (s'.setGuest t (.submitting request))
  | submitCompute {s s' : State κ ε τ} {t : τ} {queue : ℕ} {commands : List UInt32}
      {trigger : Bool} {request : Request}
      (hguest : s.guests t = .outside) (hmutex : s.submissionMutex = false)
      (hrequest : s.submitCompute queue commands trigger = some (request, s')) :
      Step s (.submitCompute t queue commands trigger) (s'.setGuest t (.submitting request))
  | submitFlipPreparation {s s' : State κ ε τ} {t : τ} {requestId : ℕ} {request : Request}
      (hguest : s.guests t = .outside) (hmutex : s.submissionMutex = false)
      (hrequest : s.submitFlipPreparation requestId = (request, s')) :
      Step s (.submitFlipPreparation t requestId) (s'.setGuest t (.submitting request))
  | enqueue {s : State κ ε τ} {t : τ} {request : Request}
      (hguest : s.guests t = .submitting request) (haccepting : s.accepting = true) :
      Step s (.enqueue t)
        (State.setGuest { s.enqueue request with submissionMutex := false } t .outside)
  | sendCommand {s : State κ ε τ} {t : τ} {command : κ}
      (hguest : s.guests t = .outside) (haccepting : s.accepting = true) :
      Step s (.sendCommand t command) (s.sendCommand command)
  | waitForIdle {s : State κ ε τ} {t : τ} (hguest : s.guests t = .outside) :
      Step s (.waitForIdle t) (s.setGuest t (.waiting s.mark))
  | idle {s : State κ ε τ} {t : τ} {mark : Mark κ}
      (hguest : s.guests t = .waiting mark) (hidle : s.Idle) :
      Step s (.idle t) (s.setGuest t .outside)
  | done {s : State κ ε τ} {t : τ}
      (hguest : s.guests t = .outside) (hmutex : s.submissionMutex = false) :
      Step s (.done t) (State.setGuest { s with submissionMutex := true } t (.draining s.mark))
  | drained {s : State κ ε τ} {t : τ} {mark : Mark κ}
      (hguest : s.guests t = .draining mark) (hidle : s.Idle) :
      Step s (.drained t) (s.setGuest t .drained)
  | flush {s : State κ ε τ} {t : τ} {command : κ}
      (hguest : s.guests t = .drained) (haccepting : s.accepting = true) :
      Step s (.flush t command)
        ((s.sendCommand command).setGuest t (.flushing s.sent.length))
  | flushed {s : State κ ε τ} {t : τ} {index : ℕ}
      (hguest : s.guests t = .flushing index) (hran : index < s.ran.length) :
      Step s (.flushed t)
        (State.setGuest
          { s with graphicsDone := true, doneNum := s.doneNum + 1, submissionMutex := false }
          t .outside)
  | shutdown {s : State κ ε τ} :
      Step s .shutdown { s with accepting := false, stopping := true, workAvailable := true }
  | poll {s : State κ ε τ}
      (hthread : s.thread = .polling ∨ s.thread = .waiting ∧ s.workAvailable = true) :
      Step s .poll s.poll
  | spuriousWakeup {s : State κ ε τ} (hthread : s.thread = .waiting) :
      Step s .spuriousWakeup s.poll
  | pauseOver {s : State κ ε τ} (hthread : s.thread = .pausing) :
      Step s .pauseOver { s.unblock with thread := .polling }
  | commandRun {s : State κ ε τ} {command : κ} (hthread : s.thread = .running command) :
      Step s .commandRun (s.finishCommand command)
  | blocked {s : State κ ε τ} {submission : Submission ε} {progress : Progress ε}
      (hthread : s.thread = .processing submission) :
      Step s (.blocked progress) (s.putBack submission progress)
  | complete {s : State κ ε τ} {submission : Submission ε}
      (hthread : s.thread = .processing submission) :
      Step s .complete (s.finish submission)

end Prosperismo.GpuQueues
