import Mathlib.Data.Int.Basic
import Mathlib.Logic.Function.Basic
import Prosperismo.Base.Run

/-!
# Kernel semaphores

A semaphore hands out tokens. `Wait` takes them if there are enough; otherwise the call queues
up as a waiter and sleeps until a `Signal` gives it its tokens, a `Cancel` sends it away, or its
time runs out.

Everything is read and written under `m_mutex`, so a step is what a call does from one lock to
the next unlock (`Step`). A sleeping call may run whenever the mutex is free, whether or not it
has been signalled: `resume` is its check after `m_mutex.Lock()`, with whatever time has passed.
The destructor takes no part.

An `int` is an integer. The only arithmetic that can leave its range is the sum in `Signal`,
which wraps around.
-/

namespace Prosperismo.Semaphore

/-! ### The semaphore -/

/-- `Result`. -/
inductive Result
  | ok
  | timedOut
  | canceled
  | deleted
  | invalCount
  deriving DecidableEq

/-- `Status`. -/
inductive Status
  | set
  | deleted
  deriving DecidableEq

/-- `WaitingThread`. The source keeps it on the stack of the call of `Wait` that it belongs to
and puts a pointer to it in the queue; here `call` names that call. -/
structure WaitingThread (τ : Type) where
  call : τ
  priority : ℤ
  needCount : ℤ
  result : Result
  ready : Bool

/-- `KernelSemaPrivate`. -/
structure KernelSema (τ : Type) where
  status : Status
  waitingThreads : List (WaitingThread τ)
  fifoOrder : Bool
  count : ℤ
  initCount : ℤ
  maxCount : ℤ

/-- `KernelCreateSema`: a null name, unknown attributes and bad counts are refused. -/
def kernelCreateSema {τ : Type} (name : Option String) (attr : ℕ) (init max : ℤ) :
    Option (KernelSema τ) :=
  if name = none ∨ 2 < attr ∨ init < 0 ∨ max ≤ 0 ∨ max < init then none
  else some ⟨.set, [], attr == 1, init, init, max⟩

/-- The value of an `int` expression: two's complement on 32 bits. -/
def wrapInt (x : ℤ) : ℤ :=
  x.bmod 0x100000000

/-- The greatest `int`. -/
def intMax : ℤ := 0x7fffffff

/-- The waiter is given its tokens. -/
def WaitingThread.grant {τ : Type} (waiter : WaitingThread τ) : WaitingThread τ :=
  { waiter with result := .ok, ready := true }

/-- The waiter is sent away, unless it has its result already. -/
def WaitingThread.cancel {τ : Type} (waiter : WaitingThread τ) : WaitingThread τ :=
  if waiter.ready then waiter else { waiter with result := .canceled, ready := true }

/-- The loop of `WakeWaiters`: what is left of the tokens, and the queue. -/
def wake {τ : Type} (count : ℤ) : List (WaitingThread τ) → ℤ × List (WaitingThread τ)
  | [] => (count, [])
  | waiter :: rest =>
    if waiter.ready = false ∧ waiter.needCount ≤ count then
      let (left, queue) := wake (count - waiter.needCount) rest
      (left, waiter.grant :: queue)
    else
      let (left, queue) := wake count rest
      (left, waiter :: queue)

/-- Where a call of `Wait` stands: not made yet, asleep, or returned. `micros` is the value
behind `ptr_micros`, if that is not null. -/
inductive Call
  | fresh
  | waiting (needCount : ℤ) (micros : Option ℕ)
  | returned (needCount : ℤ) (result : Result) (micros : Option ℕ)
  deriving DecidableEq

namespace KernelSema

variable {τ : Type}

/-- `AddWaiter`: at the end, or before the first waiter that is less urgent. -/
def addWaiter (s : KernelSema τ) (waiter : WaitingThread τ) : KernelSema τ :=
  { s with
    waitingThreads :=
      if s.fifoOrder then s.waitingThreads ++ [waiter]
      else
        s.waitingThreads.takeWhile (fun other => other.priority ≤ waiter.priority) ++
          waiter :: s.waitingThreads.dropWhile (fun other => other.priority ≤ waiter.priority) }

/-- `RemoveWaiter`. -/
def removeWaiter [DecidableEq τ] (s : KernelSema τ) (call : τ) : KernelSema τ :=
  { s with waitingThreads := s.waitingThreads.eraseP fun waiter => waiter.call = call }

/-- `WakeWaiters`. -/
def wakeWaiters (s : KernelSema τ) : KernelSema τ :=
  let (count, queue) := wake s.count s.waitingThreads
  { s with count := count, waitingThreads := queue }

/-- `Cancel`, with the value stored through `num_waiting_threads`. -/
def cancel (s : KernelSema τ) (setCount : ℤ) : Result × Option ℕ × KernelSema τ :=
  if s.maxCount < setCount then (.invalCount, none, s)
  else if s.status = .deleted then (.deleted, none, s)
  else
    (.ok, some (s.waitingThreads.countP fun waiter => !waiter.ready),
      { s with
        count := if setCount < 0 then s.initCount else setCount
        waitingThreads := s.waitingThreads.map WaitingThread.cancel })

/-- `Signal`. -/
def signal (s : KernelSema τ) (signalCount : ℤ) : Result × KernelSema τ :=
  if s.status = .deleted then (.deleted, s)
  else if s.maxCount < wrapInt (s.count + signalCount) then (.invalCount, s)
  else (.ok, wakeWaiters { s with count := wrapInt (s.count + signalCount) })

/-- `Wait` up to its first sleep. `Poll` is the case of no time at all. -/
def wait (s : KernelSema τ) (call : τ) (needCount : ℤ) (micros : Option ℕ) (priority : ℤ) :
    Call × KernelSema τ :=
  if needCount < 1 ∨ s.maxCount < needCount then (.returned needCount .invalCount micros, s)
  else if s.status = .deleted then (.returned needCount .deleted micros, s)
  else if needCount ≤ s.count then
    (.returned needCount .ok micros, { s with count := s.count - needCount })
  else if micros = some 0 then (.returned needCount .timedOut micros, s)
  else
    (.waiting needCount micros,
      s.addWaiter ⟨call, if s.fifoOrder then 0 else priority, needCount, .timedOut, false⟩)

/-- `Wait` from one sleep to the next, or to its end: `elapsed` microseconds have passed. -/
def resume [DecidableEq τ] (s : KernelSema τ) (waiter : WaitingThread τ) (micros : Option ℕ)
    (elapsed : ℕ) : Call × KernelSema τ :=
  if waiter.ready then
    (.returned waiter.needCount waiter.result (micros.map (· - elapsed)),
      s.removeWaiter waiter.call)
  else
    match micros with
    | none => (.waiting waiter.needCount none, s)
    | some limit =>
      if limit ≤ elapsed then
        (.returned waiter.needCount .timedOut (some 0), s.removeWaiter waiter.call)
      else (.waiting waiter.needCount (some limit), s)

end KernelSema

/-! ### Steps -/

/-- The semaphore and the calls of `Wait`. -/
structure State (τ : Type) where
  sema : KernelSema τ
  calls : τ → Call

/-- Before the first call. -/
def State.new {τ : Type} (sema : KernelSema τ) : State τ :=
  ⟨sema, fun _ => .fresh⟩

/-- The state a call of `Wait` leaves. -/
def State.after {τ : Type} [DecidableEq τ] (s : State τ) (call : τ)
    (outcome : Call × KernelSema τ) : State τ :=
  ⟨outcome.2, Function.update s.calls call outcome.1⟩

/-- What the threads do. `signal` and `cancel` carry what they return. -/
inductive Action (τ : Type)
  | wait (call : τ) (needCount : ℤ) (micros : Option ℕ) (priority : ℤ)
  | resume (call : τ) (elapsed : ℕ)
  | signal (signalCount : ℤ) (result : Result)
  | cancel (setCount : ℤ) (result : Result) (numWaitingThreads : Option ℕ)

/-- `Step s a s'`: what a call does from one lock of `m_mutex` to the next unlock. -/
inductive Step {τ : Type} [DecidableEq τ] : State τ → Action τ → State τ → Prop
  | wait {s : State τ} {call : τ} (needCount : ℤ) (micros : Option ℕ) (priority : ℤ)
      (hcall : s.calls call = .fresh) :
      Step s (.wait call needCount micros priority)
        (s.after call (s.sema.wait call needCount micros priority))
  | resume {s : State τ} {waiter : WaitingThread τ} {micros : Option ℕ} (elapsed : ℕ)
      (hcall : s.calls waiter.call = .waiting waiter.needCount micros)
      (hwaiter : waiter ∈ s.sema.waitingThreads) :
      Step s (.resume waiter.call elapsed)
        (s.after waiter.call (s.sema.resume waiter micros elapsed))
  | signal {s : State τ} (signalCount : ℤ) :
      Step s (.signal signalCount (s.sema.signal signalCount).1)
        ⟨(s.sema.signal signalCount).2, s.calls⟩
  | cancel {s : State τ} (setCount : ℤ) :
      Step s (.cancel setCount (s.sema.cancel setCount).1 (s.sema.cancel setCount).2.1)
        ⟨(s.sema.cancel setCount).2.2, s.calls⟩

/-- A step that, if it is a `Signal`, adds up without leaving the range of the count. -/
def StepInRange {τ : Type} [DecidableEq τ] (s : State τ) (a : Action τ) (s' : State τ) : Prop :=
  Step s a s' ∧
    ∀ signalCount result, a = .signal signalCount result →
      0 ≤ s.sema.count + signalCount ∧ s.sema.count + signalCount ≤ intMax

end Prosperismo.Semaphore
