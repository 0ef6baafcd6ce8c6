import Mathlib.Logic.Function.Basic
import Prosperismo.Base.Run

/-!
# Event flags

An event flag is a word of 64 bits. `Wait` returns when some or all of the bits it asks for are
set, and may clear bits as it does. `Cancel` sends the waiting threads away: it sets `m_status`
to `Canceled`, wakes everybody, and polls until nobody waits; then the status is `Set` again.

Everything is read and written under `m_mutex`, so a step is what a call does from one lock to
the next unlock (`Step`). A call of `Set`, `Clear` or `Cancel` that finds the status other than
`Set` unlocks and tries again later, and the same goes for the poll of `Cancel` while somebody
waits; such a try changes nothing, and is no step. The destructor takes no part.

A sleeping call may run again at any time: its own time may be over, `CondVar::Wait` itself
returns every ten milliseconds once a poll callback is set, and a spurious wake-up is possible
anyway. `signaled` records that `SignalAll` has been called since it went to sleep.

An `int` is large enough to count threads, whose numbers are `int`s.
-/

namespace Prosperismo.EventFlag

/-! ### The flag -/

/-- `Result`. -/
inductive Result
  | ok
  | alreadyWaiting
  | timedOut
  | canceled
  | deleted
  deriving DecidableEq

/-- `ClearMode`. -/
inductive ClearMode
  | none
  | all
  | bits
  deriving DecidableEq

/-- `WaitMode`. -/
inductive WaitMode
  | and
  | or
  deriving DecidableEq

/-- `Status`. -/
inductive Status
  | set
  | canceled
  | deleted
  deriving DecidableEq

/-- `KernelEventFlagPrivate`. -/
structure KernelEventFlag where
  status : Status
  waitingThreads : ℕ
  singleThread : Bool
  bits : BitVec 64

/-- The arguments of `Wait`; `micros` is the value behind `ptr_micros`, if that is not null. -/
structure WaitArgs where
  bits : BitVec 64
  waitMode : WaitMode
  clearMode : ClearMode
  micros : Option ℕ

/-- Where a call of `Wait` stands: not made yet, in the condition wait, or returned, with what it
has stored through `result` and `ptr_micros`. -/
inductive Call
  | fresh
  | waiting (args : WaitArgs) (signaled : Bool)
  | returned (args : WaitArgs) (result : Result) (stored : Option (BitVec 64))
      (micros : Option ℕ)

namespace WaitArgs

/-- The condition that `Wait` waits for. -/
def Holds (args : WaitArgs) (bits : BitVec 64) : Prop :=
  args.waitMode = .and ∧ bits &&& args.bits = args.bits ∨
    args.waitMode = .or ∧ bits &&& args.bits ≠ 0

instance (args : WaitArgs) (bits : BitVec 64) : Decidable (args.Holds bits) :=
  inferInstanceAs (Decidable (_ ∨ _))

/-- The bits after the clearing that `Wait` does. -/
def clear (args : WaitArgs) (bits : BitVec 64) : BitVec 64 :=
  match args.clearMode with
  | .all => 0
  | .bits => bits &&& ~~~args.bits
  | .none => bits

/-- `elapsed >= micros && !infinitely`. -/
def Expired (args : WaitArgs) (elapsed : ℕ) : Prop :=
  ∃ limit, args.micros = some limit ∧ limit ≤ elapsed

instance (args : WaitArgs) (elapsed : ℕ) : Decidable (args.Expired elapsed) :=
  match h : args.micros with
  | none => isFalse fun ⟨_, hsome, _⟩ => nomatch h.symm.trans hsome
  | some limit =>
    if hle : limit ≤ elapsed then isTrue ⟨limit, h, hle⟩
    else isFalse fun ⟨_, hsome, hle'⟩ => hle (Option.some.inj (h.symm.trans hsome) ▸ hle')

/-- The call returns, with `*result` set and the timeout updated. -/
def finish (args : WaitArgs) (result : Result) (bits : BitVec 64) (elapsed : ℕ) : Call :=
  .returned args result (some bits) (args.micros.map (· - elapsed))

end WaitArgs

namespace KernelEventFlag

/-- The head of the loop of `Wait`: the call returns, or goes to sleep. -/
def check (s : KernelEventFlag) (args : WaitArgs) (elapsed : ℕ) : Call × KernelEventFlag :=
  if args.Holds s.bits then
    (args.finish .ok s.bits elapsed, { s with bits := args.clear s.bits })
  else if args.Expired elapsed then (args.finish .timedOut s.bits elapsed, s)
  else (.waiting args false, { s with waitingThreads := s.waitingThreads + 1 })

/-- `Wait` up to its first sleep. `Poll` is the case of no time at all. -/
def wait (s : KernelEventFlag) (args : WaitArgs) : Call × KernelEventFlag :=
  if s.singleThread ∧ 0 < s.waitingThreads then (.returned args .alreadyWaiting none args.micros, s)
  else s.check args 0

/-- `Wait` from one sleep to the next, or to its end: `elapsed` microseconds have passed. -/
def resume (s : KernelEventFlag) (args : WaitArgs) (elapsed : ℕ) : Call × KernelEventFlag :=
  let awake := { s with waitingThreads := s.waitingThreads - 1 }
  match s.status with
  | .canceled => (args.finish .canceled s.bits elapsed, awake)
  | .deleted => (args.finish .deleted s.bits elapsed, awake)
  | .set => awake.check args elapsed

end KernelEventFlag

/-! ### Steps -/

/-- The flag, the calls of `Wait`, and the number of calls of `Cancel` that poll. -/
structure State (τ : Type) where
  flag : KernelEventFlag
  calls : τ → Call
  polling : ℕ

namespace State

variable {τ : Type}

/-- Before the first call. -/
def new (singleThread : Bool) (bits : BitVec 64) : State τ :=
  ⟨⟨.set, 0, singleThread, bits⟩, fun _ => .fresh, 0⟩

/-- The state a call of `Wait` leaves. -/
def after [DecidableEq τ] (s : State τ) (call : τ) (outcome : Call × KernelEventFlag) : State τ :=
  { s with flag := outcome.2, calls := Function.update s.calls call outcome.1 }

/-- `m_cond_var.SignalAll()`. -/
def signalAll (s : State τ) : State τ :=
  { s with
    calls := fun call =>
      match s.calls call with
      | .waiting args _ => .waiting args true
      | other => other }

/-- `Set`, once the status is `Set`. -/
def setBits (s : State τ) (bits : BitVec 64) : State τ :=
  signalAll { s with flag := { s.flag with bits := s.flag.bits ||| bits } }

/-- `Clear`, once the status is `Set`. -/
def clearBits (s : State τ) (bits : BitVec 64) : State τ :=
  { s with flag := { s.flag with bits := s.flag.bits &&& bits } }

/-- `Cancel`, once the status is `Set`, up to its first unlock: it polls, unless nobody waits. -/
def cancel (s : State τ) (bits : BitVec 64) : State τ :=
  if 0 < s.flag.waitingThreads then
    signalAll { s with
      flag := { s.flag with status := .canceled, bits := bits }
      polling := s.polling + 1 }
  else signalAll { s with flag := { s.flag with bits := bits } }

/-- The end of the poll of `Cancel`. -/
def cancelDone (s : State τ) : State τ :=
  { s with flag := { s.flag with status := .set }, polling := s.polling - 1 }

/-- The call is in the condition wait. -/
def Sleeps (s : State τ) (call : τ) : Prop :=
  ∃ args signaled, s.calls call = .waiting args signaled

end State

/-- What the threads do. `cancel` carries the value stored through `num_waiting_threads`. -/
inductive Action (τ : Type)
  | wait (call : τ) (args : WaitArgs)
  | resume (call : τ) (elapsed : ℕ)
  | setBits (bits : BitVec 64)
  | clearBits (bits : BitVec 64)
  | cancel (bits : BitVec 64) (numWaitingThreads : ℕ)
  | cancelDone

/-- `Step s a s'`: what a call does from one lock of `m_mutex` to the next unlock. -/
inductive Step {τ : Type} [DecidableEq τ] : State τ → Action τ → State τ → Prop
  | wait {s : State τ} {call : τ} (args : WaitArgs) (hcall : s.calls call = .fresh) :
      Step s (.wait call args) (s.after call (s.flag.wait args))
  | resume {s : State τ} {call : τ} {args : WaitArgs} {signaled : Bool} (elapsed : ℕ)
      (hcall : s.calls call = .waiting args signaled) :
      Step s (.resume call elapsed) (s.after call (s.flag.resume args elapsed))
  | setBits {s : State τ} (bits : BitVec 64) (hstatus : s.flag.status = .set) :
      Step s (.setBits bits) (s.setBits bits)
  | clearBits {s : State τ} (bits : BitVec 64) (hstatus : s.flag.status = .set) :
      Step s (.clearBits bits) (s.clearBits bits)
  | cancel {s : State τ} (bits : BitVec 64) (hstatus : s.flag.status = .set) :
      Step s (.cancel bits s.flag.waitingThreads) (s.cancel bits)
  | cancelDone {s : State τ} (hpolling : 0 < s.polling) (hnone : s.flag.waitingThreads = 0) :
      Step s .cancelDone s.cancelDone

/-- A call of `Wait` with these arguments returns without a sleep. -/
def KernelEventFlag.Immediate (s : KernelEventFlag) (args : WaitArgs) : Prop :=
  s.singleThread = true ∧ 0 < s.waitingThreads ∨ args.Holds s.bits ∨ args.micros = some 0

/-- A step that, if it is a call of `Wait` that goes to sleep, is made while no `Cancel` polls. -/
def StepSet {τ : Type} [DecidableEq τ] (s : State τ) (a : Action τ) (s' : State τ) : Prop :=
  Step s a s' ∧
    ∀ call args, a = .wait call args → s.flag.status = .set ∨ s.flag.Immediate args

end Prosperismo.EventFlag
