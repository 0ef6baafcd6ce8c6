import Mathlib.Data.Int.Notation
import Mathlib.Data.List.Basic
import Mathlib.Logic.Function.Basic
import Prosperismo.Base.Run

/-!
# Guest mutexes and condition variables

A mutex has an owner and a count, both under its inner lock `m`. A condition variable has a list
of waiters and a sequence number, under an inner lock of its own. A thread that waits notes the
sequence number of the condition and its own (`cond_sequence`), and is woken up when one of the
two has changed: `broadcast` counts the first up, `signal` and `signalto` the second.

A step is one critical section of an inner lock. The lock of a condition is also held across the
critical section in which a wait releases the mutex, so `Cond.lock` says who holds it; all other
critical sections are steps of their own. A wait and a blocked lock look again in slices of time,
with no lock held in between, and a wait may look again at any time (`waitPoll`). A thread makes
one call at a time: the signal handlers that run between two slices are no callers of these
functions.

The sequence numbers have 64 bits, and are numbers here: a wait would have to miss all of `2 ^ 64`
broadcasts. The count of a mutex has 32 bits, and the code checks it.
-/

namespace Prosperismo.Pthread

/-! ### Mutexes -/

/-- The results. -/
inductive Result
  | ok
  | eagain
  | ebusy
  | edeadlk
  | einval
  | eperm
  | etimedout
  deriving DecidableEq

/-- `UINT32_MAX`. -/
def uint32Max : ℕ := 0xffffffff

/-- `PthreadMutexPrivate`. The mutexes of type 2 are recursive. -/
structure Mutex (θ : Type) where
  owner : Option θ
  count : ℕ
  type : ℤ

namespace Mutex

variable {θ : Type} [DecidableEq θ]

/-- The mutex is taken. -/
def acquire (x : Mutex θ) (self : θ) : Mutex θ :=
  { x with owner := some self, count := 1 }

/-- `NativeMutexLock` up to its first wait, if it has to wait. The owner of a mutex that is not
recursive gets an error, after its time is over if it has one. -/
def lock (x : Mutex θ) (self : θ) (timeoutUs : Option ℕ) : Option Result × Mutex θ :=
  if x.owner = some self then
    if x.type = 2 then
      if x.count = uint32Max then (some .eagain, x)
      else (some .ok, { x with count := x.count + 1 })
    else if timeoutUs.isSome then (some .etimedout, x)
    else (some .edeadlk, x)
  else if x.owner = none then (some .ok, x.acquire self)
  else if timeoutUs = some 0 then (some .etimedout, x)
  else (none, x)

/-- The loops of `NativeMutexLock`: from one slice to the next. -/
def poll (x : Mutex θ) (self : θ) (expired : Bool) : Option Result × Mutex θ :=
  if x.owner = none then (some .ok, x.acquire self)
  else if expired then (some .etimedout, x)
  else (none, x)

/-- `NativeMutexTrylock`. -/
def trylock (x : Mutex θ) (self : θ) : Result × Mutex θ :=
  if x.owner = some self then
    if x.type = 2 then
      if x.count = uint32Max then (.eagain, x) else (.ok, { x with count := x.count + 1 })
    else (.ebusy, x)
  else if x.owner = none then (.ok, x.acquire self)
  else (.ebusy, x)

/-- `NativeMutexUnlock`; with `recurse` the mutex is released fully, and its count is stored. -/
def unlock (x : Mutex θ) (self : θ) (recurse : Bool) : Result × ℕ × Mutex θ :=
  if x.owner ≠ some self then (.eperm, 0, x)
  else
    let count := if recurse then 1 else x.count
    if x.type = 2 ∧ 1 < count then (.ok, x.count, { x with count := count - 1 })
    else (.ok, x.count, { x with owner := none, count := 0 })

/-- The end of `NativeMutexLockRecurse`. -/
def restore (x : Mutex θ) (recurse : ℕ) : Mutex θ :=
  { x with count := max recurse 1 }

end Mutex

/-! ### Condition variables -/

/-- `PthreadCondPrivate`, with the thread that holds `m` across another critical section. -/
structure Cond (θ : Type) where
  lock : Option θ
  sequence : ℕ
  waiters : List θ

/-- The part of `PthreadPrivate` that belongs to waiting. -/
structure Thread (κ : Type) where
  condSequence : ℕ
  waitingCond : Option κ

/-- How long a wait lasts: `PthreadCondWait`, `PthreadCondTimedwait`, `PthreadCondTimedwaitAbs`. -/
inductive Timeout
  | never
  | usec (usec : ℕ)
  | abs
  deriving DecidableEq

/-- What a wait keeps in its local variables. -/
structure Wait (μ κ : Type) where
  cond : κ
  mutex : μ
  timeout : Timeout
  sequence : ℕ
  threadSequence : ℕ

/-- Where a thread stands. -/
inductive Call (μ κ : Type)
  /-- In no call. -/
  | idle
  /-- In `NativeMutexLock`, between two slices. -/
  | locking (mutex : μ) (timed : Bool)
  /-- In a wait, a waiter already, the mutex not released yet; `m` of the condition is held. -/
  | entered (wait : Wait μ κ)
  /-- In a wait, after the release of the mutex; `m` of the condition is held still. -/
  | released (wait : Wait μ κ) (recurse : ℕ)
  /-- In a wait, between two slices. -/
  | sleeping (wait : Wait μ κ) (recurse : ℕ)
  /-- In a wait with its result, in `NativeMutexLockRecurse`. -/
  | relocking (mutex : μ) (recurse : ℕ) (result : Result) (polling : Bool)
  /-- The same, when the mutex has been taken and the count is not restored yet. -/
  | restoring (mutex : μ) (recurse : ℕ) (result : Result)

/-- The mutexes, the conditions and the threads. -/
structure State (θ μ κ : Type) where
  mutexes : μ → Mutex θ
  conds : κ → Cond θ
  threads : θ → Thread κ
  calls : θ → Call μ κ

namespace State

variable {θ μ κ : Type} [DecidableEq θ] [DecidableEq μ] [DecidableEq κ]

/-- Before the first call. -/
def new (types : μ → ℤ) : State θ μ κ :=
  ⟨fun mutex => ⟨none, 0, types mutex⟩, fun _ => ⟨none, 0, []⟩, fun _ => ⟨0, none⟩,
    fun _ => .idle⟩

/-- A mutex is changed. -/
def setMutex (s : State θ μ κ) (mutex : μ) (x : Mutex θ) : State θ μ κ :=
  { s with mutexes := Function.update s.mutexes mutex x }

/-- A condition is changed. -/
def setCond (s : State θ μ κ) (cond : κ) (x : Cond θ) : State θ μ κ :=
  { s with conds := Function.update s.conds cond x }

/-- A thread goes on. -/
def setCall (s : State θ μ κ) (thread : θ) (call : Call μ κ) : State θ μ κ :=
  { s with calls := Function.update s.calls thread call }

/-- The inner lock of a condition is taken. -/
def lockCond (s : State θ μ κ) (cond : κ) (thread : θ) : State θ μ κ :=
  s.setCond cond { s.conds cond with lock := some thread }

/-- The inner lock of a condition is given back. -/
def unlockCond (s : State θ μ κ) (cond : κ) : State θ μ κ :=
  s.setCond cond { s.conds cond with lock := none }

/-- `CondAddWaiter`. -/
def condAddWaiter (s : State θ μ κ) (cond : κ) (thread : θ) : State θ μ κ :=
  { s with
    threads := Function.update s.threads thread { s.threads thread with waitingCond := some cond }
    conds := Function.update s.conds cond
      { s.conds cond with waiters := (s.conds cond).waiters ++ [thread] } }

/-- A thread that has waited for this condition waits no more. -/
def Thread.leave (x : Thread κ) (cond : κ) : Thread κ :=
  if x.waitingCond = some cond then { x with waitingCond := none } else x

/-- `CondRemoveWaiter`. -/
def condRemoveWaiter (s : State θ μ κ) (cond : κ) (thread : θ) : State θ μ κ :=
  if thread ∈ (s.conds cond).waiters then
    { s with
      threads := Function.update s.threads thread (Thread.leave (s.threads thread) cond)
      conds := Function.update s.conds cond
        { s.conds cond with waiters := (s.conds cond).waiters.erase thread } }
  else s

/-- `CondWakeWaiter` for a thread: it is a waiter, and it is woken up. -/
def condWakeWaiter (s : State θ μ κ) (cond : κ) (thread : θ) : Bool × State θ μ κ :=
  if thread ∈ (s.conds cond).waiters then
    (true,
      { s with
        threads := Function.update s.threads thread
          { Thread.leave (s.threads thread) cond with
            condSequence := (s.threads thread).condSequence + 1 }
        conds := Function.update s.conds cond
          { s.conds cond with waiters := (s.conds cond).waiters.erase thread } })
  else (false, s)

/-- `CondClearWaiters`. -/
def condClearWaiters (s : State θ μ κ) (cond : κ) : State θ μ κ :=
  { s with
    threads := fun thread =>
      if thread ∈ (s.conds cond).waiters then Thread.leave (s.threads thread) cond
      else s.threads thread
    conds := Function.update s.conds cond { s.conds cond with waiters := [] } }

/-- `PthreadCondSignal`: the first waiter is woken up. -/
def signal (s : State θ μ κ) (cond : κ) : Option θ × State θ μ κ :=
  match (s.conds cond).waiters with
  | [] => (none, s)
  | thread :: _ => (some thread, (s.condWakeWaiter cond thread).2)

/-- `PthreadCondBroadcast`: all waiters are woken up. -/
def broadcast (s : State θ μ κ) (cond : κ) : List θ × State θ μ κ :=
  if (s.conds cond).waiters = [] then ([], s)
  else
    ((s.conds cond).waiters,
      condClearWaiters
        (s.setCond cond { s.conds cond with sequence := (s.conds cond).sequence + 1 }) cond)

/-- `ready`. -/
def Ready (s : State θ μ κ) (thread : θ) (wait : Wait μ κ) : Prop :=
  (s.conds wait.cond).sequence ≠ wait.sequence ∨
    (s.threads thread).condSequence ≠ wait.threadSequence

instance (s : State θ μ κ) (thread : θ) (wait : Wait μ κ) : Decidable (s.Ready thread wait) :=
  inferInstanceAs (Decidable (_ ∨ _))

/-- The head of the loop of a wait: its result, unless it sleeps on. A wait of no time at all does
not look. -/
def check (s : State θ μ κ) (thread : θ) (wait : Wait μ κ) (expired : Bool) : Option Result :=
  if wait.timeout = .usec 0 then some .etimedout
  else if s.Ready thread wait then some .ok
  else if expired ∧ wait.timeout ≠ .never then some .etimedout
  else none

/-- A wait, from one slice to the next or to its end. -/
def checked (s : State θ μ κ) (thread : θ) (wait : Wait μ κ) (recurse : ℕ) (expired : Bool) :
    State θ μ κ :=
  match s.check thread wait expired with
  | some result =>
    (s.condRemoveWaiter wait.cond thread).setCall thread
      (.relocking wait.mutex recurse result false)
  | none => s.setCall thread (.sleeping wait recurse)

end State

/-! ### Steps -/

/-- What the threads do, and what they get. -/
inductive Action (θ μ κ : Type)
  | lock (thread : θ) (mutex : μ) (result : Option Result)
  | trylock (thread : θ) (mutex : μ) (result : Result)
  | unlock (thread : θ) (mutex : μ) (result : Result)
  | waitRefused (thread : θ) (result : Result)
  | waitEnter (thread : θ) (cond : κ) (mutex : μ) (timeout : Timeout)
  | waitRelease (thread : θ)
  | waitPoll (thread : θ) (result : Option Result)
  | relock (thread : θ)
  | waitReturn (thread : θ) (result : Result)
  | signal (cond : κ) (woken : Option θ)
  | signalTo (cond : κ) (thread : θ) (woken : Bool)
  | broadcast (cond : κ) (woken : List θ)
  deriving DecidableEq

/-- `Step s a s'`: what a call does in one critical section. -/
inductive Step {θ μ κ : Type} [DecidableEq θ] [DecidableEq μ] [DecidableEq κ] :
    State θ μ κ → Action θ μ κ → State θ μ κ → Prop
  /-- `NativeMutexLock`, first critical section. -/
  | lock {s : State θ μ κ} {thread : θ} (mutex : μ) (timeoutUs : Option ℕ)
      (hcall : s.calls thread = .idle) :
      Step s (.lock thread mutex ((s.mutexes mutex).lock thread timeoutUs).1)
        ((s.setMutex mutex ((s.mutexes mutex).lock thread timeoutUs).2).setCall thread
          (if ((s.mutexes mutex).lock thread timeoutUs).1 = none then
            .locking mutex timeoutUs.isSome
          else .idle))
  /-- `NativeMutexLock`, after a slice. -/
  | lockPoll {s : State θ μ κ} {thread : θ} {mutex : μ} {timed : Bool} (expired : Bool)
      (hcall : s.calls thread = .locking mutex timed) :
      Step s (.lock thread mutex ((s.mutexes mutex).poll thread (expired && timed)).1)
        ((s.setMutex mutex ((s.mutexes mutex).poll thread (expired && timed)).2).setCall thread
          (if ((s.mutexes mutex).poll thread (expired && timed)).1 = none then
            .locking mutex timed
          else .idle))
  | trylock {s : State θ μ κ} {thread : θ} (mutex : μ) (hcall : s.calls thread = .idle) :
      Step s (.trylock thread mutex ((s.mutexes mutex).trylock thread).1)
        ((s.setMutex mutex ((s.mutexes mutex).trylock thread).2).setCall thread .idle)
  | unlock {s : State θ μ κ} {thread : θ} (mutex : μ) (hcall : s.calls thread = .idle) :
      Step s (.unlock thread mutex ((s.mutexes mutex).unlock thread false).1)
        ((s.setMutex mutex ((s.mutexes mutex).unlock thread false).2.2).setCall thread .idle)
  /-- A wait by a thread that does not own the mutex, or with a bad time. -/
  | waitRefused {s : State θ μ κ} {thread : θ} {mutex : μ} {result : Result}
      (hcall : s.calls thread = .idle)
      (hresult : result = .einval ∨
        result = .eperm ∧ (s.mutexes mutex).owner ≠ some thread) :
      Step s (.waitRefused thread result) s
  /-- A wait up to `CondAddWaiter`. -/
  | waitEnter {s : State θ μ κ} {thread : θ} {cond : κ} {mutex : μ} (timeout : Timeout)
      (hcall : s.calls thread = .idle) (howner : (s.mutexes mutex).owner = some thread)
      (hlock : (s.conds cond).lock = none) :
      Step s (.waitEnter thread cond mutex timeout)
        (((s.lockCond cond thread).condAddWaiter cond thread).setCall thread
          (.entered ⟨cond, mutex, timeout, (s.conds cond).sequence,
            (s.threads thread).condSequence⟩))
  /-- The `NativeMutexUnlock` of a wait. -/
  | waitRelease {s : State θ μ κ} {thread : θ} {wait : Wait μ κ}
      (hcall : s.calls thread = .entered wait)
      (hresult : ((s.mutexes wait.mutex).unlock thread true).1 = .ok) :
      Step s (.waitRelease thread)
        ((s.setMutex wait.mutex ((s.mutexes wait.mutex).unlock thread true).2.2).setCall thread
          (.released wait ((s.mutexes wait.mutex).unlock thread true).2.1))
  /-- The same, if it fails. -/
  | waitFailed {s : State θ μ κ} {thread : θ} {wait : Wait μ κ}
      (hcall : s.calls thread = .entered wait)
      (hresult : ((s.mutexes wait.mutex).unlock thread true).1 ≠ .ok) :
      Step s (.waitReturn thread ((s.mutexes wait.mutex).unlock thread true).1)
        (((s.condRemoveWaiter wait.cond thread).unlockCond wait.cond).setCall thread .idle)
  /-- A wait up to its first sleep. -/
  | waitCheck {s : State θ μ κ} {thread : θ} {wait : Wait μ κ} {recurse : ℕ} (expired : Bool)
      (hcall : s.calls thread = .released wait recurse) :
      Step s (.waitPoll thread (s.check thread wait expired))
        ((s.checked thread wait recurse expired).unlockCond wait.cond)
  /-- A wait after a slice. -/
  | waitPoll {s : State θ μ κ} {thread : θ} {wait : Wait μ κ} {recurse : ℕ} (expired : Bool)
      (hcall : s.calls thread = .sleeping wait recurse)
      (hlock : (s.conds wait.cond).lock = none) :
      Step s (.waitPoll thread (s.check thread wait expired))
        (s.checked thread wait recurse expired)
  /-- The `NativeMutexLock` of `NativeMutexLockRecurse`. -/
  | relock {s : State θ μ κ} {thread : θ} {mutex : μ} {recurse : ℕ} {result : Result}
      {polling : Bool} {x : Mutex θ} {lockResult : Option Result}
      (hcall : s.calls thread = .relocking mutex recurse result polling)
      (hlock : (if polling then (s.mutexes mutex).poll thread false
        else (s.mutexes mutex).lock thread none) = (lockResult, x))
      (hresult : lockResult = none ∨ lockResult = some .ok) :
      Step s (.relock thread)
        ((s.setMutex mutex x).setCall thread
          (if lockResult = none then .relocking mutex recurse result true
          else .restoring mutex recurse result))
  /-- The same, if it fails: the error is the result, unless the wait has timed out. -/
  | relockFailed {s : State θ μ κ} {thread : θ} {mutex : μ} {recurse : ℕ} {result : Result}
      {polling : Bool} {x : Mutex θ} {error : Result}
      (hcall : s.calls thread = .relocking mutex recurse result polling)
      (hlock : (if polling then (s.mutexes mutex).poll thread false
        else (s.mutexes mutex).lock thread none) = (some error, x))
      (herror : error ≠ .ok) :
      Step s (.waitReturn thread (if result = .ok then error else result))
        ((s.setMutex mutex x).setCall thread .idle)
  /-- The end of `NativeMutexLockRecurse`, and of the wait. -/
  | waitReturn {s : State θ μ κ} {thread : θ} {mutex : μ} {recurse : ℕ} {result : Result}
      (hcall : s.calls thread = .restoring mutex recurse result) :
      Step s (.waitReturn thread result)
        ((s.setMutex mutex ((s.mutexes mutex).restore recurse)).setCall thread .idle)
  | signal {s : State θ μ κ} {cond : κ} (hlock : (s.conds cond).lock = none) :
      Step s (.signal cond (s.signal cond).1) (s.signal cond).2
  | signalTo {s : State θ μ κ} {cond : κ} (thread : θ) (hlock : (s.conds cond).lock = none) :
      Step s (.signalTo cond thread (s.condWakeWaiter cond thread).1)
        (s.condWakeWaiter cond thread).2
  | broadcast {s : State θ μ κ} {cond : κ} (hlock : (s.conds cond).lock = none) :
      Step s (.broadcast cond (s.broadcast cond).1) (s.broadcast cond).2

end Prosperismo.Pthread
