import Mathlib.Data.List.Count
import Mathlib.Logic.Basic
import Prosperismo.Base.Run

/-!
# Guest read-write locks

A lock knows its writer, the count of its read locks, one entry for each reading thread, and the
number of writers that wait. `RwlockLockCooperative` tries again and again: each try is made
under `rwlock->m`, and between two tries the call sleeps on `rwlock->cv` and lets a pending guest
signal run.

Everything shared is read and written under `rwlock->m`, so a step is one try of a locking call,
a try variant, or an unlock (`Step`). A sleeping call may try again at any time: the sleep is
bounded, and a spurious wake-up is possible anyway. A guest signal handler may start another call
while its thread sleeps in one, so a thread may have several calls asleep.

A step is labelled with what it shows to the outside, an `Event`. Calls with a null lock, or from
a thread without a `Pthread`, are refused before the mutex is taken, and are no steps.
-/

namespace Prosperismo.Rwlocks

/-! ### Counters -/

/-- The greatest `uint32_t`. -/
def uint32Max : ℕ := 0xffffffff

/-- `x++` on a `uint32_t`. -/
def inc (x : ℕ) : ℕ :=
  (x + 1) % 0x100000000

/-- `x--` on a `uint32_t`. -/
def dec (x : ℕ) : ℕ :=
  (x + 0xffffffff) % 0x100000000

/-! ### The lock -/

/-- What a call returns. -/
inductive Code
  | ok
  | deadlk
  | timedOut
  | busy
  | perm
  deriving DecidableEq

/-- The argument `write` of `RwlockLockCooperative`. -/
inductive Kind
  | read
  | write
  deriving DecidableEq

/-- `Reader`. -/
structure Reader (θ : Type) where
  thread : θ
  count : ℕ

/-- `PthreadRwlockPrivate`. -/
structure Rwlock (θ : Type) where
  writer : Option θ
  writerCount : ℕ
  readerCount : ℕ
  waitingWriters : ℕ
  readers : List (Reader θ)

/-- A call asleep in `RwlockLockCooperative`, with its local state: `registered` is
`writer_wait_registered`. -/
structure Wait (θ : Type) where
  thread : θ
  kind : Kind
  timeout : Option ℕ
  registered : Bool
  deriving DecidableEq

/-- How a try ends: the call returns, or goes to sleep. -/
inductive Try
  | returned (code : Code)
  | asleep (registered : Bool)

/-- `PthreadRwlockInitNamed`. -/
def Rwlock.new {θ : Type} : Rwlock θ :=
  ⟨none, 0, 0, 0, []⟩

/-- The first entry of the thread is counted up, or a new one is put at the end. -/
def addEntry {θ : Type} [DecidableEq θ] (thread : θ) : List (Reader θ) → List (Reader θ)
  | [] => [⟨thread, 1⟩]
  | reader :: rest =>
    if reader.thread = thread then { reader with count := inc reader.count } :: rest
    else reader :: addEntry thread rest

/-- The first entry of the thread is counted down, and goes when it is down to zero; `none` if
there is no entry. -/
def removeEntry {θ : Type} [DecidableEq θ] (thread : θ) :
    List (Reader θ) → Option (List (Reader θ))
  | [] => none
  | reader :: rest =>
    if reader.thread = thread then
      if dec reader.count = 0 then some rest
      else some ({ reader with count := dec reader.count } :: rest)
    else (removeEntry thread rest).map (reader :: ·)

namespace Rwlock

variable {θ : Type} [DecidableEq θ]

/-- `RwlockFindReader`. -/
def findReader (s : Rwlock θ) (thread : θ) : Option (Reader θ) :=
  s.readers.find? fun reader => reader.thread = thread

/-- `RwlockAddReader`. -/
def addReader (s : Rwlock θ) (thread : θ) : Rwlock θ :=
  { s with readers := addEntry thread s.readers, readerCount := inc s.readerCount }

/-- `RwlockRemoveReader`; `none` is `false`. -/
def removeReader (s : Rwlock θ) (thread : θ) : Option (Rwlock θ) :=
  (removeEntry thread s.readers).map fun readers =>
    { s with readers := readers, readerCount := dec s.readerCount }

/-- `unregister_writer_wait`. -/
def unregister (s : Rwlock θ) (registered : Bool) : Rwlock θ :=
  if registered then { s with waitingWriters := dec s.waitingWriters } else s

/-- `waiting_writers++`, unless the call is registered already. -/
def register (s : Rwlock θ) (registered : Bool) : Rwlock θ :=
  if registered then s else { s with waitingWriters := inc s.waitingWriters }

/-- The write lock would never become free for this thread. -/
def Deadlocks (s : Rwlock θ) (self : θ) : Prop :=
  s.writer = some self ∨ (s.findReader self).isSome

/-- A write lock can be taken. -/
def Free (s : Rwlock θ) : Prop :=
  s.writer = none ∧ s.readerCount = 0

/-- A read lock can be taken. -/
def MayRead (s : Rwlock θ) (self : θ) : Prop :=
  s.writer = none ∧ (s.waitingWriters = 0 ∨ (s.findReader self).isSome) ∨ s.writer = some self

instance (s : Rwlock θ) (self : θ) : Decidable (s.Deadlocks self) :=
  inferInstanceAs (Decidable (_ ∨ _))

instance (s : Rwlock θ) : Decidable s.Free :=
  inferInstanceAs (Decidable (_ ∧ _))

instance (s : Rwlock θ) (self : θ) : Decidable (s.MayRead self) :=
  inferInstanceAs (Decidable (_ ∨ _))

/-- The thread becomes the writer. -/
def take (s : Rwlock θ) (self : θ) : Rwlock θ :=
  { s with writer := some self, writerCount := 1 }

/-- The end of a try that got nothing: the call sleeps unless its time is over. `expired` says
whether the deadline has passed. -/
def sleep (s : Rwlock θ) (timeout : Option ℕ) (expired registered : Bool) : Try × Rwlock θ :=
  match timeout with
  | none => (.asleep registered, s)
  | some usec =>
    if usec = 0 ∨ expired then (.returned .timedOut, s.unregister registered)
    else (.asleep registered, s)

/-- One try of `RwlockLockCooperative`. -/
def lockCooperative (s : Rwlock θ) (call : Wait θ) (expired : Bool) : Try × Rwlock θ :=
  match call.kind with
  | .write =>
    if s.Deadlocks call.thread then (.returned .deadlk, s.unregister call.registered)
    else if s.Free then (.returned .ok, (s.unregister call.registered).take call.thread)
    else (s.register call.registered).sleep call.timeout expired true
  | .read =>
    if s.MayRead call.thread then (.returned .ok, s.addReader call.thread)
    else s.sleep call.timeout expired call.registered

/-- `PthreadRwlockTryrdlock`. -/
def tryrdlock (s : Rwlock θ) (self : θ) : Code × Rwlock θ :=
  if s.MayRead self then (.ok, s.addReader self) else (.busy, s)

/-- `PthreadRwlockTrywrlock`. -/
def trywrlock (s : Rwlock θ) (self : θ) : Code × Rwlock θ :=
  if s.Deadlocks self then (.deadlk, s)
  else if s.Free then (.ok, s.take self)
  else (.busy, s)

/-- The try variant of either kind. -/
def trylock (s : Rwlock θ) (self : θ) : Kind → Code × Rwlock θ
  | .read => s.tryrdlock self
  | .write => s.trywrlock self

/-- `PthreadRwlockUnlock`; `none` where `EXIT_IF` stops the process. -/
def unlock (s : Rwlock θ) (self : θ) : Option (Code × Rwlock θ) :=
  match s.removeReader self with
  | some s' => some (.ok, s')
  | none =>
    if s.writer = some self then
      if s.writerCount = 0 then none
      else if dec s.writerCount = 0 then
        some (.ok, { s with writerCount := dec s.writerCount, writer := none })
      else some (.ok, { s with writerCount := dec s.writerCount })
    else some (.perm, s)

end Rwlock

/-! ### Steps -/

/-- The lock and the calls that sleep. -/
structure State (θ : Type) where
  rwlock : Rwlock θ
  waits : List (Wait θ)

/-- Before the first call. -/
def State.new {θ : Type} : State θ :=
  ⟨.new, []⟩

/-- What a step shows: a thread gets a lock, a locking call fails, a call goes to sleep (`registers`
if it starts to wait as a writer), a thread calls unlock. -/
inductive Event (θ : Type)
  | locked (thread : θ) (kind : Kind)
  | failed (thread : θ) (code : Code)
  | asleep (thread : θ) (registers : Bool)
  | unlock (thread : θ) (code : Code)

/-- What a try shows. -/
def Try.event {θ : Type} (call : Wait θ) : Try → Event θ
  | .returned .ok => .locked call.thread call.kind
  | .returned code => .failed call.thread code
  | .asleep registered => .asleep call.thread (registered && !call.registered)

/-- The calls that sleep after a try, `others` being the other ones. -/
def Try.waits {θ : Type} (call : Wait θ) (others : List (Wait θ)) : Try → List (Wait θ)
  | .returned _ => others
  | .asleep registered => { call with registered := registered } :: others

/-- `Step s e s'`: what a call does from one lock of `rwlock->m` to the next unlock. -/
inductive Step {θ : Type} [DecidableEq θ] : State θ → Event θ → State θ → Prop
  | lock {s : State θ} (call : Wait θ) (expired : Bool) (hnew : call.registered = false) :
      Step s ((s.rwlock.lockCooperative call expired).1.event call)
        ⟨(s.rwlock.lockCooperative call expired).2,
          (s.rwlock.lockCooperative call expired).1.waits call s.waits⟩
  | retry {s : State θ} (call : Wait θ) (expired : Bool) (hasleep : call ∈ s.waits) :
      Step s ((s.rwlock.lockCooperative call expired).1.event call)
        ⟨(s.rwlock.lockCooperative call expired).2,
          (s.rwlock.lockCooperative call expired).1.waits call (s.waits.erase call)⟩
  | trylock {s : State θ} (thread : θ) (kind : Kind) :
      Step s ((Try.returned (s.rwlock.trylock thread kind).1).event ⟨thread, kind, none, false⟩)
        ⟨(s.rwlock.trylock thread kind).2, s.waits⟩
  | unlock {s : State θ} {code : Code} {rwlock : Rwlock θ} (thread : θ)
      (hunlock : s.rwlock.unlock thread = some (code, rwlock)) :
      Step s (.unlock thread code) ⟨rwlock, s.waits⟩

/-- A step that does not count up a counter which is at the end of its range. -/
def StepInRange {θ : Type} [DecidableEq θ] (s : State θ) (e : Event θ) (s' : State θ) : Prop :=
  Step s e s' ∧ (∀ thread, e = .locked thread .read → s.rwlock.readerCount < uint32Max) ∧
    ∀ thread, e = .asleep thread true → s.rwlock.waitingWriters < uint32Max

end Prosperismo.Rwlocks
