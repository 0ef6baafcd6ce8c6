import Mathlib.Data.Int.Notation
import Mathlib.Data.List.Basic
import Mathlib.Logic.Function.Basic
import Prosperismo.Base.Run

/-!
# Event queues

An event queue is a list of registered events (`KernelEqueueEvent`), at most one for each pair of
an identifier and a filter. `TriggerEvent` triggers one, `GetTriggeredEvents` reports those that
are triggered, front to back, until its array is full. `WaitForEvents` does the same again and
again until there is something to report.

Everything is read and written under `m_mutex`, so a step is what a call does from one lock to
the next unlock (`Step`). A call of `WaitForEvents` that has found nothing sleeps, and may look
again at any time: an event may have been added or triggered, a timer may be due, or its own time
may be over. `m_cond_var` is not part of the state for that reason.

Events are registered and triggered by the functions of `Registration` and `Trigger`, and by no
others. The clock is the steady one, so it does not run backwards between two readings under the
mutex; the reading that arms a timer is taken before the lock.
-/

namespace Prosperismo.EventQueue

/-! ### Events -/

/-- `EV_ADD`. -/
def evAdd : BitVec 16 := 0x01

/-- `EV_ONESHOT`. -/
def evOneshot : BitVec 16 := 0x10

/-- `EV_CLEAR`. -/
def evClear : BitVec 16 := 0x20

/-- `KERNEL_EVFILT_USER`. -/
def kernelEvfiltUser : ℤ := -11

/-- `KERNEL_EVFILT_VIDEO_OUT`. -/
def kernelEvfiltVideoOut : ℤ := -13

/-- `KERNEL_EVFILT_GRAPHICS`. -/
def kernelEvfiltGraphics : ℤ := -14

/-- `KERNEL_EVFILT_HRTIMER`. -/
def kernelEvfiltHrtimer : ℤ := -15

/-- The pair that identifies an event. -/
abbrev Key := BitVec 64 × ℤ

/-- `KernelEvent`. -/
structure KernelEvent where
  ident : BitVec 64
  filter : ℤ
  flags : BitVec 16
  fflags : BitVec 32
  data : BitVec 64
  udata : BitVec 64
  deriving DecidableEq

/-- The functions that are stored as `trigger_func`. -/
inductive TriggerFunc
  | userEvent
  | amprEvent
  | videoOutEvent
  | eopEvent
  deriving DecidableEq

/-- The functions that are stored as `reset_func`. -/
inductive ResetFunc
  | userEvent
  | videoOutEvent
  | eopEvent
  deriving DecidableEq

/-- The functions that are stored as `delete_event_func`. -/
inductive DeleteFunc
  | removeVideoOutEventQueue
  | eopEvent
  deriving DecidableEq

/-- `KernelFilter`. `data` is the pointer that the delete callback finds its registration by;
`owner` only keeps that alive. -/
structure KernelFilter where
  data : BitVec 64
  triggerFunc : Option TriggerFunc
  resetFunc : Option ResetFunc
  deleteEventFunc : Option DeleteFunc
  deriving DecidableEq

/-- `KernelEqueueEvent`. -/
structure KernelEqueueEvent where
  triggered : Bool
  deadlineNs : ℕ
  event : KernelEvent
  filter : KernelFilter
  pendingEvents : List KernelEvent
  deriving DecidableEq

/-- The pair that identifies the event. -/
def KernelEvent.key (event : KernelEvent) : Key :=
  (event.ident, event.filter)

/-- `MakeVideoOutEventData`: `tsc` is the time stamp that it reads. -/
def makeVideoOutEventData (currentData triggerData tsc : BitVec 64) : BitVec 64 :=
  let old := (currentData >>> 12) &&& 0xf
  let counter := if old ≠ 0xf then old + 1 else old
  let time := tsc &&& 0xfff
  time ||| (counter <<< 12) ||| ((triggerData &&& 0xffffffffffff) <<< 16)

namespace KernelEqueueEvent

/-- The pair that identifies the event. -/
def key (e : KernelEqueueEvent) : Key :=
  e.event.key

/-- A notification is reported next, or waits behind one that is not reported yet. -/
def notify (e : KernelEqueueEvent) (event : KernelEvent) : KernelEqueueEvent :=
  if e.triggered then { e with pendingEvents := e.pendingEvents ++ [event] }
  else { e with event := event, triggered := true }

/-- `UserEventTriggerFunc`. -/
def userEventTriggerFunc (e : KernelEqueueEvent) (triggerData : BitVec 64) : KernelEqueueEvent :=
  { e with triggered := true, event := { e.event with data := triggerData, udata := triggerData } }

/-- `AmprEventTriggerFunc`. -/
def amprEventTriggerFunc (e : KernelEqueueEvent) (triggerData : BitVec 64) : KernelEqueueEvent :=
  e.notify { e.event with data := triggerData }

/-- `TriggerVideoOutEvent`. -/
def triggerVideoOutEvent (e : KernelEqueueEvent) (triggerData tsc : BitVec 64) :
    KernelEqueueEvent :=
  e.notify { e.event with
    fflags := if e.event.fflags < 0xf then e.event.fflags + 1 else e.event.fflags
    data := makeVideoOutEventData e.event.data triggerData tsc }

/-- `EopEventTriggerFunc`. -/
def eopEventTriggerFunc (e : KernelEqueueEvent) (triggerData : BitVec 64) : KernelEqueueEvent :=
  e.notify { e.event with fflags := e.event.fflags + 1, data := triggerData }

/-- What `TriggerEvent` does to the event it finds. -/
def trigger (e : KernelEqueueEvent) (triggerData tsc : BitVec 64) : KernelEqueueEvent :=
  match e.filter.triggerFunc with
  | some .userEvent => e.userEventTriggerFunc triggerData
  | some .amprEvent => e.amprEventTriggerFunc triggerData
  | some .videoOutEvent => e.triggerVideoOutEvent triggerData tsc
  | some .eopEvent => e.eopEventTriggerFunc triggerData
  | none => { e with triggered := true }

/-- The event is no longer triggered. -/
def clear (e : KernelEqueueEvent) : KernelEqueueEvent :=
  { e with triggered := false, event := { e.event with fflags := 0, data := 0 } }

/-- `UserEventResetFunc`, and what is done where there is no `reset_func`. -/
def userEventResetFunc (e : KernelEqueueEvent) : KernelEqueueEvent :=
  if e.event.flags &&& evClear ≠ 0 then e.clear else e

/-- The event is reset after a report. -/
def reset (e : KernelEqueueEvent) : KernelEqueueEvent :=
  match e.filter.resetFunc with
  | some .userEvent => e.userEventResetFunc
  | some .videoOutEvent => e.clear
  | some .eopEvent => e.clear
  | none => e.userEventResetFunc

/-- The next pending notification becomes the current one. -/
def popPending (e : KernelEqueueEvent) : KernelEqueueEvent :=
  match e.pendingEvents with
  | [] => e
  | event :: rest => { e with event := event, pendingEvents := rest, triggered := true }

/-- What `TriggerExpiredTimers` does to one event. -/
def expire (nowNs : ℕ) (e : KernelEqueueEvent) : KernelEqueueEvent :=
  if e.triggered = false ∧ e.deadlineNs ≠ 0 ∧ e.deadlineNs ≤ nowNs then { e with triggered := true }
  else e

/-- What `AddEvent` does to an event that is there already. -/
def update (e event : KernelEqueueEvent) : KernelEqueueEvent :=
  { e with
    deadlineNs := event.deadlineNs
    event := { e.event with udata := event.event.udata }
    pendingEvents := e.pendingEvents.map ({ · with udata := event.event.udata }) }

/-- The inner loop of `GetTriggeredEvents`, with `room` places left in the array: what is
reported, and the event afterwards, unless it is erased. -/
def report : ℕ → KernelEqueueEvent → List KernelEvent × Option KernelEqueueEvent
  | 0, e => ([], some e)
  | room + 1, e =>
    if e.triggered then
      if e.event.flags &&& evOneshot ≠ 0 then ([e.event], none)
      else
        let (reported, left) := report room e.reset.popPending
        (e.event :: reported, left)
    else ([], some e)

end KernelEqueueEvent

/-- The outer loop of `GetTriggeredEvents`. -/
def reportAll : ℕ → List KernelEqueueEvent → List KernelEvent × List KernelEqueueEvent
  | _, [] => ([], [])
  | room, e :: rest =>
    let (reported, left) := e.report room
    if room ≤ reported.length then (reported, left.toList ++ rest)
    else
      let (more, rest') := reportAll (room - reported.length) rest
      (reported ++ more, left.toList ++ rest')

/-- The first element that satisfies `p` is changed. -/
def modifyFirst {α : Type} (p : α → Bool) (f : α → α) : List α → List α
  | [] => []
  | x :: xs => if p x then f x :: xs else x :: modifyFirst p f xs

/-! ### The queue -/

/-- `KERNEL_ERROR_EBADF` and `KERNEL_ERROR_ENOENT`. -/
inductive KernelError
  | ebadf
  | enoent
  deriving DecidableEq

/-- `KernelEqueuePrivate`. -/
structure KernelEqueue where
  events : List KernelEqueueEvent
  closed : Bool

namespace KernelEqueue

/-- The event that `std::find_if` finds. -/
def find (q : KernelEqueue) (key : Key) : Option KernelEqueueEvent :=
  q.events.find? fun e => e.key = key

/-- `AddEvent`. -/
def addEvent (q : KernelEqueue) (event : KernelEqueueEvent) :
    Except KernelError Unit × KernelEqueue :=
  if q.closed then (.error .ebadf, q)
  else if (q.find event.key).isSome then
    (.ok (), { q with events := modifyFirst (·.key = event.key) (·.update event) q.events })
  else (.ok (), { q with events := q.events ++ [event] })

/-- `TriggerEvent`. -/
def triggerEvent (q : KernelEqueue) (key : Key) (triggerData tsc : BitVec 64) :
    Except KernelError Unit × KernelEqueue :=
  if q.closed then (.error .ebadf, q)
  else if (q.find key).isSome then
    (.ok (), { q with events := modifyFirst (·.key = key) (·.trigger triggerData tsc) q.events })
  else (.error .enoent, q)

/-- The delete callbacks of some events. -/
def callbacks (events : List KernelEqueueEvent) : List KernelEqueueEvent :=
  events.filter fun e => e.filter.deleteEventFunc.isSome

/-- `DeleteEvent`, with the event whose delete callback runs. -/
def deleteEvent (q : KernelEqueue) (key : Key) :
    Except KernelError Unit × List KernelEqueueEvent × KernelEqueue :=
  if q.closed then (.error .ebadf, [], q)
  else if (q.find key).isSome then
    (.ok (), callbacks (q.find key).toList,
      { q with events := q.events.eraseP fun e => e.key = key })
  else (.error .enoent, [], q)

/-- `GetTriggeredEvents`, when the clock says `nowNs`. -/
def getTriggeredEvents (q : KernelEqueue) (num nowNs : ℕ) :
    Except KernelError (List KernelEvent) × KernelEqueue :=
  if q.closed then (.error .ebadf, q)
  else
    let (reported, events) := reportAll num (q.events.map (·.expire nowNs))
    (.ok reported, { q with events := events })

/-- `Close`, with the events whose delete callbacks run. -/
def close (q : KernelEqueue) : List KernelEqueueEvent × KernelEqueue :=
  if q.closed then ([], q) else (callbacks q.events, ⟨[], true⟩)

end KernelEqueue

/-! ### Registrations and triggers -/

/-- `UINT64_MAX`. -/
def uint64Max : ℕ := 0xffffffffffffffff

/-- `VideoOutEventKind`. -/
inductive VideoOutEventKind
  | flip
  | vblank
  | preVblankStart
  | outputMode
  deriving DecidableEq

/-- `VideoOutEventId`. -/
def videoOutEventId : VideoOutEventKind → BitVec 64
  | .flip => 0
  | .vblank => 1
  | .preVblankStart => 2
  | .outputMode => 8

/-- `KernelAddUserEvent` and `KernelAddUserEventEdge`, which differ in the flags. -/
def userEvent (id : ℤ) (flags : BitVec 16) : KernelEqueueEvent :=
  ⟨false, 0, ⟨BitVec.ofInt 64 id, kernelEvfiltUser, flags, 0, 0, 0⟩,
    ⟨0, some .userEvent, some .userEvent, none⟩, []⟩

/-- `KernelAddUserEvent`. -/
def kernelAddUserEvent (id : ℤ) : KernelEqueueEvent :=
  userEvent id evAdd

/-- `KernelAddUserEventEdge`. -/
def kernelAddUserEventEdge (id : ℤ) : KernelEqueueEvent :=
  userEvent id (evAdd ||| evClear)

/-- `KernelAddHRTimerEvent`: a time that is no time, or too long, is refused. -/
def kernelAddHRTimerEvent (id tvSec tvNsec : ℤ) (udata : BitVec 64) (nowNs : ℕ) :
    Option KernelEqueueEvent :=
  if tvSec < 0 ∨ tvNsec < 0 ∨ 1000000000 ≤ tvNsec ∨
      (uint64Max - tvNsec.toNat) / 1000000000 < tvSec.toNat then none
  else
    let delayNs := tvSec.toNat * 1000000000 + tvNsec.toNat
    some
      ⟨false, if delayNs ≤ uint64Max - nowNs then nowNs + delayNs else uint64Max,
        ⟨BitVec.ofInt 64 id, kernelEvfiltHrtimer, evAdd ||| evOneshot, 0, 0, udata⟩,
        ⟨0, none, none, none⟩, []⟩

/-- `KernelAddAmprEvent`. -/
def kernelAddAmprEvent (id : ℤ) (udata : BitVec 64) : KernelEqueueEvent :=
  ⟨false, 0, ⟨BitVec.ofInt 64 id, kernelEvfiltUser, evAdd ||| evClear, 0, 0, udata⟩,
    ⟨0, some .amprEvent, some .userEvent, none⟩, []⟩

/-- `RegisterVideoOutEvent`: a change of the output mode is reported once to begin with. -/
def registerVideoOutEvent (kind : VideoOutEventKind) (udata registration outputMode tsc : BitVec 64) :
    KernelEqueueEvent :=
  let initiallyTriggered := kind = .outputMode
  ⟨initiallyTriggered, 0,
    ⟨videoOutEventId kind, kernelEvfiltVideoOut, 0, if initiallyTriggered then 1 else 0,
      if initiallyTriggered then makeVideoOutEventData 0 outputMode tsc else 0, udata⟩,
    ⟨registration, some .videoOutEvent, some .videoOutEvent, some .removeVideoOutEventQueue⟩, []⟩

/-- `AddEqEvent`. -/
def addEqEvent (id : ℤ) (udata renderer : BitVec 64) : KernelEqueueEvent :=
  ⟨false, 0, ⟨BitVec.ofInt 64 id, kernelEvfiltGraphics, 0, 0, BitVec.ofInt 64 id, udata⟩,
    ⟨renderer, some .eopEvent, some .eopEvent, some .eopEvent⟩, []⟩

/-- The calls that end in `AddEvent`, with what they read elsewhere. -/
inductive Registration
  | kernelAddUserEvent (id : ℤ)
  | kernelAddUserEventEdge (id : ℤ)
  | kernelAddHRTimerEvent (id tvSec tvNsec : ℤ) (udata : BitVec 64) (nowNs : ℕ)
  | kernelAddAmprEvent (id : ℤ) (udata : BitVec 64)
  | registerVideoOutEvent (kind : VideoOutEventKind) (udata registration outputMode tsc : BitVec 64)
  | addEqEvent (id : ℤ) (udata renderer : BitVec 64)

/-- The event that is handed to `AddEvent`, if the call gets that far. -/
def Registration.event : Registration → Option KernelEqueueEvent
  | .kernelAddUserEvent id => some (EventQueue.kernelAddUserEvent id)
  | .kernelAddUserEventEdge id => some (EventQueue.kernelAddUserEventEdge id)
  | .kernelAddHRTimerEvent id tvSec tvNsec udata nowNs =>
    EventQueue.kernelAddHRTimerEvent id tvSec tvNsec udata nowNs
  | .kernelAddAmprEvent id udata => some (EventQueue.kernelAddAmprEvent id udata)
  | .registerVideoOutEvent kind udata registration outputMode tsc =>
    some (EventQueue.registerVideoOutEvent kind udata registration outputMode tsc)
  | .addEqEvent id udata renderer => some (EventQueue.addEqEvent id udata renderer)

/-- The calls that end in `TriggerEvent`. -/
inductive Trigger
  | kernelTriggerUserEvent (id : ℤ) (udata : BitVec 64)
  | triggerVideoOutEvents (kind : VideoOutEventKind) (triggerData tsc : BitVec 64)
  | triggerEopEvent (id : ℤ) (contextId : BitVec 32)

namespace Trigger

/-- The event that is triggered. -/
def key : Trigger → Key
  | .kernelTriggerUserEvent id _ => (BitVec.ofInt 64 id, kernelEvfiltUser)
  | .triggerVideoOutEvents kind _ _ => (videoOutEventId kind, kernelEvfiltVideoOut)
  | .triggerEopEvent id _ => (BitVec.ofInt 64 id, kernelEvfiltGraphics)

/-- The argument `trigger_data`. -/
def triggerData : Trigger → BitVec 64
  | .kernelTriggerUserEvent _ udata => udata
  | .triggerVideoOutEvents _ triggerData _ => triggerData
  | .triggerEopEvent _ contextId => contextId.setWidth 64

/-- The time stamp, where the callback reads it. -/
def tsc : Trigger → BitVec 64
  | .triggerVideoOutEvents _ _ tsc => tsc
  | _ => 0

end Trigger

/-! ### Steps -/

/-- Where a call of `WaitForEvents` stands: not made yet, asleep, or returned. -/
inductive Call
  | fresh
  | waiting (num micros : ℕ)
  | returned (result : Except KernelError (List KernelEvent))

/-- One iteration of the loop of `WaitForEvents`, which has found `result`: it returns, or goes
to sleep. -/
def Call.iterate (num micros elapsed : ℕ) (result : Except KernelError (List KernelEvent)) : Call :=
  match result with
  | .error error => .returned (.error error)
  | .ok events =>
    if events ≠ [] ∨ micros ≤ elapsed ∧ micros ≠ 0 then .returned (.ok events)
    else .waiting num micros

/-- The queue, the calls of `WaitForEvents`, and the latest reading of the clock. -/
structure State (τ : Type) where
  queue : KernelEqueue
  calls : τ → Call
  clock : ℕ

/-- `KernelCreateEqueue`. -/
def State.new {τ : Type} : State τ :=
  ⟨⟨[], false⟩, fun _ => .fresh, 0⟩

/-- What the threads do, and what they get. `isNew` tells whether the event was not there yet,
`callbacks` are the events whose delete callbacks ran. -/
inductive Action (τ : Type)
  | addEvent (event : KernelEqueueEvent) (result : Except KernelError Unit) (isNew : Bool)
  | triggerEvent (trigger : Trigger) (result : Except KernelError Unit)
  | deleteEvent (key : Key) (result : Except KernelError Unit) (callbacks : List KernelEqueueEvent)
  | getTriggeredEvents (num nowNs : ℕ) (result : Except KernelError (List KernelEvent))
  | waitForEvents (call : τ) (num nowNs : ℕ) (result : Except KernelError (List KernelEvent))
  | resume (call : τ) (num nowNs : ℕ) (result : Except KernelError (List KernelEvent))
  | close (callbacks : List KernelEqueueEvent)

/-- `Step s a s'`: what a call does from one lock of `m_mutex` to the next unlock. -/
inductive Step {τ : Type} [DecidableEq τ] : State τ → Action τ → State τ → Prop
  | addEvent {s : State τ} {registration : Registration} {event : KernelEqueueEvent}
      (hevent : registration.event = some event) :
      Step s
        (.addEvent event (s.queue.addEvent event).1
          (!s.queue.closed && (s.queue.find event.key).isNone))
        { s with queue := (s.queue.addEvent event).2 }
  | triggerEvent {s : State τ} (trigger : Trigger) :
      Step s
        (.triggerEvent trigger
          (s.queue.triggerEvent trigger.key trigger.triggerData trigger.tsc).1)
        { s with
          queue := (s.queue.triggerEvent trigger.key trigger.triggerData trigger.tsc).2 }
  | deleteEvent {s : State τ} (key : Key) :
      Step s (.deleteEvent key (s.queue.deleteEvent key).1 (s.queue.deleteEvent key).2.1)
        { s with queue := (s.queue.deleteEvent key).2.2 }
  | getTriggeredEvents {s : State τ} {num nowNs : ℕ} (hnum : 1 ≤ num) (hclock : s.clock ≤ nowNs) :
      Step s (.getTriggeredEvents num nowNs (s.queue.getTriggeredEvents num nowNs).1)
        ⟨(s.queue.getTriggeredEvents num nowNs).2, s.calls, nowNs⟩
  | waitForEvents {s : State τ} {call : τ} {num nowNs : ℕ} (micros : ℕ) (hnum : 1 ≤ num)
      (hclock : s.clock ≤ nowNs) (hcall : s.calls call = .fresh) :
      Step s (.waitForEvents call num nowNs (s.queue.getTriggeredEvents num nowNs).1)
        ⟨(s.queue.getTriggeredEvents num nowNs).2,
          Function.update s.calls call
            (.iterate num micros 0 (s.queue.getTriggeredEvents num nowNs).1),
          nowNs⟩
  | resume {s : State τ} {call : τ} {num micros nowNs : ℕ} (elapsed : ℕ)
      (hclock : s.clock ≤ nowNs) (hcall : s.calls call = .waiting num micros) :
      Step s (.resume call num nowNs (s.queue.getTriggeredEvents num nowNs).1)
        ⟨(s.queue.getTriggeredEvents num nowNs).2,
          Function.update s.calls call
            (.iterate num micros elapsed (s.queue.getTriggeredEvents num nowNs).1),
          nowNs⟩
  | close {s : State τ} :
      Step s (.close s.queue.close.1) { s with queue := s.queue.close.2 }

/-- The notifications that an event has to report. -/
def KernelEqueueEvent.queued (e : KernelEqueueEvent) : List KernelEvent :=
  if e.triggered then e.event :: e.pendingEvents else []

/-- A user event that is not cleared when it is reported. -/
def KernelEvent.Level (event : KernelEvent) : Prop :=
  event.filter = kernelEvfiltUser ∧ event.flags &&& evClear = 0

/-- The notifications ahead of a level-triggered event leave at most one of `num` places. -/
def Fits (num : ℕ) (events : List KernelEqueueEvent) : Prop :=
  ∀ before e after, events = before ++ e :: after → e.triggered = true → e.event.Level →
    num ≤ (before.flatMap (·.queued)).length + 1

namespace Action

variable {τ : Type}

/-- The size of the array, the time, and the result of an action that collects events. -/
def collects : Action τ → Option (ℕ × ℕ × Except KernelError (List KernelEvent))
  | .getTriggeredEvents num nowNs result => some (num, nowNs, result)
  | .waitForEvents _ num nowNs result => some (num, nowNs, result)
  | .resume _ num nowNs result => some (num, nowNs, result)
  | _ => none

end Action

/-- A step that reports no level-triggered event twice, for lack of room, and re-arms no timer
that is triggered already, unless with a deadline that has passed. -/
def StepFits {τ : Type} [DecidableEq τ] (s : State τ) (a : Action τ) (s' : State τ) : Prop :=
  Step s a s' ∧
    (∀ num nowNs result, a.collects = some (num, nowNs, result) →
      Fits num (s.queue.events.map (·.expire nowNs))) ∧
    ∀ event result isNew, a = .addEvent event result isNew →
      ∀ e ∈ s.queue.events, e.key = event.key → e.triggered = true → event.deadlineNs ≤ s.clock

end Prosperismo.EventQueue
