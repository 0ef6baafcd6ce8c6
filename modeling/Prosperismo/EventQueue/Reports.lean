import Mathlib.Data.List.Flatten
import Mathlib.Order.Lattice
import Mathlib.Tactic.Tauto
import Prosperismo.EventQueue.Model

/-!
# What an event reports

What an event is never changes while it is registered: its key, its flags and its functions
(`Same`). What it has to report is a queue (`queued`), and the inner loop of `GetTriggeredEvents`
takes from the front of it (`Proper.report`), unless the event is level-triggered: such an event
fills all the room there is. The outer loop does the same for the queues of all events, one after
the other (`reportAll_eq`).
-/

namespace Prosperismo.EventQueue

/-! ### What does not change -/

/-- The key, the flags and the functions of an event are those of another. -/
structure Same (e e' : KernelEqueueEvent) : Prop where
  key : e'.event.key = e.event.key
  flags : e'.event.flags = e.event.flags
  filter : e'.filter = e.filter

namespace Same

theorem refl (e : KernelEqueueEvent) : Same e e :=
  ⟨rfl, rfl, rfl⟩

theorem trans {e e' e'' : KernelEqueueEvent} (h : Same e e') (h' : Same e' e'') : Same e e'' :=
  ⟨h'.key.trans h.key, h'.flags.trans h.flags, h'.filter.trans h.filter⟩

variable {e e' : KernelEqueueEvent}

/-- The filter is a part of the key. -/
theorem eventFilter (h : Same e e') : e'.event.filter = e.event.filter :=
  congrArg Prod.snd h.key

theorem level (h : Same e e') : e'.event.Level ↔ e.event.Level := by
  unfold KernelEvent.Level
  rw [h.eventFilter, h.flags]

end Same

/-- The kinds of events there are. -/
inductive Kind (e : KernelEqueueEvent) : Prop
  | level (hfilter : e.event.filter = kernelEvfiltUser) (hflags : e.event.flags = evAdd)
      (htrigger : e.filter.triggerFunc = some .userEvent)
      (hreset : e.filter.resetFunc = some .userEvent) (hdelete : e.filter.deleteEventFunc = none)
  | edge (hfilter : e.event.filter = kernelEvfiltUser) (hflags : e.event.flags = evAdd ||| evClear)
      (htrigger : e.filter.triggerFunc = some .userEvent ∨ e.filter.triggerFunc = some .amprEvent)
      (hreset : e.filter.resetFunc = some .userEvent) (hdelete : e.filter.deleteEventFunc = none)
  | timer (hfilter : e.event.filter = kernelEvfiltHrtimer)
      (hflags : e.event.flags = evAdd ||| evOneshot) (htrigger : e.filter.triggerFunc = none)
      (hdelete : e.filter.deleteEventFunc = none)
  | graphics (huser : e.event.filter ≠ kernelEvfiltUser)
      (htimer : e.event.filter ≠ kernelEvfiltHrtimer) (hflags : e.event.flags = 0)
      (htrigger : e.filter.triggerFunc = some .videoOutEvent ∨
        e.filter.triggerFunc = some .eopEvent)
      (hreset : e.filter.resetFunc = some .videoOutEvent ∨ e.filter.resetFunc = some .eopEvent)

namespace Kind

variable {e e' : KernelEqueueEvent}

theorem same (h : Same e e') (hkind : Kind e) : Kind e' := by
  cases hkind with
  | level hfilter hflags htrigger hreset hdelete =>
    rw [← h.filter] at htrigger hreset hdelete
    exact .level (h.eventFilter.trans hfilter) (h.flags.trans hflags) htrigger hreset hdelete
  | edge hfilter hflags htrigger hreset hdelete =>
    rw [← h.filter] at htrigger hreset hdelete
    exact .edge (h.eventFilter.trans hfilter) (h.flags.trans hflags) htrigger hreset hdelete
  | timer hfilter hflags htrigger hdelete =>
    rw [← h.filter] at htrigger hdelete
    exact .timer (h.eventFilter.trans hfilter) (h.flags.trans hflags) htrigger hdelete
  | graphics huser htimer hflags htrigger hreset =>
    rw [← h.filter] at htrigger hreset
    rw [← h.eventFilter] at huser htimer
    exact .graphics huser htimer (h.flags.trans hflags) htrigger hreset

/-- One-shot events are the timers. -/
theorem oneshot (h : Kind e) :
    e.event.flags &&& evOneshot ≠ 0 ↔ e.event.filter = kernelEvfiltHrtimer := by
  cases h with
  | level hfilter hflags => rw [hfilter, hflags]; decide
  | edge hfilter hflags => rw [hfilter, hflags]; decide
  | timer hfilter hflags => rw [hfilter, hflags]; decide
  | graphics huser htimer hflags =>
    rw [hflags]
    exact iff_of_false (by decide) htimer

/-- A level-triggered event is not reset. -/
theorem reset_of_level (h : Kind e) (hlevel : e.event.Level) : e.reset = e := by
  have hclear : ¬e.event.flags &&& evClear ≠ 0 := not_not.2 hlevel.2
  have hreset : e.reset = e.userEventResetFunc := by
    cases h with
    | level _ _ _ hreset => unfold KernelEqueueEvent.reset; rw [hreset]
    | edge _ _ _ hreset => unfold KernelEqueueEvent.reset; rw [hreset]
    | timer hfilter => exact absurd (hfilter.symm.trans hlevel.1) (by decide)
    | graphics huser => exact absurd hlevel.1 huser
  rw [hreset]
  exact if_neg hclear

/-- Every other event is reset, unless it is a timer. -/
theorem reset_of_not_level (h : Kind e) (hlevel : ¬e.event.Level)
    (htimer : e.event.filter ≠ kernelEvfiltHrtimer) : e.reset = e.clear := by
  unfold KernelEqueueEvent.reset
  cases h with
  | level hfilter hflags =>
    refine absurd ⟨hfilter, ?_⟩ hlevel
    rw [hflags]
    decide
  | edge _ hflags _ hreset =>
    have hclear : e.event.flags &&& evClear ≠ 0 := by rw [hflags]; decide
    rw [hreset]
    exact if_pos hclear
  | timer hfilter => exact absurd hfilter htimer
  | graphics _ _ _ _ hreset =>
    rcases hreset with hreset | hreset
    · rw [hreset]
    · rw [hreset]

/-- Level-triggered events are triggered by `UserEventTriggerFunc`. -/
theorem trigger_of_level (h : Kind e) (hlevel : e.event.Level) :
    e.filter.triggerFunc = some .userEvent := by
  cases h with
  | level _ _ htrigger => exact htrigger
  | edge _ hflags =>
    refine absurd hlevel.2 ?_
    rw [hflags]
    decide
  | timer hfilter => exact absurd (hfilter.symm.trans hlevel.1) (by decide)
  | graphics huser => exact absurd hlevel.1 huser

/-- A timer has no callbacks. -/
theorem timer_funcs (h : Kind e) (htimer : e.event.filter = kernelEvfiltHrtimer) :
    e.filter.triggerFunc = none ∧ e.filter.deleteEventFunc = none := by
  cases h with
  | level hfilter => exact absurd (htimer.symm.trans hfilter) (by decide)
  | edge hfilter => exact absurd (htimer.symm.trans hfilter) (by decide)
  | timer _ _ htrigger hdelete => exact ⟨htrigger, hdelete⟩
  | graphics _ hother => exact absurd htimer hother

end Kind

/-! ### What is queued -/

/-- An event between two steps. -/
structure Proper (e : KernelEqueueEvent) : Prop where
  kind : Kind e
  /-- Notifications wait behind the current one only. -/
  idle : e.triggered = false → e.pendingEvents = []
  pending : ∀ event ∈ e.pendingEvents, event.key = e.event.key ∧ event.flags = e.event.flags
  /-- The trigger functions of the other kinds queue nothing. -/
  single : e.filter.triggerFunc = some .userEvent ∨ e.filter.triggerFunc = none →
    e.pendingEvents = []
  deadline : e.event.filter ≠ kernelEvfiltHrtimer → e.deadlineNs = 0

theorem Registration.proper {registration : Registration} {event : KernelEqueueEvent}
    (h : registration.event = some event) : Proper event := by
  cases registration with
  | kernelAddUserEvent id =>
    obtain rfl := Option.some.inj h
    exact ⟨.level rfl rfl rfl rfl rfl, fun _ => rfl, nofun, fun _ => rfl, fun _ => rfl⟩
  | kernelAddUserEventEdge id =>
    obtain rfl := Option.some.inj h
    exact ⟨.edge rfl rfl (.inl rfl) rfl rfl, fun _ => rfl, nofun, fun _ => rfl, fun _ => rfl⟩
  | kernelAddHRTimerEvent id tvSec tvNsec udata nowNs =>
    simp only [Registration.event, EventQueue.kernelAddHRTimerEvent] at h
    split at h
    · cases h
    · obtain rfl := Option.some.inj h
      exact ⟨.timer rfl rfl rfl rfl, fun _ => rfl, nofun, fun _ => rfl, fun hne => absurd rfl hne⟩
  | kernelAddAmprEvent id udata =>
    obtain rfl := Option.some.inj h
    exact ⟨.edge rfl rfl (.inr rfl) rfl rfl, fun _ => rfl, nofun, fun _ => rfl, fun _ => rfl⟩
  | registerVideoOutEvent kind udata registration outputMode tsc =>
    obtain rfl := Option.some.inj h
    have huser : kernelEvfiltVideoOut ≠ kernelEvfiltUser := by decide
    have htimer : kernelEvfiltVideoOut ≠ kernelEvfiltHrtimer := by decide
    exact ⟨.graphics huser htimer rfl (.inl rfl) (.inl rfl), fun _ => rfl, nofun, fun _ => rfl,
      fun _ => rfl⟩
  | addEqEvent id udata renderer =>
    obtain rfl := Option.some.inj h
    have huser : kernelEvfiltGraphics ≠ kernelEvfiltUser := by decide
    have htimer : kernelEvfiltGraphics ≠ kernelEvfiltHrtimer := by decide
    exact ⟨.graphics huser htimer rfl (.inr rfl) (.inr rfl), fun _ => rfl, nofun, fun _ => rfl,
      fun _ => rfl⟩

namespace KernelEqueueEvent

@[simp] theorem queued_of_not_triggered {e : KernelEqueueEvent} (h : e.triggered = false) :
    e.queued = [] := by
  unfold queued
  rw [h]
  rfl

theorem queued_of_triggered {e : KernelEqueueEvent} (h : e.triggered = true) :
    e.queued = e.event :: e.pendingEvents :=
  if_pos h

theorem triggered_of_queued {e : KernelEqueueEvent} (h : e.queued ≠ []) : e.triggered = true := by
  cases htriggered : e.triggered with
  | true => rfl
  | false => exact absurd (queued_of_not_triggered htriggered) h

/-- A notification goes to the end of the queue. -/
theorem queued_notify {e : KernelEqueueEvent} (hidle : e.triggered = false → e.pendingEvents = [])
    (event : KernelEvent) : (e.notify event).queued = e.queued ++ [event] := by
  unfold notify
  split
  · next htriggered =>
    rw [queued_of_triggered htriggered]
    exact if_pos htriggered
  · next htriggered =>
    have hfalse := Bool.eq_false_iff.2 htriggered
    rw [queued_of_not_triggered hfalse, queued_of_triggered rfl]
    exact congrArg (event :: ·) (hidle hfalse)

/-- The clock triggers timers only. -/
theorem same_expire (nowNs : ℕ) (e : KernelEqueueEvent) : Same e (e.expire nowNs) := by
  unfold expire
  split
  · exact ⟨rfl, rfl, rfl⟩
  · exact .refl e

theorem expire_deadlineNs (nowNs : ℕ) (e : KernelEqueueEvent) :
    (e.expire nowNs).deadlineNs = e.deadlineNs := by
  unfold expire
  split
  · rfl
  · rfl

end KernelEqueueEvent

namespace Proper

open KernelEqueueEvent

variable {e : KernelEqueueEvent}

/-- What is queued has the key and the flags of the event. -/
theorem mem_queued (h : Proper e) {event : KernelEvent} (hmem : event ∈ e.queued) :
    event.key = e.event.key ∧ event.flags = e.event.flags := by
  cases htriggered : e.triggered with
  | false =>
    rw [queued_of_not_triggered htriggered] at hmem
    cases hmem
  | true =>
    rw [queued_of_triggered htriggered] at hmem
    rcases List.mem_cons.1 hmem with rfl | hmem
    · exact ⟨rfl, rfl⟩
    · exact h.pending event hmem

/-- Where nothing can wait behind the current notification. -/
theorem length_queued_le (h : Proper e)
    (hsingle : e.filter.triggerFunc = some .userEvent ∨ e.filter.triggerFunc = none) :
    e.queued.length ≤ 1 := by
  unfold queued
  split
  · rw [h.single hsingle]
    exact le_rfl
  · exact Nat.zero_le 1

/-- A new notification has to be one of the same event. -/
theorem notify (h : Proper e) {event : KernelEvent}
    (hfunc : ¬(e.filter.triggerFunc = some .userEvent ∨ e.filter.triggerFunc = none))
    (hkey : event.key = e.event.key) (hflags : event.flags = e.event.flags) :
    Proper (e.notify event) ∧ Same e (e.notify event) := by
  unfold KernelEqueueEvent.notify
  split
  · next htriggered =>
    have hsame : Same e { e with pendingEvents := e.pendingEvents ++ [event] } := ⟨rfl, rfl, rfl⟩
    refine ⟨⟨h.kind.same hsame, fun hfalse => ?_, fun other hother => ?_,
      fun hsingle => absurd hsingle hfunc, h.deadline⟩, hsame⟩
    · rw [htriggered] at hfalse
      cases hfalse
    · rcases List.mem_append.1 hother with hother | hother
      · exact h.pending other hother
      · obtain rfl := List.mem_singleton.1 hother
        exact ⟨hkey, hflags⟩
  · next htriggered =>
    have hsame : Same e { e with event := event, triggered := true } := ⟨hkey, hflags, rfl⟩
    refine ⟨⟨h.kind.same hsame, nofun, fun other hother => ?_,
      fun hsingle => absurd hsingle hfunc, fun htimer => ?_⟩, hsame⟩
    · rw [h.idle (Bool.eq_false_iff.2 htriggered)] at hother
      cases hother
    · rw [hsame.eventFilter] at htimer
      exact h.deadline htimer

/-- What `TriggerEvent` does to an event that is no timer: it stays proper, and one notification
at most is added, with its data. -/
theorem trigger (h : Proper e) (htimer : e.event.filter ≠ kernelEvfiltHrtimer)
    (triggerData tsc : BitVec 64) :
    Proper (e.trigger triggerData tsc) ∧ Same e (e.trigger triggerData tsc) ∧
      (e.trigger triggerData tsc).deadlineNs = e.deadlineNs ∧
      (e.trigger triggerData tsc).queued.length ≤ e.queued.length + 1 ∧
      (e.filter.triggerFunc = some .amprEvent →
        (e.trigger triggerData tsc).queued =
          e.queued ++ [{ e.event with data := triggerData }]) := by
  have hnotify : ∀ event : KernelEvent, event.key = e.event.key → event.flags = e.event.flags →
      ¬(e.filter.triggerFunc = some .userEvent ∨ e.filter.triggerFunc = none) →
      Proper (e.notify event) ∧ Same e (e.notify event) ∧
        (e.notify event).deadlineNs = e.deadlineNs ∧
        (e.notify event).queued.length ≤ e.queued.length + 1 := by
    intro event hkey hflags hfunc
    obtain ⟨hproper, hsame⟩ := h.notify hfunc hkey hflags
    refine ⟨hproper, hsame, ?_, ?_⟩
    · unfold KernelEqueueEvent.notify
      split
      · rfl
      · rfl
    · rw [queued_notify h.idle, List.length_append, List.length_singleton]
  unfold KernelEqueueEvent.trigger
  cases hfunc : e.filter.triggerFunc with
  | none =>
    -- only timers have no trigger function
    cases h.kind with
    | level _ _ htrigger => cases htrigger.symm.trans hfunc
    | edge _ _ htrigger =>
      rcases htrigger with htrigger | htrigger
      · cases htrigger.symm.trans hfunc
      · cases htrigger.symm.trans hfunc
    | timer hfilter => exact absurd hfilter htimer
    | graphics _ _ _ htrigger =>
      rcases htrigger with htrigger | htrigger
      · cases htrigger.symm.trans hfunc
      · cases htrigger.symm.trans hfunc
  | some func =>
    have hsome : ∀ other, other ≠ TriggerFunc.userEvent → func = other →
        ¬(e.filter.triggerFunc = some .userEvent ∨ e.filter.triggerFunc = none) := by
      rintro other hother rfl (huser | hnone)
      · exact hother (Option.some.inj (hfunc.symm.trans huser))
      · cases hfunc.symm.trans hnone
    cases func with
    | userEvent =>
      have hempty := h.single (.inl hfunc)
      have hsame : Same e (e.userEventTriggerFunc triggerData) := ⟨rfl, rfl, rfl⟩
      have hproper : Proper (e.userEventTriggerFunc triggerData) :=
        ⟨h.kind.same hsame, nofun, h.pending, h.single, h.deadline⟩
      have hlength : (e.userEventTriggerFunc triggerData).queued.length ≤ 1 :=
        hproper.length_queued_le (.inl hfunc)
      exact ⟨hproper, hsame, rfl, hlength.trans (Nat.le_add_left 1 _), nofun⟩
    | amprEvent =>
      obtain ⟨hproper, hsame, hdeadline, hlength⟩ :=
        hnotify { e.event with data := triggerData } rfl rfl (hsome .amprEvent nofun rfl)
      exact ⟨hproper, hsame, hdeadline, hlength, fun _ => queued_notify h.idle _⟩
    | videoOutEvent =>
      obtain ⟨hproper, hsame, hdeadline, hlength⟩ :=
        hnotify { e.event with
          fflags := if e.event.fflags < 0xf then e.event.fflags + 1 else e.event.fflags
          data := makeVideoOutEventData e.event.data triggerData tsc } rfl rfl
          (hsome .videoOutEvent nofun rfl)
      exact ⟨hproper, hsame, hdeadline, hlength, nofun⟩
    | eopEvent =>
      obtain ⟨hproper, hsame, hdeadline, hlength⟩ :=
        hnotify { e.event with fflags := e.event.fflags + 1, data := triggerData } rfl rfl
          (hsome .eopEvent nofun rfl)
      exact ⟨hproper, hsame, hdeadline, hlength, nofun⟩

/-- `AddEvent` for an event that is there. -/
theorem update (h : Proper e) {event : KernelEqueueEvent} (hevent : Proper event)
    (hkey : e.event.key = event.event.key) : Proper (e.update event) ∧ Same e (e.update event) := by
  have hsame : Same e (e.update event) := ⟨rfl, rfl, rfl⟩
  refine ⟨⟨h.kind.same hsame, fun hidle => ?_, fun other hother => ?_, fun hsingle => ?_,
    fun htimer => hevent.deadline ?_⟩, hsame⟩
  · exact List.map_eq_nil_iff.2 (h.idle hidle)
  · obtain ⟨pending, hpending, rfl⟩ := List.mem_map.1 hother
    exact h.pending pending hpending
  · exact List.map_eq_nil_iff.2 (h.single hsingle)
  · rwa [← show e.event.filter = event.event.filter from congrArg Prod.snd hkey]

/-- Its queue is as before, but for the user data. -/
theorem queued_update (e event : KernelEqueueEvent) :
    (e.update event).queued = e.queued.map ({ · with udata := event.event.udata }) := by
  cases htriggered : e.triggered with
  | false =>
    rw [queued_of_not_triggered htriggered, queued_of_not_triggered (e := e.update event) htriggered]
    rfl
  | true =>
    rw [queued_of_triggered htriggered, queued_of_triggered (e := e.update event) htriggered]
    rfl

/-- The clock runs. -/
theorem expire (h : Proper e) (nowNs : ℕ) : Proper (e.expire nowNs) := by
  unfold KernelEqueueEvent.expire
  split
  · have hsame : Same e { e with triggered := true } := ⟨rfl, rfl, rfl⟩
    exact ⟨h.kind.same hsame, nofun, h.pending, h.single, h.deadline⟩
  · exact h

/-- The clock does not trigger other events. -/
theorem expire_eq (h : Proper e) (htimer : e.event.filter ≠ kernelEvfiltHrtimer) (nowNs : ℕ) :
    e.expire nowNs = e :=
  if_neg fun hexpired => hexpired.2.1 (h.deadline htimer)

end Proper

/-! ### The inner loop -/

/-- What the inner loop does with `room` places. -/
structure Reports (room : ℕ) (e : KernelEqueueEvent)
    (out : List KernelEvent × Option KernelEqueueEvent) : Prop where
  /-- The notifications are those of the event. -/
  same : ∀ event ∈ out.1, event.key = e.event.key ∧ event.flags = e.event.flags
  left : ∀ e' ∈ out.2, Proper e' ∧ Same e e' ∧ e'.deadlineNs = e.deadlineNs
  /-- Only a timer is erased, and then it has been reported, once. -/
  erased : out.2 = none → e.event.filter = kernelEvfiltHrtimer
  timer : e.event.filter = kernelEvfiltHrtimer → out.1.length + out.2.toList.length ≤ 1
  /-- The queue is taken from the front. -/
  queue : ¬e.event.Level →
    out.1 = e.queued.take room ∧ out.2.toList.flatMap (·.queued) = e.queued.drop room
  /-- A level-triggered event fills the array. -/
  level : e.event.Level → out = (if e.triggered then List.replicate room e.event else [], some e)

namespace Proper

open KernelEqueueEvent

variable {e : KernelEqueueEvent}

/-- Resetting an event that is not level-triggered takes the front off its queue. -/
theorem next (h : Proper e) (hlevel : ¬e.event.Level)
    (htimer : e.event.filter ≠ kernelEvfiltHrtimer) :
    Proper e.reset.popPending ∧ Same e e.reset.popPending ∧
      e.reset.popPending.deadlineNs = e.deadlineNs ∧
      e.reset.popPending.queued = e.pendingEvents := by
  rw [h.kind.reset_of_not_level hlevel htimer]
  have hsame : Same e e.clear := ⟨rfl, rfl, rfl⟩
  cases hpending : e.pendingEvents with
  | nil =>
    have hpop : e.clear.popPending = e.clear := by
      unfold popPending
      rw [show e.clear.pendingEvents = [] from hpending]
    rw [hpop]
    refine ⟨⟨h.kind.same hsame, fun _ => hpending, h.pending, h.single, h.deadline⟩, hsame, rfl, ?_⟩
    exact queued_of_not_triggered rfl
  | cons front rest =>
    have hpop : e.clear.popPending =
        { e.clear with event := front, pendingEvents := rest, triggered := true } := by
      unfold popPending
      rw [show e.clear.pendingEvents = front :: rest from hpending]
    have hmem : ∀ event ∈ front :: rest,
        event.key = e.event.key ∧ event.flags = e.event.flags := hpending ▸ h.pending
    obtain ⟨hkey, hflags⟩ := hmem front List.mem_cons_self
    rw [hpop]
    have hfront : Same e { e.clear with event := front, pendingEvents := rest, triggered := true } :=
      ⟨hkey, hflags, rfl⟩
    refine ⟨⟨h.kind.same hfront, nofun, fun event hevent => ?_, fun hsingle => ?_, fun hother => ?_⟩,
      hfront, rfl, rfl⟩
    · obtain ⟨hkey', hflags'⟩ := hmem event (List.mem_cons_of_mem _ hevent)
      exact ⟨hkey'.trans hkey.symm, hflags'.trans hflags.symm⟩
    · -- nothing can be pending then
      cases hpending.symm.trans (h.single hsingle)
    · exact h.deadline htimer

theorem report_idle (h : e.triggered = false) (room : ℕ) : e.report room = ([], some e) := by
  cases room with
  | zero => rfl
  | succ room =>
    unfold KernelEqueueEvent.report
    rw [h]
    rfl

theorem report_level (h : Proper e) (hlevel : e.event.Level) (htriggered : e.triggered = true)
    (room : ℕ) : e.report room = (List.replicate room e.event, some e) := by
  have honeshot : ¬e.event.flags &&& evOneshot ≠ 0 := by
    rw [h.kind.oneshot, hlevel.1]
    decide
  have hnext : e.reset.popPending = e := by
    rw [h.kind.reset_of_level hlevel]
    unfold popPending
    rw [h.single (.inl (h.kind.trigger_of_level hlevel))]
  induction room with
  | zero => rfl
  | succ room ih =>
    unfold KernelEqueueEvent.report
    rw [if_pos htriggered, if_neg honeshot, hnext, ih]
    rfl

theorem report_other (h : Proper e) (hlevel : ¬e.event.Level)
    (htimer : e.event.filter ≠ kernelEvfiltHrtimer) (room : ℕ) :
    ∃ e', e.report room = (e.queued.take room, some e') ∧ Proper e' ∧ Same e e' ∧
      e'.deadlineNs = e.deadlineNs ∧ e'.queued = e.queued.drop room := by
  -- the queue of the event is that of the next round, behind the notification of this one
  induction room generalizing e with
  | zero => exact ⟨e, rfl, h, .refl e, rfl, rfl⟩
  | succ room ih =>
    cases htriggered : e.triggered with
    | false =>
      rw [report_idle htriggered, queued_of_not_triggered htriggered]
      exact ⟨e, rfl, h, .refl e, rfl, queued_of_not_triggered htriggered⟩
    | true =>
      have honeshot : ¬e.event.flags &&& evOneshot ≠ 0 := fun hne =>
        htimer (h.kind.oneshot.1 hne)
      obtain ⟨hproper, hsame, hdeadline, hqueued⟩ := h.next hlevel htimer
      obtain ⟨e', hreport, hproper', hsame', hdeadline', hqueued'⟩ :=
        ih hproper (fun hl => hlevel (hsame.level.1 hl)) (hsame.eventFilter ▸ htimer)
      refine ⟨e', ?_, hproper', hsame.trans hsame', hdeadline'.trans hdeadline, ?_⟩
      · unfold KernelEqueueEvent.report
        rw [if_pos htriggered, if_neg honeshot, hreport, hqueued, queued_of_triggered htriggered]
        rfl
      · rw [hqueued', hqueued, queued_of_triggered htriggered]
        rfl

/-- The inner loop. -/
theorem report (h : Proper e) (room : ℕ) : Reports room e (e.report room) := by
  by_cases hlevel : e.event.Level
  · have hreport : e.report room =
        (if e.triggered then List.replicate room e.event else [], some e) := by
      cases htriggered : e.triggered with
      | false => exact report_idle htriggered room
      | true => exact h.report_level hlevel htriggered room
    have hother : e.event.filter ≠ kernelEvfiltHrtimer := hlevel.1 ▸ by decide
    rw [hreport]
    refine ⟨fun event hevent => ?_, fun e' he' => ?_, nofun, fun htimer => absurd htimer hother,
      fun hnot => absurd hlevel hnot, fun _ => rfl⟩
    · dsimp only at hevent
      split at hevent
      · obtain rfl := List.eq_of_mem_replicate hevent
        exact ⟨rfl, rfl⟩
      · cases hevent
    · obtain rfl := Option.some.inj he'
      exact ⟨h, .refl e, rfl⟩
  by_cases htimer : e.event.filter = kernelEvfiltHrtimer
  · have hpending := h.single (.inr (h.kind.timer_funcs htimer).1)
    have hkept : ∀ e' ∈ some e, Proper e' ∧ Same e e' ∧ e'.deadlineNs = e.deadlineNs := by
      intro e' he'
      obtain rfl := Option.some.inj he'
      exact ⟨h, .refl e, rfl⟩
    cases htriggered : e.triggered with
    | false =>
      rw [report_idle htriggered]
      refine ⟨nofun, hkept, nofun, fun _ => le_rfl, fun _ => ?_, fun hl => absurd hl hlevel⟩
      rw [queued_of_not_triggered htriggered]
      exact ⟨List.take_nil.symm, by simp [queued_of_not_triggered htriggered]⟩
    | true =>
      have hqueued : e.queued = [e.event] := by rw [queued_of_triggered htriggered, hpending]
      cases room with
      | zero =>
        exact ⟨nofun, hkept, nofun, fun _ => le_rfl, fun _ => ⟨rfl, List.append_nil _⟩,
          fun hl => absurd hl hlevel⟩
      | succ room =>
        have hreport : e.report (room + 1) = ([e.event], none) := by
          unfold KernelEqueueEvent.report
          rw [if_pos htriggered, if_pos (h.kind.oneshot.2 htimer)]
        rw [hreport]
        refine ⟨fun event hevent => ?_, nofun, fun _ => htimer, fun _ => le_rfl, fun _ => ?_,
          fun hl => absurd hl hlevel⟩
        · obtain rfl := List.mem_singleton.1 hevent
          exact ⟨rfl, rfl⟩
        · rw [hqueued]
          exact ⟨by simp, by simp⟩
  · obtain ⟨e', hreport, hproper, hsame, hdeadline, hqueued⟩ := h.report_other hlevel htimer room
    rw [hreport]
    refine ⟨fun event hevent => h.mem_queued (List.mem_of_mem_take hevent), fun e'' he'' => ?_,
      nofun, fun ht => absurd ht htimer, fun _ => ⟨rfl, ?_⟩, fun hl => absurd hl hlevel⟩
    · obtain rfl := Option.some.inj he''
      exact ⟨hproper, hsame, hdeadline⟩
    · rw [← hqueued]
      exact List.append_nil _

end Proper

namespace Reports

open KernelEqueueEvent

variable {room : ℕ} {e e' : KernelEqueueEvent} {out : List KernelEvent × Option KernelEqueueEvent}

/-- Nothing is reported but what is triggered. -/
theorem triggered (h : Reports room e out) {event : KernelEvent} (hmem : event ∈ out.1) :
    e.triggered = true := by
  by_cases hlevel : e.event.Level
  · rw [h.level hlevel] at hmem
    by_contra hidle
    rw [if_neg hidle] at hmem
    cases hmem
  · rw [(h.queue hlevel).1] at hmem
    exact triggered_of_queued (List.ne_nil_of_mem (List.mem_of_mem_take hmem))

/-- Nothing is triggered afterwards that was not. -/
theorem left_triggered (h : Reports room e out) (hleft : e' ∈ out.2)
    (htriggered : e'.triggered = true) : e.triggered = true := by
  by_cases hlevel : e.event.Level
  · rw [h.level hlevel] at hleft
    obtain rfl := Option.some.inj hleft
    exact htriggered
  · have hmem : e'.event ∈ e.queued.drop room := by
      rw [← (h.queue hlevel).2]
      refine List.mem_flatMap.2 ⟨e', Option.mem_toList.2 hleft, ?_⟩
      rw [queued_of_triggered htriggered]
      exact List.mem_cons_self
    exact triggered_of_queued (List.ne_nil_of_mem (List.mem_of_mem_drop hmem))

/-- There is room for no more than `room` notifications. -/
theorem length_le (h : Reports room e out) : out.1.length ≤ room := by
  by_cases hlevel : e.event.Level
  · rw [h.level hlevel]
    dsimp only
    split
    · rw [List.length_replicate]
    · exact Nat.zero_le room
  · rw [(h.queue hlevel).1]
    exact List.length_take_le room e.queued

/-- Where room is left, nothing is. -/
theorem drained (h : Reports room e out) (hroom : out.1.length < room) (hleft : e' ∈ out.2) :
    e'.triggered = false := by
  by_contra hne
  have htriggered := Bool.of_not_eq_false hne
  by_cases hlevel : e.event.Level
  · rw [h.level hlevel] at hroom hleft
    obtain rfl := Option.some.inj hleft
    rw [if_pos htriggered, List.length_replicate] at hroom
    exact Nat.lt_irrefl room hroom
  · obtain ⟨hreported, hrest⟩ := h.queue hlevel
    -- the whole queue has been taken
    have hlength : e.queued.length ≤ room := by
      rw [hreported, List.length_take] at hroom
      omega
    rw [List.drop_eq_nil_of_le hlength] at hrest
    have hnil := List.flatMap_eq_nil_iff.1 hrest e' (Option.mem_toList.2 hleft)
    rw [queued_of_triggered htriggered] at hnil
    cases hnil

end Reports

/-! ### The outer loop -/

section ReportAll

open KernelEqueueEvent

variable {room : ℕ} {e : KernelEqueueEvent} {rest events : List KernelEqueueEvent}

theorem reportAll_full (h : room ≤ (e.report room).1.length) :
    reportAll room (e :: rest) = ((e.report room).1, (e.report room).2.toList ++ rest) :=
  if_pos h

theorem reportAll_more (h : (e.report room).1.length < room) :
    reportAll room (e :: rest) =
      ((e.report room).1 ++ (reportAll (room - (e.report room).1.length) rest).1,
        (e.report room).2.toList ++ (reportAll (room - (e.report room).1.length) rest).2) :=
  if_neg (Nat.not_le.2 h)

/-- The induction over the outer loop: the array fills up, or the loop goes on behind an event
that has nothing more to report. -/
theorem reportAll_induction {motive : ℕ → List KernelEqueueEvent →
      List KernelEvent × List KernelEqueueEvent → Prop}
    (hproper : ∀ e ∈ events, Proper e)
    (nil : ∀ room, motive room [] ([], []))
    (full : ∀ room e rest out, Proper e → (∀ e ∈ rest, Proper e) → Reports room e out →
      out.1.length = room →
      motive room (e :: rest) (out.1, out.2.toList ++ rest))
    (more : ∀ room e rest out tail, Proper e → (∀ e ∈ rest, Proper e) → Reports room e out →
      out.1.length < room → motive (room - out.1.length) rest tail →
        motive room (e :: rest) (out.1 ++ tail.1, out.2.toList ++ tail.2)) (room : ℕ) :
    motive room events (reportAll room events) := by
  induction events generalizing room with
  | nil => exact nil room
  | cons e rest ih =>
    have he := hproper e List.mem_cons_self
    have hrest : ∀ e ∈ rest, Proper e := fun e' he' => hproper e' (List.mem_cons_of_mem _ he')
    have hreport := he.report room
    by_cases hfull : room ≤ (e.report room).1.length
    · rw [reportAll_full hfull]
      exact full room e rest _ he hrest hreport (Nat.le_antisymm hreport.length_le hfull)
    · have hmore := Nat.lt_of_not_le hfull
      rw [reportAll_more hmore]
      exact more room e rest _ _ he hrest hreport hmore (ih hrest _)

/-- An event that is left was there before. -/
theorem mem_reportAll (hproper : ∀ e ∈ events, Proper e) (room : ℕ) :
    ∀ e' ∈ (reportAll room events).2, ∃ e ∈ events, Proper e' ∧ Same e e' ∧
      e'.deadlineNs = e.deadlineNs ∧ (e'.triggered = true → e.triggered = true) := by
  refine reportAll_induction
    (motive := fun _ events out => ∀ e' ∈ out.2, ∃ e ∈ events, Proper e' ∧ Same e e' ∧
      e'.deadlineNs = e.deadlineNs ∧ (e'.triggered = true → e.triggered = true))
    hproper (fun _ => nofun) ?_ ?_ room
  · intro room e rest out he hrest hreports _ e' hmem
    rcases List.mem_append.1 hmem with hmem | hmem
    · have hleft := Option.mem_toList.1 hmem
      obtain ⟨hproper', hsame, hdeadline⟩ := hreports.left e' hleft
      exact ⟨e, List.mem_cons_self, hproper', hsame, hdeadline, hreports.left_triggered hleft⟩
    · exact ⟨e', List.mem_cons_of_mem _ hmem, hrest e' hmem, .refl e', rfl, id⟩
  · intro room e rest out tail he hrest hreports _ ih e' hmem
    rcases List.mem_append.1 hmem with hmem | hmem
    · have hleft := Option.mem_toList.1 hmem
      obtain ⟨hproper', hsame, hdeadline⟩ := hreports.left e' hleft
      exact ⟨e, List.mem_cons_self, hproper', hsame, hdeadline, hreports.left_triggered hleft⟩
    · obtain ⟨e₁, he₁, hspec⟩ := ih e' hmem
      exact ⟨e₁, List.mem_cons_of_mem _ he₁, hspec⟩

/-- Every event but a timer is left. -/
theorem reportAll_keeps (hproper : ∀ e ∈ events, Proper e) (room : ℕ) :
    ∀ e ∈ events, e.event.filter ≠ kernelEvfiltHrtimer →
      ∃ e' ∈ (reportAll room events).2, Same e e' := by
  have hleft : ∀ {room e out}, Reports room e out → e.event.filter ≠ kernelEvfiltHrtimer →
      ∃ e' ∈ out.2.toList, Same e e' := by
    intro room e out hreports htimer
    cases hout : out.2 with
    | none => exact absurd (hreports.erased hout) htimer
    | some e' => exact ⟨e', List.mem_singleton.2 rfl, (hreports.left e' hout).2.1⟩
  refine reportAll_induction
    (motive := fun _ events out => ∀ e ∈ events, e.event.filter ≠ kernelEvfiltHrtimer →
      ∃ e' ∈ out.2, Same e e')
    hproper (fun _ => nofun) ?_ ?_ room
  · intro room e rest out _ _ hreports _ e₁ he₁ htimer
    rcases List.mem_cons.1 he₁ with rfl | he₁
    · obtain ⟨e', he', hsame⟩ := hleft hreports htimer
      exact ⟨e', List.mem_append_left _ he', hsame⟩
    · exact ⟨e₁, List.mem_append_right _ he₁, .refl e₁⟩
  · intro room e rest out tail _ _ hreports _ ih e₁ he₁ htimer
    rcases List.mem_cons.1 he₁ with rfl | he₁
    · obtain ⟨e', he', hsame⟩ := hleft hreports htimer
      exact ⟨e', List.mem_append_left _ he', hsame⟩
    · obtain ⟨e', he', hsame⟩ := ih e₁ he₁ htimer
      exact ⟨e', List.mem_append_right _ he', hsame⟩

/-- Only what is triggered is reported. -/
theorem mem_reported (hproper : ∀ e ∈ events, Proper e) (room : ℕ) :
    ∀ event ∈ (reportAll room events).1, ∃ e ∈ events, e.triggered = true ∧
      event.key = e.event.key ∧ event.flags = e.event.flags := by
  refine reportAll_induction
    (motive := fun _ events out => ∀ event ∈ out.1, ∃ e ∈ events, e.triggered = true ∧
      event.key = e.event.key ∧ event.flags = e.event.flags)
    hproper (fun _ => nofun) ?_ ?_ room
  · intro room e rest out _ _ hreports _ event hmem
    exact ⟨e, List.mem_cons_self, hreports.triggered hmem, hreports.same event hmem⟩
  · intro room e rest out tail _ _ hreports _ ih event hmem
    rcases List.mem_append.1 hmem with hmem | hmem
    · exact ⟨e, List.mem_cons_self, hreports.triggered hmem, hreports.same event hmem⟩
    · obtain ⟨e₁, he₁, hspec⟩ := ih event hmem
      exact ⟨e₁, List.mem_cons_of_mem _ he₁, hspec⟩

/-- The keys of what is left. -/
theorem reportAll_keys (hproper : ∀ e ∈ events, Proper e) (room : ℕ) :
    ((reportAll room events).2.map (·.key)).Sublist (events.map (·.key)) := by
  have hleft : ∀ {room e out}, Reports room e out →
      (out.2.toList.map (·.key)).Sublist [e.key] := by
    intro room e out hreports
    cases hout : out.2 with
    | none => exact List.nil_sublist _
    | some e' =>
      have hkey : e'.key = e.key := (hreports.left e' hout).2.1.key
      exact hkey ▸ List.Sublist.refl [e'.key]
  refine reportAll_induction
    (motive := fun _ events out => (out.2.map (·.key)).Sublist (events.map (·.key)))
    hproper (fun _ => List.Sublist.refl _) ?_ ?_ room
  · intro room e rest out _ _ hreports _
    rw [List.map_append]
    exact (hleft hreports).append (List.Sublist.refl _)
  · intro room e rest out tail _ _ hreports _ ih
    rw [List.map_append]
    exact (hleft hreports).append ih

/-- Where room is left, no event is triggered any more. -/
theorem reportAll_drained (hproper : ∀ e ∈ events, Proper e) (room : ℕ) :
    (reportAll room events).1.length < room →
      ∀ e' ∈ (reportAll room events).2, e'.triggered = false := by
  refine reportAll_induction
    (motive := fun room _ out => out.1.length < room → ∀ e' ∈ out.2, e'.triggered = false)
    hproper (fun _ _ => nofun) ?_ ?_ room
  · intro room e rest out _ _ _ hfull hroom
    exact absurd hfull (Nat.ne_of_lt hroom)
  · intro room e rest out tail _ _ hreports hmore ih hroom e' hmem
    rw [List.length_append] at hroom
    rcases List.mem_append.1 hmem with hmem | hmem
    · exact hreports.drained hmore (Option.mem_toList.1 hmem)
    · exact ih (Nat.lt_sub_of_add_lt (Nat.add_comm _ _ ▸ hroom)) e' hmem

/-- What `f` gives for the events that satisfy `p`. -/
def slots {β : Type} (p : KernelEvent → Bool) (f : KernelEqueueEvent → List β)
    (events : List KernelEqueueEvent) : List β :=
  events.flatMap fun e => if p e.event then f e else []

section Slots

variable {β : Type} {p : KernelEvent → Bool} {f : KernelEqueueEvent → List β}

theorem slots_cons (e : KernelEqueueEvent) (rest : List KernelEqueueEvent) :
    slots p f (e :: rest) = (if p e.event then f e else []) ++ slots p f rest :=
  List.flatMap_cons

theorem slots_append (events rest : List KernelEqueueEvent) :
    slots p f (events ++ rest) = slots p f events ++ slots p f rest :=
  List.flatMap_append

theorem slots_toList_of_neg {o : Option KernelEqueueEvent} (h : ∀ e ∈ o, p e.event = false) :
    slots p f o.toList = [] := by
  cases o with
  | none => rfl
  | some e =>
    have hneg : ¬p e.event = true := Bool.eq_false_iff.1 (h e rfl)
    rw [Option.toList_some, slots_cons, if_neg hneg]
    rfl

theorem slots_toList_of_pos {o : Option KernelEqueueEvent} (h : ∀ e ∈ o, p e.event = true) :
    slots p f o.toList = o.toList.flatMap f := by
  cases o with
  | none => rfl
  | some e =>
    rw [Option.toList_some, slots_cons, if_pos (h e rfl)]
    rfl

end Slots

/-- A property of the key and the flags. -/
def Static (p : KernelEvent → Bool) : Prop :=
  ∀ event event' : KernelEvent, event'.key = event.key → event'.flags = event.flags →
    p event' = p event

theorem Static.same {p : KernelEvent → Bool} (hp : Static p) {e e' : KernelEqueueEvent}
    (h : Same e e') : p e'.event = p e.event :=
  hp e.event e'.event h.key h.flags

/-- The inner loop loses nothing and reports nothing twice. -/
theorem Reports.conserves {p : KernelEvent → Bool} (hp : Static p)
    {out : List KernelEvent × Option KernelEqueueEvent} (h : Reports room e out)
    (hlevel : p e.event = true → ¬e.event.Level) :
    out.1.filter p ++ slots p queued out.2.toList = if p e.event then e.queued else [] := by
  have hleft : ∀ e' ∈ out.2, p e'.event = p e.event := fun e' he' => hp.same (h.left e' he').2.1
  have hreported : ∀ event ∈ out.1, p event = p e.event := fun event hevent =>
    hp e.event event (h.same event hevent).1 (h.same event hevent).2
  cases he : p e.event with
  | true =>
    obtain ⟨htake, hdrop⟩ := h.queue (hlevel he)
    rw [if_pos rfl, slots_toList_of_pos fun e' he' => (hleft e' he').trans he, hdrop,
      List.filter_eq_self.2 fun event hevent => (hreported event hevent).trans he, htake]
    exact List.take_append_drop room e.queued
  | false =>
    rw [slots_toList_of_neg fun e' he' => (hleft e' he').trans he, List.filter_eq_nil_iff.2]
    · rfl
    · intro event hevent htrue
      cases htrue.symm.trans ((hreported event hevent).trans he)

/-- **Nothing is lost and nothing is reported twice**, of the events that are not
level-triggered. -/
theorem reportAll_conserves {p : KernelEvent → Bool} (hp : Static p)
    (hproper : ∀ e ∈ events, Proper e) (room : ℕ) :
    (∀ e ∈ events, p e.event = true → ¬e.event.Level) →
      (reportAll room events).1.filter p ++ slots p queued (reportAll room events).2 =
        slots p queued events := by
  refine reportAll_induction
    (motive := fun _ events out => (∀ e ∈ events, p e.event = true → ¬e.event.Level) →
      out.1.filter p ++ slots p queued out.2 = slots p queued events)
    hproper (fun _ _ => rfl) ?_ ?_ room
  · intro room e rest out _ _ hreports _ hlevel
    have he := hreports.conserves hp (hlevel e List.mem_cons_self)
    rw [slots_append, ← List.append_assoc, he, slots_cons]
  · intro room e rest out tail _ _ hreports hmore ih hlevel
    have he := hreports.conserves hp (hlevel e List.mem_cons_self)
    have hrest := ih fun e' he' => hlevel e' (List.mem_cons_of_mem _ he')
    -- the event has nothing left to report, so what follows is reported in order
    have hdrained : slots p queued out.2.toList = [] := by
      refine List.flatMap_eq_nil_iff.2 fun e' he' => ?_
      rw [queued_of_not_triggered (hreports.drained hmore (Option.mem_toList.1 he')), ite_self]
    rw [hdrained, List.append_nil] at he
    rw [slots_append, hdrained, List.nil_append, List.filter_append, List.append_assoc, hrest, he,
      slots_cons]

/-- What belongs to an event stays with it; only timers go. -/
theorem reportAll_slots {β : Type} {p : KernelEvent → Bool} {f : KernelEqueueEvent → List β}
    (hp : Static p) (hf : ∀ e e', Same e e' → f e' = f e)
    (htimer : ∀ e, Proper e → e.event.filter = kernelEvfiltHrtimer → f e = [])
    (hproper : ∀ e ∈ events, Proper e) (room : ℕ) :
    slots p f (reportAll room events).2 = slots p f events := by
  have hleft : ∀ {room e out}, Proper e → Reports room e out →
      slots p f out.2.toList = if p e.event then f e else [] := by
    intro room e out he hreports
    cases hout : out.2 with
    | none =>
      rw [htimer e he (hreports.erased hout), ite_self]
      rfl
    | some e' =>
      have hsame := (hreports.left e' hout).2.1
      rw [Option.toList_some, slots_cons, hp.same hsame, hf e e' hsame]
      exact List.append_nil _
  refine reportAll_induction (motive := fun _ events out => slots p f out.2 = slots p f events)
    hproper (fun _ => rfl) ?_ ?_ room
  · intro room e rest out he _ hreports _
    rw [slots_append, hleft he hreports, slots_cons]
  · intro room e rest out tail he _ hreports _ ih
    rw [slots_append, hleft he hreports, ih, slots_cons]

/-- A timer is reported, or is left. -/
theorem reportAll_timers {key : Key} (hkey : key.2 = kernelEvfiltHrtimer)
    (hproper : ∀ e ∈ events, Proper e) (room : ℕ) :
    ((reportAll room events).1.filter (·.key = key)).length +
        (slots (·.key = key) (fun e => [e.key]) (reportAll room events).2).length ≤
      (slots (·.key = key) (fun e => [e.key]) events).length := by
  have hone : ∀ {room e out}, Reports room e out →
      (out.1.filter (·.key = key)).length +
          (slots (·.key = key) (fun e => [e.key]) out.2.toList).length ≤
        (if decide (e.event.key = key) then [e.key] else []).length := by
    intro room e out hreports
    by_cases he : e.event.key = key
    · have htimer : e.event.filter = kernelEvfiltHrtimer :=
        (congrArg Prod.snd he).trans hkey
      rw [if_pos (decide_eq_true he)]
      have hleft : (slots (·.key = key) (fun e => [e.key]) out.2.toList).length =
          out.2.toList.length := by
        rw [slots_toList_of_pos fun e' he' =>
          decide_eq_true ((hreports.left e' he').2.1.key.trans he)]
        cases out.2 with
        | none => rfl
        | some e' => rfl
      have hlength := List.length_filter_le (fun event => decide (event.key = key)) out.1
      have hle := hreports.timer htimer
      rw [hleft, List.length_singleton]
      omega
    · rw [if_neg (by simpa using he), slots_toList_of_neg fun e' he' =>
        decide_eq_false fun hsame => he ((hreports.left e' he').2.1.key.symm.trans hsame),
        List.filter_eq_nil_iff.2]
      · exact le_rfl
      · intro event hevent hsame
        exact he ((hreports.same event hevent).1.symm.trans (of_decide_eq_true hsame))
  refine reportAll_induction
    (motive := fun _ events out =>
      (out.1.filter (·.key = key)).length +
          (slots (·.key = key) (fun e => [e.key]) out.2).length ≤
        (slots (·.key = key) (fun e => [e.key]) events).length)
    hproper (fun _ => le_rfl) ?_ ?_ room
  · intro room e rest out _ _ hreports _
    have hle := hone hreports
    dsimp only
    rw [slots_append, slots_cons, List.length_append, List.length_append]
    omega
  · intro room e rest out tail _ _ hreports _ ih
    have hle := hone hreports
    rw [slots_append, slots_cons, List.filter_append, List.length_append, List.length_append,
      List.length_append]
    omega

/-- The condition on the room, behind the first event. -/
theorem Fits.tail {e : KernelEqueueEvent} {reported : List KernelEvent}
    (h : Fits room (e :: rest)) (hreported : reported = e.queued) (hle : reported.length < room) :
    Fits (room - reported.length) rest := by
  intro before e' after hsplit htriggered hlevel
  have hfits := h (e :: before) e' after (by rw [hsplit, List.cons_append]) htriggered hlevel
  rw [List.flatMap_cons, List.length_append, ← hreported] at hfits
  omega

/-- **The queues of the events are reported one after the other**, as long as no level-triggered
event finds room for more than one notification. -/
theorem reportAll_eq (hproper : ∀ e ∈ events, Proper e) (room : ℕ) :
    Fits room events → (reportAll room events).1 = (events.flatMap (·.queued)).take room := by
  have hone : ∀ {room e rest out}, Proper e → Reports room e out → Fits room (e :: rest) →
      out.1 = e.queued.take room := by
    intro room e rest out he hreports hfits
    by_cases hlevel : e.event.Level
    · rw [hreports.level hlevel]
      cases htriggered : e.triggered with
      | false =>
        rw [queued_of_not_triggered htriggered, List.take_nil]
        rfl
      | true =>
        -- there is one place at most
        have hroom : room ≤ 1 := hfits [] e rest rfl htriggered hlevel
        have hpending := he.single (.inl (he.kind.trigger_of_level hlevel))
        rw [queued_of_triggered htriggered, hpending]
        rcases Nat.le_one_iff_eq_zero_or_eq_one.1 hroom with rfl | rfl
        · rfl
        · rfl
    · exact (hreports.queue hlevel).1
  refine reportAll_induction
    (motive := fun room events out => Fits room events →
      out.1 = (events.flatMap (·.queued)).take room)
    hproper (fun room _ => List.take_nil.symm) ?_ ?_ room
  · intro room e rest out he _ hreports hfull hfits
    have hreported := hone he hreports hfits
    have hlength : room ≤ e.queued.length := by
      rw [hreported, List.length_take] at hfull
      omega
    rw [List.flatMap_cons, List.take_append_of_le_length hlength]
    exact hreported
  · intro room e rest out tail he _ hreports hmore ih hfits
    have hreported := hone he hreports hfits
    have hlength : e.queued.length < room := by
      rw [hreported, List.length_take] at hmore
      omega
    have hall : out.1 = e.queued := by
      rw [hreported]
      exact List.take_of_length_le (Nat.le_of_lt hlength)
    rw [List.flatMap_cons, List.take_append, ih (hfits.tail hall hmore), hall,
      List.take_of_length_le (Nat.le_of_lt hlength)]

end ReportAll

end Prosperismo.EventQueue
