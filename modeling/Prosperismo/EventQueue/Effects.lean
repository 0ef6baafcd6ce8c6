import Mathlib.Data.List.Nodup
import Prosperismo.EventQueue.Reports

/-!
# What the calls do to the events

An action does one of a few things to the list of events (`Effect`): it is refused, adds, updates,
triggers or deletes one event, reports what is triggered, or closes the queue. Everything else is
read off these: the invariant (`Sound.step`), and for each event what goes in and what comes out
(`Effect.ampr`, `Effect.edge`, `Effect.timers`, `Effect.callbacks`).
-/

namespace Prosperismo.EventQueue

open KernelEqueueEvent

variable {τ : Type}

/-! ### What an action tells -/

/-- An event that is cleared when it is reported. -/
def KernelEvent.Edge (event : KernelEvent) : Prop :=
  event.flags &&& evClear ≠ 0

instance (event : KernelEvent) : Decidable event.Edge :=
  inferInstanceAs (Decidable (_ ≠ _))

/-- The delete callback of an event, if it has one. -/
def callback (e : KernelEqueueEvent) : List KernelFilter :=
  if e.filter.deleteEventFunc.isSome then [e.filter] else []

namespace Action

/-- The events that are reported. -/
def reported (a : Action τ) : List KernelEvent :=
  match a.collects with
  | some (_, _, .ok events) => events
  | _ => []

/-- The reports of one event. -/
def reports (key : Key) (a : Action τ) : List KernelEvent :=
  a.reported.filter (·.key = key)

/-- The data of a trigger of one event. -/
def triggers (key : Key) : Action τ → List (BitVec 64)
  | .triggerEvent trigger (.ok ()) => if trigger.key = key then [trigger.triggerData] else []
  | _ => []

/-- The deadline with which a timer is armed. -/
def arms (ident : BitVec 64) : Action τ → Option ℕ
  | .addEvent event (.ok ()) _ =>
    if event.key = (ident, kernelEvfiltHrtimer) then some event.deadlineNs else none
  | _ => none

/-- The callback that an event brings with it when it is registered. -/
def created (key : Key) : Action τ → List KernelFilter
  | .addEvent event _ true => if event.key = key then callback event else []
  | _ => []

/-- The delete callbacks that run for one event. -/
def deleted (key : Key) : Action τ → List KernelFilter
  | .deleteEvent _ _ callbacks => (callbacks.filter (·.key = key)).map (·.filter)
  | .close callbacks => (callbacks.filter (·.key = key)).map (·.filter)
  | _ => []

/-- The event is removed before it is reported. -/
def Removes (key : Key) : Action τ → Prop
  | .deleteEvent key' (.ok ()) _ => key' = key
  | .close _ => True
  | _ => False

/-- The action yields `KERNEL_ERROR_EBADF`, if it yields anything. -/
def Ebadf : Action τ → Prop
  | .addEvent _ result _ => result = .error .ebadf
  | .triggerEvent _ result => result = .error .ebadf
  | .deleteEvent _ result _ => result = .error .ebadf
  | .getTriggeredEvents _ _ result => result = .error .ebadf
  | .waitForEvents _ _ _ result => result = .error .ebadf
  | .resume _ _ _ result => result = .error .ebadf
  | .close _ => True

/-- The action does nothing. -/
def Refused : Action τ → Prop
  | .addEvent _ result isNew => (∃ error, result = .error error) ∧ isNew = false
  | .triggerEvent _ result => ∃ error, result = .error error
  | .deleteEvent _ result callbacks => (∃ error, result = .error error) ∧ callbacks = []
  | .getTriggeredEvents _ _ result => ∃ error, result = .error error
  | .waitForEvents _ _ _ result => ∃ error, result = .error error
  | .resume _ _ _ result => ∃ error, result = .error error
  | .close callbacks => callbacks = []

end Action

/-- The deadline with which a timer has been armed last. -/
def lastArmed (ident : BitVec 64) (as : List (Action τ)) : Option ℕ :=
  (as.filterMap (·.arms ident)).getLast?

/-- The notifications of one event that are not reported yet. -/
def State.queuedAt (s : State τ) (key : Key) : List KernelEvent :=
  slots (·.key = key) queued s.queue.events

/-- The key of an event, if that is there. -/
def State.present (s : State τ) (key : Key) : List Key :=
  slots (·.key = key) (fun e => [e.key]) s.queue.events

/-- The delete callback of one event, while it has not run. -/
def State.attached (s : State τ) (key : Key) : List KernelFilter :=
  slots (·.key = key) callback s.queue.events

/-! ### What an action does to the events -/

/-- Between two steps. -/
structure Sound (s : State τ) : Prop where
  proper : ∀ e ∈ s.queue.events, Proper e
  nodup : (s.queue.events.map (·.key)).Nodup
  closed : s.queue.closed = true → s.queue.events = []

/-- No event has its time still to come when it is triggered. -/
def Due (s : State τ) : Prop :=
  ∀ e ∈ s.queue.events, e.triggered = true → e.deadlineNs ≤ s.clock

/-- `Effect events a events'`: what an action does to the list of events. -/
inductive Effect : List KernelEqueueEvent → Action τ → List KernelEqueueEvent → Prop
  | refused {events : List KernelEqueueEvent} {a : Action τ} (hrefused : a.Refused) :
      Effect events a events
  | added {events : List KernelEqueueEvent} {event : KernelEqueueEvent} (hevent : Proper event)
      (hidle : event.triggered = true → event.event.flags = 0 ∧ event.deadlineNs = 0)
      (hnew : ∀ e ∈ events, e.key ≠ event.key) :
      Effect events (.addEvent event (.ok ()) true) (events ++ [event])
  | updated {before after : List KernelEqueueEvent} {e event : KernelEqueueEvent}
      (hevent : Proper event) (hkey : e.key = event.key) :
      Effect (before ++ e :: after) (.addEvent event (.ok ()) false)
        (before ++ e.update event :: after)
  | triggered {before after : List KernelEqueueEvent} {e : KernelEqueueEvent} {trigger : Trigger}
      (hkey : e.key = trigger.key) :
      Effect (before ++ e :: after) (.triggerEvent trigger (.ok ()))
        (before ++ e.trigger trigger.triggerData trigger.tsc :: after)
  | deleted {before after : List KernelEqueueEvent} {e : KernelEqueueEvent} {key : Key}
      (hkey : e.key = key) :
      Effect (before ++ e :: after) (.deleteEvent key (.ok ()) (KernelEqueue.callbacks [e]))
        (before ++ after)
  | collected {events : List KernelEqueueEvent} {a : Action τ} {num nowNs : ℕ}
      (hcollects : a.collects =
        some (num, nowNs, .ok (reportAll num (events.map (·.expire nowNs))).1)) :
      Effect events a (reportAll num (events.map (·.expire nowNs))).2
  | closed {events : List KernelEqueueEvent} :
      Effect events (.close (KernelEqueue.callbacks events)) []

/-- The events of a list with one in its middle. -/
theorem mem_middle {before after : List KernelEqueueEvent} {e x : KernelEqueueEvent} :
    x ∈ before ++ e :: after ↔ x = e ∨ x ∈ before ++ after := by
  rw [List.mem_append, List.mem_cons, List.mem_append, or_left_comm]

theorem mem_self {before after : List KernelEqueueEvent} {e : KernelEqueueEvent} :
    e ∈ before ++ e :: after :=
  mem_middle.2 (.inl rfl)

/-- The event that `std::find_if` finds divides the list. -/
theorem find_split {events : List KernelEqueueEvent} {key : Key}
    (h : (events.find? fun e => e.key = key).isSome = true) :
    ∃ before e after, events = before ++ e :: after ∧ e.key = key ∧
      (events.find? fun e => e.key = key) = some e ∧
      (∀ f, modifyFirst (·.key = key) f events = before ++ f e :: after) ∧
      (events.eraseP fun e => e.key = key) = before ++ after := by
  induction events with
  | nil => cases h
  | cons first rest ih =>
    by_cases hkey : first.key = key
    · refine ⟨[], first, rest, rfl, hkey, ?_, fun f => ?_, ?_⟩
      · exact List.find?_cons_of_pos (decide_eq_true hkey)
      · exact if_pos (decide_eq_true hkey)
      · exact List.eraseP_cons_of_pos (decide_eq_true hkey)
    · have hneg : ¬decide (first.key = key) = true := by simpa using hkey
      have hskip : ((first :: rest).find? fun e => e.key = key) = rest.find? fun e => e.key = key :=
        List.find?_cons_of_neg hneg
      rw [hskip] at h ⊢
      obtain ⟨before, e, after, rfl, hfound, hfind, hmodify, herase⟩ := ih h
      refine ⟨first :: before, e, after, rfl, hfound, hfind, fun f => ?_, ?_⟩
      · exact (if_neg hneg).trans (congrArg (first :: ·) (hmodify f))
      · have hskip' : ((first :: (before ++ e :: after)).eraseP fun e => e.key = key) =
            first :: ((before ++ e :: after).eraseP fun e => e.key = key) :=
          List.eraseP_cons_of_neg hneg
        rw [hskip', herase, List.cons_append]

theorem find_none {events : List KernelEqueueEvent} {key : Key}
    (h : ¬(events.find? fun e => e.key = key).isSome = true) : ∀ e ∈ events, e.key ≠ key := by
  intro e he hkey
  have hnone := Option.not_isSome_iff_eq_none.1 h
  exact List.find?_eq_none.1 hnone e he (decide_eq_true hkey)

/-- An event that is triggered to begin with is one of the video output. -/
theorem Registration.idle {registration : Registration} {event : KernelEqueueEvent}
    (h : registration.event = some event) (htriggered : event.triggered = true) :
    event.event.flags = 0 ∧ event.deadlineNs = 0 := by
  cases registration with
  | kernelAddUserEvent => obtain rfl := Option.some.inj h; cases htriggered
  | kernelAddUserEventEdge => obtain rfl := Option.some.inj h; cases htriggered
  | kernelAddHRTimerEvent =>
    simp only [Registration.event, EventQueue.kernelAddHRTimerEvent] at h
    split at h
    · cases h
    · obtain rfl := Option.some.inj h
      cases htriggered
  | kernelAddAmprEvent => obtain rfl := Option.some.inj h; cases htriggered
  | registerVideoOutEvent => obtain rfl := Option.some.inj h; exact ⟨rfl, rfl⟩
  | addEqEvent => obtain rfl := Option.some.inj h; cases htriggered

/-- `GetTriggeredEvents` reports, or is refused. -/
theorem getTriggeredEvents_effect (q : KernelEqueue) {num nowNs : ℕ} {a : Action τ}
    (hcollects : a.collects = some (num, nowNs, (q.getTriggeredEvents num nowNs).1))
    (hrefused : (∃ error, (q.getTriggeredEvents num nowNs).1 = .error error) → a.Refused) :
    Effect q.events a (q.getTriggeredEvents num nowNs).2.events := by
  unfold KernelEqueue.getTriggeredEvents at hcollects hrefused ⊢
  cases hclosed : q.closed with
  | true =>
    rw [hclosed] at hrefused
    exact .refused (hrefused ⟨.ebadf, rfl⟩)
  | false =>
    rw [hclosed] at hcollects
    exact .collected hcollects

/-- Every step has one of the effects. -/
theorem Step.effect [DecidableEq τ] {s s' : State τ} {a : Action τ} (hstep : Step s a s') :
    Effect s.queue.events a s'.queue.events := by
  cases hstep with
  | @addEvent registration event hevent =>
    have hproper := Registration.proper hevent
    unfold KernelEqueue.addEvent
    cases hclosed : s.queue.closed with
    | true => exact .refused ⟨⟨.ebadf, rfl⟩, rfl⟩
    | false =>
      by_cases hfind : (s.queue.find event.key).isSome
      · obtain ⟨before, e, after, hsplit, hkey, hfound, hmodify, -⟩ := find_split hfind
        have hold : (s.queue.find event.key).isNone = false := by
          rw [show s.queue.find event.key = some e from hfound]
          rfl
        rw [hold]
        simp only [Bool.false_eq_true, if_false, hfind, if_true, Bool.and_false]
        rw [hmodify, hsplit]
        exact .updated hproper hkey
      · have hnew : (s.queue.find event.key).isNone = true := by
          rw [Option.isNone_iff_eq_none]
          exact Option.not_isSome_iff_eq_none.1 hfind
        rw [hnew]
        simp only [Bool.false_eq_true, if_false, hfind]
        exact .added hproper (Registration.idle hevent) (find_none hfind)
  | @triggerEvent trigger =>
    unfold KernelEqueue.triggerEvent
    cases hclosed : s.queue.closed with
    | true => exact .refused ⟨.ebadf, rfl⟩
    | false =>
      by_cases hfind : (s.queue.find trigger.key).isSome
      · obtain ⟨before, e, after, hsplit, hkey, -, hmodify, -⟩ := find_split hfind
        simp only [Bool.false_eq_true, if_false, hfind, if_true]
        rw [hmodify, hsplit]
        exact .triggered hkey
      · simp only [Bool.false_eq_true, if_false, hfind]
        exact .refused ⟨.enoent, rfl⟩
  | @deleteEvent key =>
    unfold KernelEqueue.deleteEvent
    cases hclosed : s.queue.closed with
    | true => exact .refused ⟨⟨.ebadf, rfl⟩, rfl⟩
    | false =>
      by_cases hfind : (s.queue.find key).isSome
      · obtain ⟨before, e, after, hsplit, hkey, hfound, -, herase⟩ := find_split hfind
        simp only [Bool.false_eq_true, if_false, hfind, if_true]
        rw [show s.queue.find key = some e from hfound, herase, hsplit]
        exact .deleted hkey
      · simp only [Bool.false_eq_true, if_false, hfind]
        exact .refused ⟨⟨.enoent, rfl⟩, rfl⟩
  | getTriggeredEvents => exact getTriggeredEvents_effect s.queue rfl id
  | waitForEvents => exact getTriggeredEvents_effect s.queue rfl id
  | resume => exact getTriggeredEvents_effect s.queue rfl id
  | close =>
    unfold KernelEqueue.close
    cases hclosed : s.queue.closed with
    | true => exact .refused rfl
    | false => exact .closed

/-! ### The invariant -/

theorem proper_expire {events : List KernelEqueueEvent} (h : ∀ e ∈ events, Proper e) (nowNs : ℕ) :
    ∀ e ∈ events.map (·.expire nowNs), Proper e := by
  intro e he
  obtain ⟨e₀, he₀, rfl⟩ := List.mem_map.1 he
  exact (h e₀ he₀).expire nowNs

theorem map_key_expire (nowNs : ℕ) (events : List KernelEqueueEvent) :
    (events.map (·.expire nowNs)).map (·.key) = events.map (·.key) := by
  rw [List.map_map]
  exact List.map_congr_left fun e _ => (same_expire nowNs e).key

/-- An event that is changed in place keeps its key. -/
theorem map_key_change {before after : List KernelEqueueEvent} {e e' : KernelEqueueEvent}
    (h : Same e e') :
    (before ++ e' :: after).map (·.key) = (before ++ e :: after).map (·.key) := by
  have hkey : e'.key = e.key := h.key
  rw [List.map_append, List.map_append, List.map_cons, List.map_cons, hkey]

/-- No trigger is one of a timer. -/
theorem Trigger.key_ne_timer (trigger : Trigger) : trigger.key.2 ≠ kernelEvfiltHrtimer := by
  cases trigger with
  | kernelTriggerUserEvent => exact (by decide : kernelEvfiltUser ≠ kernelEvfiltHrtimer)
  | triggerVideoOutEvents => exact (by decide : kernelEvfiltVideoOut ≠ kernelEvfiltHrtimer)
  | triggerEopEvent => exact (by decide : kernelEvfiltGraphics ≠ kernelEvfiltHrtimer)

theorem ne_timer {e : KernelEqueueEvent} {trigger : Trigger} (h : e.key = trigger.key) :
    e.event.filter ≠ kernelEvfiltHrtimer := by
  have hfilter : e.event.filter = trigger.key.2 := congrArg Prod.snd h
  rw [hfilter]
  exact trigger.key_ne_timer

namespace Effect

variable {events events' : List KernelEqueueEvent} {a : Action τ}

/-- Every event stays proper. -/
theorem proper (h : Effect events a events') (hproper : ∀ e ∈ events, Proper e) :
    ∀ e ∈ events', Proper e := by
  have hchange : ∀ {before after : List KernelEqueueEvent} {e e' : KernelEqueueEvent},
      (∀ e₁ ∈ before ++ e :: after, Proper e₁) → Proper e' →
        ∀ e₁ ∈ before ++ e' :: after, Proper e₁ := by
    intro before after e e' hall he' e₁ he₁
    rcases mem_middle.1 he₁ with rfl | he₁
    · exact he'
    · exact hall e₁ (mem_middle.2 (.inr he₁))
  cases h with
  | refused => exact hproper
  | added hevent =>
    intro e he
    rcases List.mem_append.1 he with he | he
    · exact hproper e he
    · obtain rfl := List.mem_singleton.1 he
      exact hevent
  | updated hevent hkey => exact hchange hproper ((hproper _ mem_self).update hevent hkey).1
  | triggered hkey => exact hchange hproper ((hproper _ mem_self).trigger (ne_timer hkey) _ _).1
  | deleted => exact fun e he => hproper e (mem_middle.2 (.inr he))
  | collected =>
    intro e he
    obtain ⟨_, _, he', -⟩ := mem_reportAll (proper_expire hproper _) _ e he
    exact he'
  | closed => exact nofun

/-- The keys stay distinct. -/
theorem nodup (h : Effect events a events') (hproper : ∀ e ∈ events, Proper e)
    (hnodup : (events.map (·.key)).Nodup) : (events'.map (·.key)).Nodup := by
  cases h with
  | refused => exact hnodup
  | @added _ event _ _ hnew =>
    rw [List.map_append]
    refine hnodup.append (List.nodup_singleton _) fun key hkey hkey' => ?_
    obtain ⟨e, he, rfl⟩ := List.mem_map.1 hkey
    exact hnew e he (List.mem_singleton.1 hkey')
  | updated hevent hkey =>
    rwa [map_key_change ((hproper _ mem_self).update hevent hkey).2]
  | triggered hkey =>
    rwa [map_key_change ((hproper _ mem_self).trigger (ne_timer hkey) _ _).2.1]
  | @deleted before after e key hkey =>
    have hsub : (before ++ after).Sublist (before ++ e :: after) :=
      (List.Sublist.refl before).append (List.sublist_cons_self e after)
    exact hnodup.sublist (hsub.map _)
  | @collected _ _ num nowNs =>
    have hkeys := reportAll_keys (proper_expire hproper nowNs) num
    rw [map_key_expire] at hkeys
    exact hnodup.sublist hkeys
  | closed => exact List.nodup_nil

end Effect

/-- A closed queue is empty, and refuses everything. -/
theorem Step.closed [DecidableEq τ] {s s' : State τ} {a : Action τ} (hstep : Step s a s')
    (hclosed : s.queue.closed = true) : s'.queue = s.queue ∧ a.Ebadf ∧ a.Refused := by
  cases hstep with
  | addEvent =>
    unfold KernelEqueue.addEvent
    rw [hclosed]
    exact ⟨rfl, rfl, ⟨.ebadf, rfl⟩, rfl⟩
  | triggerEvent =>
    unfold KernelEqueue.triggerEvent
    rw [hclosed]
    exact ⟨rfl, rfl, .ebadf, rfl⟩
  | deleteEvent =>
    unfold KernelEqueue.deleteEvent
    rw [hclosed]
    exact ⟨rfl, rfl, ⟨.ebadf, rfl⟩, rfl⟩
  | getTriggeredEvents =>
    unfold KernelEqueue.getTriggeredEvents
    rw [hclosed]
    exact ⟨rfl, rfl, .ebadf, rfl⟩
  | waitForEvents =>
    unfold KernelEqueue.getTriggeredEvents
    rw [hclosed]
    exact ⟨rfl, rfl, .ebadf, rfl⟩
  | resume =>
    unfold KernelEqueue.getTriggeredEvents
    rw [hclosed]
    exact ⟨rfl, rfl, .ebadf, rfl⟩
  | close =>
    unfold KernelEqueue.close
    rw [hclosed]
    exact ⟨rfl, trivial, rfl⟩

/-- The queue is closed by `Close` only. -/
theorem Step.closes [DecidableEq τ] {s s' : State τ} {a : Action τ} (hstep : Step s a s')
    (hopen : s.queue.closed = false) :
    s'.queue.closed = true ∧ s'.queue.events = [] ∨ s'.queue.closed = false := by
  have hget : ∀ num nowNs, (s.queue.getTriggeredEvents num nowNs).2.closed = false := by
    intro num nowNs
    unfold KernelEqueue.getTriggeredEvents
    simp [hopen]
  cases hstep with
  | @addEvent _ event =>
    refine .inr ?_
    unfold KernelEqueue.addEvent
    by_cases hfind : (s.queue.find event.key).isSome
    · simp [hopen, hfind]
    · simp [hopen, hfind]
  | triggerEvent trigger =>
    refine .inr ?_
    unfold KernelEqueue.triggerEvent
    by_cases hfind : (s.queue.find trigger.key).isSome
    · simp [hopen, hfind]
    · simp [hopen, hfind]
  | deleteEvent key =>
    refine .inr ?_
    unfold KernelEqueue.deleteEvent
    by_cases hfind : (s.queue.find key).isSome
    · simp [hopen, hfind]
    · simp [hopen, hfind]
  | getTriggeredEvents => exact .inr (hget _ _)
  | waitForEvents => exact .inr (hget _ _)
  | resume => exact .inr (hget _ _)
  | close =>
    unfold KernelEqueue.close
    rw [hopen]
    exact .inl ⟨rfl, rfl⟩

namespace Sound

theorem new : Sound (State.new : State τ) :=
  ⟨nofun, List.nodup_nil, nofun⟩

/-- **Step lemma.** -/
theorem step [DecidableEq τ] {s s' : State τ} {a : Action τ} (h : Sound s) (hstep : Step s a s') :
    Sound s' where
  proper := hstep.effect.proper h.proper
  nodup := hstep.effect.nodup h.proper h.nodup
  closed := by
    intro hclosed'
    cases hclosed : s.queue.closed with
    | true =>
      rw [(hstep.closed hclosed).1]
      exact h.closed hclosed
    | false =>
      rcases hstep.closes hclosed with ⟨-, hempty⟩ | hopen
      · exact hempty
      · cases hclosed'.symm.trans hopen

/-- **Run lemma.** -/
theorem run [DecidableEq τ] {s s' : State τ} {as : List (Action τ)} (h : Sound s)
    (hrun : Run Step s as s') : Sound s' :=
  hrun.invariant h fun _ _ _ hsound hstep => hsound.step hstep

end Sound

/-! ### What is conserved -/

section Slots

variable {β : Type} {p : KernelEvent → Bool} {f : KernelEqueueEvent → List β}
  {before after : List KernelEqueueEvent} {e e' : KernelEqueueEvent}

/-- A change of another event changes nothing. -/
theorem slots_other (hp : Static p) (h : Same e e') (hother : p e.event = false) :
    slots p f (before ++ e' :: after) = slots p f (before ++ e :: after) := by
  have hneg : ¬p e.event = true := Bool.eq_false_iff.1 hother
  have hneg' : ¬p e'.event = true := hp.same h ▸ hneg
  rw [slots_append, slots_append, slots_cons, slots_cons, if_neg hneg, if_neg hneg']

/-- There is no other event with the key. -/
theorem others_ne (hnodup : ((before ++ e :: after).map (·.key)).Nodup) :
    ∀ x ∈ before ++ after, x.key ≠ e.key := by
  rw [List.map_append, List.map_cons] at hnodup
  obtain ⟨hnot, -⟩ := List.nodup_cons.1 (List.nodup_middle.1 hnodup)
  rw [← List.map_append] at hnot
  exact fun x hx hkey => hnot (hkey ▸ List.mem_map.2 ⟨x, hx, rfl⟩)

theorem slots_absent {events : List KernelEqueueEvent} {key : Key}
    (hp : ∀ event, p event = true → event.key = key) (h : ∀ x ∈ events, x.key ≠ key) :
    slots p f events = [] :=
  List.flatMap_eq_nil_iff.2 fun x hx => if_neg fun htrue => h x hx (hp x.event htrue)

theorem slots_self (hnodup : ((before ++ e :: after).map (·.key)).Nodup)
    (hp : ∀ event, p event = true → event.key = e.key) :
    slots p f (before ++ e :: after) = if p e.event then f e else [] := by
  have hothers := others_ne hnodup
  have hbefore : slots p f before = [] :=
    slots_absent hp fun x hx => hothers x (List.mem_append_left _ hx)
  have hafter : slots p f after = [] :=
    slots_absent hp fun x hx => hothers x (List.mem_append_right _ hx)
  rw [slots_append, slots_cons, hbefore, hafter, List.append_nil, List.nil_append]

/-- A change of one event, where things are counted. -/
theorem slots_change_le (hp : Static p) (h : Same e e') {n : ℕ}
    (hle : p e.event = true → (f e').length ≤ n + (f e).length) :
    (slots p f (before ++ e' :: after)).length ≤
      n + (slots p f (before ++ e :: after)).length := by
  rw [slots_append, slots_append, slots_cons, slots_cons, hp.same h, List.length_append,
    List.length_append, List.length_append, List.length_append]
  by_cases he : p e.event = true
  · have := hle he
    rw [if_pos he, if_pos he]
    omega
  · rw [if_neg he, if_neg he]
    omega

/-- The clock changes no event but timers, and these not in what they are. -/
theorem slots_expire (hp : Static p) {events : List KernelEqueueEvent} (nowNs : ℕ)
    (hf : ∀ e ∈ events, p e.event = true → f (e.expire nowNs) = f e) :
    slots p f (events.map (·.expire nowNs)) = slots p f events := by
  unfold slots
  rw [List.flatMap_map]
  refine List.flatMap_congr fun e he => ?_
  rw [hp.same (same_expire nowNs e)]
  split
  · next htrue => exact hf e he htrue
  · rfl

end Slots

/-- The key is static. -/
theorem static_key (key : Key) : Static fun event => event.key = key :=
  fun _ _ hkey _ => by simp only [hkey]

/-- The events that are counted as edge-triggered. -/
theorem static_edge (key : Key) : Static fun event => event.key = key ∧ event.Edge :=
  fun _ _ hkey hflags => decide_eq_decide.2 (by unfold KernelEvent.Edge; rw [hkey, hflags])

namespace Action.Refused

variable {a : Action τ} {key : Key}

theorem reported (h : a.Refused) : a.reported = [] := by
  cases a with
  | addEvent => rfl
  | triggerEvent => rfl
  | deleteEvent => rfl
  | getTriggeredEvents => obtain ⟨error, rfl⟩ := h; rfl
  | waitForEvents => obtain ⟨error, rfl⟩ := h; rfl
  | resume => obtain ⟨error, rfl⟩ := h; rfl
  | close => rfl

theorem reports (h : a.Refused) : a.reports key = [] := by
  unfold Action.reports
  rw [h.reported]
  rfl

theorem triggers (h : a.Refused) : a.triggers key = [] := by
  cases a with
  | triggerEvent => obtain ⟨error, rfl⟩ := h; rfl
  | _ => rfl

theorem created (h : a.Refused) : a.created key = [] := by
  cases a with
  | addEvent => obtain ⟨⟨error, rfl⟩, rfl⟩ := h; rfl
  | _ => rfl

theorem deleted (h : a.Refused) : a.deleted key = [] := by
  cases a with
  | deleteEvent => obtain ⟨-, rfl⟩ := h; rfl
  | close => cases h; rfl
  | _ => rfl

theorem arms (h : a.Refused) {ident : BitVec 64} : a.arms ident = none := by
  cases a with
  | addEvent => obtain ⟨⟨error, rfl⟩, rfl⟩ := h; rfl
  | _ => rfl

end Action.Refused

/-- An action that collects events does nothing else. -/
theorem Action.of_collects {a : Action τ} {num nowNs : ℕ}
    {result : Except KernelError (List KernelEvent)}
    (h : a.collects = some (num, nowNs, result)) (key : Key) :
    a.triggers key = [] ∧ a.created key = [] ∧ a.deleted key = [] ∧ a.arms key.1 = none := by
  cases a with
  | addEvent => cases h
  | triggerEvent => cases h
  | deleteEvent => cases h
  | getTriggeredEvents => exact ⟨rfl, rfl, rfl, rfl⟩
  | waitForEvents => exact ⟨rfl, rfl, rfl, rfl⟩
  | resume => exact ⟨rfl, rfl, rfl, rfl⟩
  | close => cases h

theorem Action.reported_of_collects {a : Action τ} {num nowNs : ℕ} {events : List KernelEvent}
    (h : a.collects = some (num, nowNs, .ok events)) : a.reported = events := by
  unfold Action.reported
  rw [h]

/-- Only a collection reports. -/
theorem Action.collects_of_reported {a : Action τ} {event : KernelEvent} (h : event ∈ a.reported) :
    ∃ num nowNs events, a.collects = some (num, nowNs, .ok events) := by
  unfold Action.reported at h
  split at h
  · next num nowNs events hcollects => exact ⟨num, nowNs, events, hcollects⟩
  · cases h

namespace Effect

variable {events events' : List KernelEqueueEvent} {a : Action τ} {key : Key}

/-- A change of one event, seen from an event of AMPR completions. -/
theorem ampr_change {before after : List KernelEqueueEvent} {e e' e₀ : KernelEqueueEvent}
    (hsame : Same e e') (hnodup : ((before ++ e :: after).map (·.key)).Nodup)
    (he₀ : e₀ ∈ before ++ e :: after) (hkey₀ : e₀.key = key)
    (hampr : e₀.filter.triggerFunc = some .amprEvent) {data : List (BitVec 64)}
    (hself : e = e₀ → e.queued.map (·.data) ++ data = e'.queued.map (·.data))
    (hother : e.key ≠ key → data = []) :
    (∃ e₁ ∈ before ++ e' :: after, e₁.key = key ∧ e₁.filter.triggerFunc = some .amprEvent) ∧
      (slots (·.key = key) queued (before ++ e :: after)).map (·.data) ++ data =
        (slots (·.key = key) queued (before ++ e' :: after)).map (·.data) := by
  by_cases hkey : e.key = key
  · obtain rfl : e = e₀ := List.inj_on_of_nodup_map hnodup mem_self he₀ (hkey.trans hkey₀.symm)
    have hkey' : e'.key = key := hsame.key.trans hkey
    have hpos : decide (e.event.key = key) = true := decide_eq_true hkey
    have hpos' : decide (e'.event.key = key) = true := decide_eq_true hkey'
    have hnodup' : ((before ++ e' :: after).map (·.key)).Nodup := by
      rwa [map_key_change hsame]
    refine ⟨⟨e', mem_self, hkey', hsame.filter ▸ hampr⟩, ?_⟩
    rw [slots_self hnodup fun event h => (of_decide_eq_true h).trans hkey.symm,
      slots_self hnodup' fun event h => (of_decide_eq_true h).trans hkey'.symm,
      if_pos hpos, if_pos hpos']
    exact hself rfl
  · refine ⟨⟨e₀, ?_, hkey₀, hampr⟩, ?_⟩
    · rcases mem_middle.1 he₀ with rfl | he₀
      · exact absurd hkey₀ hkey
      · exact mem_middle.2 (.inr he₀)
    · rw [hother hkey, slots_other (static_key key) hsame (decide_eq_false hkey), List.append_nil]

/-- The events of AMPR completions are user events, and not level-triggered. -/
theorem proper_ampr {e : KernelEqueueEvent} (h : Proper e)
    (hampr : e.filter.triggerFunc = some .amprEvent) :
    e.event.filter ≠ kernelEvfiltHrtimer ∧ ¬e.event.Level := by
  refine ⟨fun htimer => ?_, fun hlevel => ?_⟩
  · cases hampr.symm.trans (h.kind.timer_funcs htimer).1
  · cases hampr.symm.trans (h.kind.trigger_of_level hlevel)

/-- **Completions are conserved**: those that wait for their report and those that come in are
those that are reported and those that wait afterwards. -/
theorem ampr (h : Effect events a events') (hproper : ∀ e ∈ events, Proper e)
    (hnodup : (events.map (·.key)).Nodup) {e₀ : KernelEqueueEvent} (he₀ : e₀ ∈ events)
    (hkey₀ : e₀.key = key) (hampr : e₀.filter.triggerFunc = some .amprEvent)
    (hkeep : ¬a.Removes key) :
    (∃ e ∈ events', e.key = key ∧ e.filter.triggerFunc = some .amprEvent) ∧
      (slots (·.key = key) queued events).map (·.data) ++ a.triggers key =
        (a.reports key).map (·.data) ++ (slots (·.key = key) queued events').map (·.data) := by
  obtain ⟨htimer, hlevel⟩ := proper_ampr (hproper e₀ he₀) hampr
  cases h with
  | refused hrefused =>
    rw [hrefused.triggers, hrefused.reports, List.append_nil]
    exact ⟨⟨e₀, he₀, hkey₀, hampr⟩, rfl⟩
  | @added _ event hevent hidle hnew =>
    have hneg : ¬decide (event.event.key = key) = true := fun htrue =>
      hnew e₀ he₀ (hkey₀.trans (of_decide_eq_true htrue).symm)
    refine ⟨⟨e₀, List.mem_append_left _ he₀, hkey₀, hampr⟩, ?_⟩
    rw [slots_append, slots_cons, if_neg hneg]
    simp [slots, Action.triggers, Action.reports, Action.reported, Action.collects]
  | @updated before after e event hevent hkey =>
    have hsame := ((hproper e mem_self).update hevent hkey).2
    refine ampr_change hsame hnodup he₀ hkey₀ hampr (fun _ => ?_) fun _ => rfl
    -- only the user data change
    rw [Proper.queued_update, List.map_map]
    exact List.append_nil _
  | @triggered before after e trigger hkey =>
    obtain ⟨-, hsame, -, -, hqueued⟩ :=
      (hproper e mem_self).trigger (ne_timer hkey) trigger.triggerData trigger.tsc
    refine ampr_change hsame hnodup he₀ hkey₀ hampr (fun he => ?_) fun hne => ?_
    · subst he
      rw [hqueued hampr, List.map_append]
      exact congrArg (_ ++ ·) (if_pos (hkey.symm.trans hkey₀))
    · exact if_neg fun hsame' => hne (hkey.trans hsame')
  | @deleted before after e key' hkey =>
    have hne : ¬e.key = key := fun hsame => hkeep (hkey.symm.trans hsame)
    refine ⟨⟨e₀, ?_, hkey₀, hampr⟩, ?_⟩
    · rcases mem_middle.1 he₀ with rfl | he₀
      · exact absurd hkey₀ hne
      · exact he₀
    · have hneg : ¬decide (e.event.key = key) = true := fun htrue => hne (of_decide_eq_true htrue)
      rw [slots_append, slots_append, slots_cons, if_neg hneg]
      exact List.append_nil _
  | @collected _ _ num nowNs hcollects =>
    have hproper' := proper_expire hproper nowNs
    have hexpire : ∀ e ∈ events, decide (e.event.key = key) = true → e = e₀ := fun e he hkey =>
      List.inj_on_of_nodup_map hnodup he he₀ ((of_decide_eq_true hkey).trans hkey₀.symm)
    have hqueued : slots (·.key = key) queued (events.map (·.expire nowNs)) =
        slots (·.key = key) queued events := by
      refine slots_expire (static_key key) nowNs fun e he hkey => ?_
      obtain rfl := hexpire e he hkey
      rw [(hproper e he).expire_eq htimer]
    have hconserves := reportAll_conserves (static_key key) hproper' num fun e he hkey => by
      obtain ⟨e₁, he₁, rfl⟩ := List.mem_map.1 he
      have hsame := same_expire nowNs e₁
      obtain rfl := hexpire e₁ he₁ (by rwa [← hsame.key])
      exact fun hl => hlevel (hsame.level.1 hl)
    refine ⟨?_, ?_⟩
    · have hsame₀ := same_expire nowNs e₀
      obtain ⟨e, he, hsame⟩ := reportAll_keeps hproper' num (e₀.expire nowNs)
        (List.mem_map.2 ⟨e₀, he₀, rfl⟩) (hsame₀.eventFilter ▸ htimer)
      have hsame := hsame₀.trans hsame
      exact ⟨e, he, hsame.key.trans hkey₀, hsame.filter ▸ hampr⟩
    · rw [(Action.of_collects hcollects key).1, ← hqueued, ← hconserves, List.append_nil,
        List.map_append]
      unfold Action.reports
      rw [Action.reported_of_collects hcollects]
  | closed => exact absurd trivial hkeep

/-- **An edge-triggered event is reported at most once for each trigger.** -/
theorem edge (h : Effect events a events') (hproper : ∀ e ∈ events, Proper e)
    (hnodup : (events.map (·.key)).Nodup) (huser : key.2 = kernelEvfiltUser) :
    ((a.reports key).filter (·.Edge)).length +
        (slots (fun event => event.key = key ∧ event.Edge) queued events').length ≤
      (a.triggers key).length +
        (slots (fun event => event.key = key ∧ event.Edge) queued events).length := by
  have hstatic := static_edge key
  cases h with
  | refused hrefused =>
    rw [hrefused.reports, hrefused.triggers]
    exact le_rfl
  | @added _ event hevent hidle hnew =>
    have hempty : slots (fun event => event.key = key ∧ event.Edge) queued [event] = [] := by
      refine List.flatMap_eq_nil_iff.2 fun e he => ?_
      obtain rfl := List.mem_singleton.1 he
      split
      · next htrue =>
        -- it has flags
        refine queued_of_not_triggered (Bool.eq_false_iff.2 fun htriggered => ?_)
        refine (of_decide_eq_true htrue).2 ?_
        rw [(hidle htriggered).1]
        rfl
      · rfl
    rw [slots_append, hempty, List.append_nil]
    exact le_rfl
  | @updated before after e event hevent hkey =>
    have hsame := ((hproper e mem_self).update hevent hkey).2
    refine (Nat.zero_add _).le.trans (slots_change_le (n := 0) hstatic hsame fun _ => ?_)
    rw [Proper.queued_update, List.length_map, Nat.zero_add]
  | @triggered before after e trigger hkey =>
    obtain ⟨-, hsame, -, hlength, -⟩ :=
      (hproper e mem_self).trigger (ne_timer hkey) trigger.triggerData trigger.tsc
    refine (Nat.zero_add _).le.trans (slots_change_le hstatic hsame fun htrue => ?_)
    have htriggers : Action.triggers key (.triggerEvent trigger (.ok ()) : Action τ) =
        [trigger.triggerData] := if_pos (hkey.symm.trans (of_decide_eq_true htrue).1)
    rw [htriggers, List.length_singleton, Nat.add_comm]
    exact hlength
  | @deleted before after e key' hkey =>
    refine (Nat.zero_add _).le.trans (Nat.le_add_left_of_le ?_)
    rw [slots_append, slots_append, slots_cons, List.length_append, List.length_append,
      List.length_append]
    omega
  | @collected _ _ num nowNs hcollects =>
    have hproper' := proper_expire hproper nowNs
    have hnotLevel : ∀ e ∈ events.map (·.expire nowNs),
        decide (e.event.key = key ∧ e.event.Edge) = true → ¬e.event.Level := fun e _ htrue hlevel =>
      (of_decide_eq_true htrue).2 hlevel.2
    have hqueued : slots (fun event => event.key = key ∧ event.Edge) queued
        (events.map (·.expire nowNs)) =
          slots (fun event => event.key = key ∧ event.Edge) queued events := by
      refine slots_expire hstatic nowNs fun e he htrue => ?_
      have htimer : e.event.filter ≠ kernelEvfiltHrtimer := by
        have hfilter : e.event.filter = key.2 := congrArg Prod.snd (of_decide_eq_true htrue).1
        rw [hfilter, huser]
        decide
      rw [(hproper e he).expire_eq htimer]
    have hconserves := congrArg List.length (reportAll_conserves hstatic hproper' num hnotLevel)
    have hreports : (a.reports key).filter (·.Edge) =
        (reportAll num (events.map (·.expire nowNs))).1.filter
          fun event => event.key = key ∧ event.Edge := by
      unfold Action.reports
      rw [Action.reported_of_collects hcollects, List.filter_filter]
      exact List.filter_congr fun event _ => by simp [and_comm]
    rw [List.length_append, hqueued] at hconserves
    rw [(Action.of_collects hcollects key).1, hreports, hconserves]
    exact Nat.le_add_left _ _
  | closed => exact Nat.zero_le _

/-- **A timer is reported at most once for each time it is armed.** -/
theorem timers (h : Effect events a events') (hproper : ∀ e ∈ events, Proper e)
    (htimer : key.2 = kernelEvfiltHrtimer) :
    (a.reports key).length + (slots (·.key = key) (fun e => [e.key]) events').length ≤
      (a.arms key.1).toList.length + (slots (·.key = key) (fun e => [e.key]) events).length := by
  have hkey : key = (key.1, kernelEvfiltHrtimer) := Prod.ext rfl htimer
  cases h with
  | refused hrefused =>
    rw [hrefused.reports, hrefused.arms]
    exact le_rfl
  | @added _ event hevent hidle hnew =>
    have hone : (slots (·.key = key) (fun e => [e.key]) [event]).length ≤
        (Action.arms key.1 (.addEvent event (.ok ()) true : Action τ)).toList.length := by
      have harms : Action.arms key.1 (.addEvent event (.ok ()) true : Action τ) =
          if event.event.key = key then some event.deadlineNs else none := by
        unfold Action.arms
        rw [← hkey]
        rfl
      rw [harms]
      by_cases he : event.event.key = key
      · simp [slots, he]
      · simp [slots, he]
    rw [slots_append, List.length_append]
    have hnone : (Action.reports key (.addEvent event (.ok ()) true : Action τ)).length = 0 := rfl
    omega
  | @updated before after e event hevent hkey' =>
    have hsame := ((hproper e mem_self).update hevent hkey').2
    have hle : (slots (·.key = key) (fun e => [e.key]) (before ++ e.update event :: after)).length ≤
        0 + (slots (·.key = key) (fun e => [e.key]) (before ++ e :: after)).length :=
      slots_change_le (static_key key) hsame fun _ => le_rfl
    have hnone : (Action.reports key (.addEvent event (.ok ()) false : Action τ)).length = 0 := rfl
    omega
  | @triggered before after e trigger hkey' =>
    obtain ⟨-, hsame, -⟩ :=
      (hproper e mem_self).trigger (ne_timer hkey') trigger.triggerData trigger.tsc
    have hle : (slots (·.key = key) (fun e => [e.key])
        (before ++ e.trigger trigger.triggerData trigger.tsc :: after)).length ≤
          0 + (slots (·.key = key) (fun e => [e.key]) (before ++ e :: after)).length :=
      slots_change_le (static_key key) hsame fun _ => le_rfl
    have hnone : (Action.reports key (.triggerEvent trigger (.ok ()) : Action τ)).length = 0 := rfl
    omega
  | @deleted before after e key' hkey' =>
    have hnone : (Action.reports key
        (.deleteEvent key' (.ok ()) (KernelEqueue.callbacks [e]) : Action τ)).length = 0 := rfl
    rw [hnone, slots_append, slots_append, slots_cons, List.length_append, List.length_append,
      List.length_append]
    omega
  | @collected _ _ num nowNs hcollects =>
    have hle := reportAll_timers htimer (proper_expire hproper nowNs) num
    have hexpire : slots (·.key = key) (fun e => [e.key]) (events.map (·.expire nowNs)) =
        slots (·.key = key) (fun e => [e.key]) events :=
      slots_expire (static_key key) nowNs fun e _ _ =>
        congrArg (fun k => [k]) (same_expire nowNs e).key
    rw [hexpire] at hle
    unfold Action.reports
    rw [Action.reported_of_collects hcollects]
    exact hle.trans (Nat.le_add_left _ _)
  | closed => exact Nat.zero_le _

theorem map_callbacks (events : List KernelEqueueEvent) (key : Key) :
    ((KernelEqueue.callbacks events).filter (·.key = key)).map (·.filter) =
      slots (·.key = key) callback events := by
  unfold KernelEqueue.callbacks
  induction events with
  | nil => rfl
  | cons e rest ih =>
    rw [slots_cons, ← ih]
    unfold callback KernelEqueueEvent.key
    by_cases hfunc : e.filter.deleteEventFunc.isSome = true
    · by_cases hkey : e.event.key = key
      · simp [hfunc, hkey]
      · simp [hfunc, hkey]
    · simp [hfunc]

/-- **A delete callback stays with its event until it runs.** -/
theorem callbacks (h : Effect events a events') (hproper : ∀ e ∈ events, Proper e)
    (hnodup : (events.map (·.key)).Nodup) :
    slots (·.key = key) callback events ++ a.created key =
      a.deleted key ++ slots (·.key = key) callback events' := by
  have hcallback : ∀ e e', Same e e' → callback e' = callback e := fun e e' hsame => by
    unfold callback
    rw [hsame.filter]
  have hchange : ∀ {before after : List KernelEqueueEvent} {e e' : KernelEqueueEvent},
      Same e e' → slots (·.key = key) callback (before ++ e' :: after) =
        slots (·.key = key) callback (before ++ e :: after) := fun hsame => by
    rw [slots_append, slots_append, slots_cons, slots_cons, hcallback _ _ hsame,
      (static_key key).same hsame]
  cases h with
  | refused hrefused =>
    rw [hrefused.created, hrefused.deleted]
    exact List.append_nil _
  | @added _ event hevent hidle hnew =>
    have hone : Action.created key (.addEvent event (.ok ()) true : Action τ) =
        slots (·.key = key) callback [event] := by
      have hcreated : Action.created key (.addEvent event (.ok ()) true : Action τ) =
          if event.event.key = key then callback event else [] := rfl
      rw [hcreated]
      by_cases he : event.event.key = key
      · simp [slots, he]
      · simp [slots, he]
    rw [slots_append, hone]
    rfl
  | @updated before after e event hevent hkey' =>
    rw [hchange ((hproper e mem_self).update hevent hkey').2]
    exact List.append_nil _
  | @triggered before after e trigger hkey' =>
    rw [hchange ((hproper e mem_self).trigger (ne_timer hkey') trigger.triggerData
      trigger.tsc).2.1]
    exact List.append_nil _
  | @deleted before after e key' hkey' =>
    have hdeleted : Action.deleted key
        (.deleteEvent key' (.ok ()) (KernelEqueue.callbacks [e]) : Action τ) =
          slots (·.key = key) callback [e] := map_callbacks [e] key
    rw [hdeleted]
    by_cases hkey : e.key = key
    · -- it is the only one with the key
      have hself : slots (·.key = key) callback (before ++ e :: after) =
          slots (·.key = key) callback [e] := by
        rw [slots_self hnodup fun event h => (of_decide_eq_true h).trans hkey.symm, slots_cons]
        exact (List.append_nil _).symm
      have hempty : slots (·.key = key) callback (before ++ after) = [] :=
        slots_absent (fun event h => (of_decide_eq_true h).trans hkey.symm) (others_ne hnodup)
      rw [hself, hempty]
      rfl
    · have hneg : ¬decide (e.event.key = key) = true := fun htrue => hkey (of_decide_eq_true htrue)
      rw [slots_append, slots_append, slots_cons, slots_cons, if_neg hneg]
      exact List.append_nil _
  | @collected _ _ num nowNs hcollects =>
    obtain ⟨-, hcreated, hdeleted, -⟩ := Action.of_collects hcollects key
    rw [hcreated, hdeleted, List.append_nil, List.nil_append,
      reportAll_slots (static_key key) hcallback ?_ (proper_expire hproper nowNs) num]
    · exact (slots_expire (static_key key) nowNs fun e _ _ =>
        hcallback _ _ (same_expire nowNs e)).symm
    · intro e he htimer
      unfold callback
      rw [(he.kind.timer_funcs htimer).2]
      rfl
  | closed =>
    rw [show Action.deleted key (.close (KernelEqueue.callbacks events) : Action τ) =
      slots (·.key = key) callback events from map_callbacks events key]
    rfl

end Effect

end Prosperismo.EventQueue
