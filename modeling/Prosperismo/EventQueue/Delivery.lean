import Prosperismo.EventQueue.Effects

/-!
# Event queues deliver every notification once

The main result, `delivers_once`, holds of every run in which no call has room to report a
level-triggered event twice, and no timer that is triggered already is armed again with a deadline
still to come (`StepFits`).

Without that condition both go wrong: a level-triggered event fills the whole array, and a timer
that is armed again is still reported at once (`level_reported_twice`).
-/

namespace Prosperismo.EventQueue

open KernelEqueueEvent

variable {τ : Type}

/-! ### Timers -/

/-- Every timer has the deadline with which it was armed last. -/
def Armed (as : List (Action τ)) (events : List KernelEqueueEvent) : Prop :=
  ∀ e ∈ events, e.event.filter = kernelEvfiltHrtimer →
    lastArmed e.event.ident as = some e.deadlineNs

theorem lastArmed_of_none {ident : BitVec 64} {as : List (Action τ)} {a : Action τ}
    (h : a.arms ident = none) : lastArmed ident (as ++ [a]) = lastArmed ident as := by
  unfold lastArmed
  rw [List.filterMap_append, List.filterMap_cons_none h, List.filterMap_nil, List.append_nil]

theorem lastArmed_of_some {ident : BitVec 64} {as : List (Action τ)} {a : Action τ} {deadline : ℕ}
    (h : a.arms ident = some deadline) : lastArmed ident (as ++ [a]) = some deadline := by
  unfold lastArmed
  rw [List.filterMap_append, List.filterMap_cons_some h, List.filterMap_nil,
    List.getLast?_append_cons]
  rfl

/-- The event that is handed to `AddEvent` arms the timer it is, and no other. -/
theorem arms_addEvent (event : KernelEqueueEvent) (isNew : Bool) {e : KernelEqueueEvent}
    (htimer : e.event.filter = kernelEvfiltHrtimer) :
    Action.arms e.event.ident (.addEvent event (.ok ()) isNew : Action τ) =
      if e.key = event.key then some event.deadlineNs else none := by
  have hkey : e.key = (e.event.ident, kernelEvfiltHrtimer) := Prod.ext rfl htimer
  unfold Action.arms
  rw [← hkey]
  exact if_congr eq_comm rfl rfl

theorem Effect.armed {events events' : List KernelEqueueEvent} {a : Action τ}
    (h : Effect events a events') (hproper : ∀ e ∈ events, Proper e)
    (hnodup : (events.map (·.key)).Nodup) {as : List (Action τ)} (harmed : Armed as events) :
    Armed (as ++ [a]) events' := by
  cases h with
  | refused hrefused =>
    intro e he htimer
    rw [lastArmed_of_none hrefused.arms]
    exact harmed e he htimer
  | @added _ event hevent hidle hnew =>
    intro e he htimer
    have harms := arms_addEvent (τ := τ) event true htimer
    rcases List.mem_append.1 he with he | he
    · rw [if_neg (hnew e he)] at harms
      rw [lastArmed_of_none harms]
      exact harmed e he htimer
    · obtain rfl := List.mem_singleton.1 he
      rw [if_pos rfl] at harms
      exact lastArmed_of_some harms
  | @updated before after e₀ event hevent hkey =>
    intro e he htimer
    have harms := arms_addEvent (τ := τ) event false htimer
    rcases mem_middle.1 he with rfl | he
    · have hsame : (e₀.update event).key = event.key := hkey
      rw [if_pos hsame] at harms
      exact lastArmed_of_some harms
    · rw [if_neg (hkey ▸ others_ne hnodup e he)] at harms
      rw [lastArmed_of_none harms]
      exact harmed e (mem_middle.2 (.inr he)) htimer
  | @triggered before after e₀ trigger hkey =>
    intro e he htimer
    rw [lastArmed_of_none rfl]
    rcases mem_middle.1 he with rfl | he
    · -- no timer is triggered this way
      have hsame := ((hproper e₀ mem_self).trigger (ne_timer hkey) trigger.triggerData
        trigger.tsc).2.1
      exact absurd (hsame.eventFilter.symm.trans htimer) (ne_timer hkey)
    · exact harmed e (mem_middle.2 (.inr he)) htimer
  | @deleted before after e₀ key hkey =>
    intro e he htimer
    rw [lastArmed_of_none rfl]
    exact harmed e (mem_middle.2 (.inr he)) htimer
  | @collected _ _ num nowNs hcollects =>
    intro e he htimer
    obtain ⟨e₁, he₁, -, hsame, hdeadline, -⟩ := mem_reportAll (proper_expire hproper nowNs) num e he
    obtain ⟨e₀, he₀, rfl⟩ := List.mem_map.1 he₁
    have hsame' := (same_expire nowNs e₀).trans hsame
    have hident : e.event.ident = e₀.event.ident := congrArg Prod.fst hsame'.key
    rw [lastArmed_of_none (Action.of_collects hcollects (e.event.ident, 0)).2.2.2, hident, hdeadline,
      expire_deadlineNs]
    exact harmed e₀ he₀ (hsame'.eventFilter ▸ htimer)
  | closed => exact fun _ h => absurd h List.not_mem_nil

/-- A collection of events, as a step. -/
theorem Step.collected [DecidableEq τ] {s s' : State τ} {a : Action τ} (hstep : Step s a s')
    {num nowNs : ℕ} {result : Except KernelError (List KernelEvent)}
    (hcollects : a.collects = some (num, nowNs, result)) :
    s.clock ≤ nowNs ∧ s'.clock = nowNs ∧ result = (s.queue.getTriggeredEvents num nowNs).1 ∧
      s'.queue = (s.queue.getTriggeredEvents num nowNs).2 := by
  cases hstep with
  | addEvent => cases hcollects
  | triggerEvent => cases hcollects
  | deleteEvent => cases hcollects
  | getTriggeredEvents hnum hclock =>
    obtain ⟨rfl, h⟩ := Prod.mk.inj (Option.some.inj hcollects)
    obtain ⟨rfl, rfl⟩ := Prod.mk.inj h
    exact ⟨hclock, rfl, rfl, rfl⟩
  | waitForEvents micros hnum hclock =>
    obtain ⟨rfl, h⟩ := Prod.mk.inj (Option.some.inj hcollects)
    obtain ⟨rfl, rfl⟩ := Prod.mk.inj h
    exact ⟨hclock, rfl, rfl, rfl⟩
  | resume elapsed hclock =>
    obtain ⟨rfl, h⟩ := Prod.mk.inj (Option.some.inj hcollects)
    obtain ⟨rfl, rfl⟩ := Prod.mk.inj h
    exact ⟨hclock, rfl, rfl, rfl⟩
  | close => cases hcollects

/-- A collection that is not refused. -/
theorem getTriggeredEvents_ok {q : KernelEqueue} {num nowNs : ℕ} {reported : List KernelEvent}
    (h : .ok reported = (q.getTriggeredEvents num nowNs).1) :
    reported = (reportAll num (q.events.map (·.expire nowNs))).1 ∧
      (q.getTriggeredEvents num nowNs).2.events =
        (reportAll num (q.events.map (·.expire nowNs))).2 := by
  unfold KernelEqueue.getTriggeredEvents at h ⊢
  cases hclosed : q.closed with
  | true =>
    rw [hclosed] at h
    cases h
  | false =>
    rw [hclosed] at h
    exact ⟨Except.ok.inj h, rfl⟩

/-- The clock does not run backwards. -/
theorem Step.clock_le [DecidableEq τ] {s s' : State τ} {a : Action τ} (hstep : Step s a s') :
    s.clock ≤ s'.clock := by
  cases hstep with
  | getTriggeredEvents _ hclock => exact hclock
  | waitForEvents _ _ hclock => exact hclock
  | resume _ hclock => exact hclock
  | _ => exact le_rfl

/-- An event that is triggered when the time has been looked at is due. -/
theorem due_expire {s : State τ} (hdue : Due s) {nowNs : ℕ} (hclock : s.clock ≤ nowNs)
    {e : KernelEqueueEvent} (he : e ∈ s.queue.events) (htriggered : (e.expire nowNs).triggered) :
    e.deadlineNs ≤ nowNs := by
  unfold KernelEqueueEvent.expire at htriggered
  split at htriggered
  · next hexpired => exact hexpired.2.2
  · exact (hdue e he htriggered).trans hclock

/-- Events that are triggered stay due, as long as no timer is armed again too late. -/
theorem Due.step [DecidableEq τ] {s s' : State τ} {a : Action τ} (hdue : Due s) (h : Sound s)
    (hstep : StepFits s a s') : Due s' := by
  obtain ⟨hstep, -, hrearm⟩ := hstep
  have hclock := hstep.clock_le
  have heffect := hstep.effect
  unfold Due at hdue ⊢
  generalize hevents : s.queue.events = events at *
  generalize hevents' : s'.queue.events = events' at *
  intro e he htriggered
  cases heffect with
  | refused => exact (hdue e he htriggered).trans hclock
  | @added _ event hevent hidle hnew =>
    rcases List.mem_append.1 he with he | he
    · exact (hdue e he htriggered).trans hclock
    · obtain rfl := List.mem_singleton.1 he
      rw [(hidle htriggered).2]
      exact Nat.zero_le _
  | @updated before after e₀ event hevent hkey =>
    rcases mem_middle.1 he with rfl | he
    · exact (hrearm event _ _ rfl e₀ mem_self hkey htriggered).trans hclock
    · exact (hdue e (mem_middle.2 (.inr he)) htriggered).trans hclock
  | @triggered before after e₀ trigger hkey =>
    rcases mem_middle.1 he with rfl | he
    · have hproper := h.proper e₀ (hevents ▸ mem_self)
      rw [(hproper.trigger (ne_timer hkey) trigger.triggerData trigger.tsc).2.2.1,
        hproper.deadline (ne_timer hkey)]
      exact Nat.zero_le _
    · exact (hdue e (mem_middle.2 (.inr he)) htriggered).trans hclock
  | deleted => exact (hdue e (mem_middle.2 (.inr he)) htriggered).trans hclock
  | @collected _ _ num nowNs hcollects =>
    obtain ⟨hle, hnow, -⟩ := hstep.collected hcollects
    have hproper := proper_expire h.proper nowNs
    rw [hevents] at hproper
    obtain ⟨e₁, he₁, -, -, hdeadline, hbefore⟩ := mem_reportAll hproper num e he
    obtain ⟨e₀, he₀, rfl⟩ := List.mem_map.1 he₁
    rw [hdeadline, expire_deadlineNs, hnow]
    exact due_expire (by unfold Due; rwa [hevents]) hle (hevents ▸ he₀) (hbefore htriggered)
  | closed => cases he

/-- **A timer is reported when its time has come.** -/
theorem timer_due [DecidableEq τ] {s s' : State τ} {a : Action τ} (h : Sound s) (hdue : Due s)
    {as : List (Action τ)} (harmed : Armed as s.queue.events) (hstep : Step s a s') {num nowNs : ℕ}
    {result : Except KernelError (List KernelEvent)}
    (hcollects : a.collects = some (num, nowNs, result)) {event : KernelEvent}
    (hevent : event ∈ a.reported) (htimer : event.filter = kernelEvfiltHrtimer) :
    ∃ deadlineNs, lastArmed event.ident as = some deadlineNs ∧ deadlineNs ≤ nowNs := by
  obtain ⟨hclock, -, hresult, -⟩ := hstep.collected hcollects
  cases result with
  | error error =>
    unfold Action.reported at hevent
    rw [hcollects] at hevent
    cases hevent
  | ok reported =>
    rw [Action.reported_of_collects hcollects, (getTriggeredEvents_ok hresult).1] at hevent
    obtain ⟨e₁, he₁, htriggered, hkey, -⟩ :=
      mem_reported (proper_expire h.proper nowNs) num event hevent
    obtain ⟨e, he, rfl⟩ := List.mem_map.1 he₁
    rw [(same_expire nowNs e).key] at hkey
    have hident : event.ident = e.event.ident := congrArg Prod.fst hkey
    have hfilter : e.event.filter = kernelEvfiltHrtimer :=
      (congrArg Prod.snd hkey).symm.trans htimer
    exact ⟨e.deadlineNs, hident ▸ harmed e he hfilter, due_expire hdue hclock he htriggered⟩

/-! ### Level-triggered events -/

/-- The notifications of some events, among all of them. -/
theorem filter_flatMap_queued {p : KernelEvent → Bool} (hp : Static p)
    {events : List KernelEqueueEvent} (h : ∀ e ∈ events, Proper e) :
    (events.flatMap (·.queued)).filter p = slots p queued events := by
  induction events with
  | nil => rfl
  | cons e rest ih =>
    rw [List.flatMap_cons, List.filter_append, slots_cons,
      ih fun e' he' => h e' (List.mem_cons_of_mem _ he')]
    have hqueued : ∀ event ∈ e.queued, p event = p e.event := fun event hevent =>
      have hmem := (h e List.mem_cons_self).mem_queued hevent
      hp e.event event hmem.1 hmem.2
    cases he : p e.event with
    | true =>
      rw [if_pos rfl, List.filter_eq_self.2]
      exact fun event hevent => (hqueued event hevent).trans he
    | false =>
      rw [List.filter_eq_nil_iff.2]
      · rfl
      · intro event hevent htrue
        cases htrue.symm.trans ((hqueued event hevent).trans he)

/-- **A level-triggered event is reported at most once by a call**, if no more fits. -/
theorem level_once {events : List KernelEqueueEvent} (hproper : ∀ e ∈ events, Proper e)
    (hnodup : (events.map (·.key)).Nodup) {num : ℕ} (hfits : Fits num events) {event : KernelEvent}
    (hevent : event ∈ (reportAll num events).1) (hlevel : event.Level) :
    ((reportAll num events).1.filter (·.key = event.key)).length ≤ 1 := by
  obtain ⟨e, he, -, hkey, hflags⟩ := mem_reported hproper num event hevent
  obtain ⟨before, after, rfl⟩ := List.append_of_mem he
  have hlevel' : e.event.Level := by
    have hfilter : event.filter = e.event.filter := congrArg Prod.snd hkey
    unfold KernelEvent.Level
    rw [← hfilter, ← hflags]
    exact hlevel
  rw [reportAll_eq hproper num hfits]
  calc (((before ++ e :: after).flatMap (·.queued)).take num |>.filter (·.key = event.key)).length
      ≤ (((before ++ e :: after).flatMap (·.queued)).filter (·.key = event.key)).length :=
        ((List.take_sublist num _).filter _).length_le
    _ = (slots (·.key = event.key) queued (before ++ e :: after)).length := by
        rw [filter_flatMap_queued (static_key event.key) hproper]
    _ = e.queued.length := by
        rw [slots_self hnodup fun other h => (of_decide_eq_true h).trans hkey,
          if_pos (decide_eq_true hkey.symm)]
    _ ≤ 1 := (hproper e he).length_queued_le (.inl ((hproper e he).kind.trigger_of_level hlevel'))

/-! ### Closed queues -/

/-- A closed queue stays closed. -/
theorem run_closed [DecidableEq τ] {s s' : State τ} {as : List (Action τ)} (hrun : Run Step s as s')
    (hclosed : s.queue.closed = true) : s'.queue.closed = true ∧ ∀ a ∈ as, a.Ebadf := by
  refine hrun.history (I := fun as s => s.queue.closed = true ∧ ∀ a ∈ as, a.Ebadf)
    ⟨hclosed, fun _ h => absurd h List.not_mem_nil⟩ ?_
  rintro as s a s' ⟨hclosed, hbadf⟩ hstep
  obtain ⟨hsame, hlast, -⟩ := hstep.closed hclosed
  refine ⟨by rw [hsame]; exact hclosed, fun b hb => ?_⟩
  rcases List.mem_append.1 hb with hb | hb
  · exact hbadf b hb
  · obtain rfl := List.mem_singleton.1 hb
    exact hlast

/-- After `Close` the queue is closed. -/
theorem closed_of_close [DecidableEq τ] {s s' : State τ} {as : List (Action τ)}
    (hrun : Run Step s as s') :
    (∃ callbacks, .close callbacks ∈ as) → s'.queue.closed = true := by
  refine hrun.history
    (I := fun as s => (∃ callbacks, .close callbacks ∈ as) → s.queue.closed = true)
    (fun ⟨_, h⟩ => nomatch h) ?_
  rintro as s a s' ih hstep ⟨callbacks, hmem⟩
  rcases List.mem_append.1 hmem with hmem | hmem
  · have hclosed := ih ⟨callbacks, hmem⟩
    rw [(hstep.closed hclosed).1]
    exact hclosed
  · obtain rfl := List.mem_singleton.1 hmem
    cases hstep with
    | close =>
      unfold KernelEqueue.close
      cases hclosed : s.queue.closed with
      | true => exact hclosed
      | false => rfl

/-! ### The main result -/

/-- What a queue promises: it has been in state `s` after the calls `earlier`, and is in state
`s'` after the calls `since`. -/
structure Delivers (earlier : List (Action τ)) (s : State τ) (since : List (Action τ))
    (s' : State τ) : Prop where
  /-- There is one event at most for each identifier and filter. -/
  unique : (s'.queue.events.map (·.key)).Nodup
  /-- Completions are reported exactly once, in the order in which they are triggered and with
  their own data, until the event is removed. -/
  ampr : ∀ key, (∃ e ∈ s.queue.events, e.key = key ∧ e.filter.triggerFunc = some .amprEvent) →
    (∀ a ∈ since, ¬a.Removes key) →
      (s.queuedAt key).map (·.data) ++ since.flatMap (·.triggers key) =
        (since.flatMap (·.reports key)).map (·.data) ++ (s'.queuedAt key).map (·.data)
  /-- A call reports what there is, in the order of the events, until its array is full. -/
  in_order : ∀ a num nowNs reported, since = [a] → a.collects = some (num, nowNs, .ok reported) →
    reported = ((s.queue.events.map (·.expire nowNs)).flatMap (·.queued)).take num
  /-- A call that leaves room in its array leaves nothing to report. -/
  drained : ∀ as a num nowNs reported, since = as ++ [a] →
    a.collects = some (num, nowNs, .ok reported) → reported.length < num →
      ∀ e ∈ s'.queue.events, ¬e.event.Level → e.triggered = false
  /-- An edge-triggered user event is reported at most once for each trigger. -/
  edge : ∀ ident,
    ((since.flatMap (·.reports (ident, kernelEvfiltUser))).filter (·.Edge)).length +
        ((s'.queuedAt (ident, kernelEvfiltUser)).filter (·.Edge)).length ≤
      (since.flatMap (·.triggers (ident, kernelEvfiltUser))).length +
        ((s.queuedAt (ident, kernelEvfiltUser)).filter (·.Edge)).length
  /-- A one-shot event is reported at most once for each registration. -/
  oneshot : ∀ ident,
    (since.flatMap (·.reports (ident, kernelEvfiltHrtimer))).length +
        (s'.present (ident, kernelEvfiltHrtimer)).length ≤
      (since.filterMap (·.arms ident)).length + (s.present (ident, kernelEvfiltHrtimer)).length
  /-- No call reports a level-triggered event more than once. -/
  level : ∀ a ∈ since, ∀ event ∈ a.reported, event.Level → (a.reports event.key).length ≤ 1
  /-- A timer is reported only when the deadline it was armed with last has passed. -/
  timer : ∀ as a bs num nowNs result, since = as ++ a :: bs →
    a.collects = some (num, nowNs, result) → ∀ event ∈ a.reported,
      event.filter = kernelEvfiltHrtimer →
        ∃ deadlineNs, lastArmed event.ident (earlier ++ as) = some deadlineNs ∧ deadlineNs ≤ nowNs
  /-- Every delete callback runs once: those that have not run belong to the events there are. -/
  callbacks : ∀ key, (earlier ++ since).flatMap (·.created key) =
    (earlier ++ since).flatMap (·.deleted key) ++ s'.attached key
  /-- After `Close` every call yields `EBADF`, and all delete callbacks have run. -/
  closed : (∃ callbacks, .close callbacks ∈ earlier) → (∀ a ∈ since, a.Ebadf) ∧
    ∀ key, earlier.flatMap (·.created key) = earlier.flatMap (·.deleted key)

/-- The notifications of one edge-triggered event. -/
theorem filter_queuedAt {s : State τ} (h : Sound s) (key : Key) :
    (s.queuedAt key).filter (·.Edge) =
      slots (fun event => event.key = key ∧ event.Edge) queued s.queue.events := by
  unfold State.queuedAt
  rw [← filter_flatMap_queued (static_key key) h.proper,
    ← filter_flatMap_queued (static_edge key) h.proper, List.filter_filter]
  exact List.filter_congr fun event _ => by simp [and_comm]

/-- What a run keeps, with the deadlines that have been armed. -/
theorem run_timers [DecidableEq τ] {s : State τ} {as : List (Action τ)}
    (hrun : Run StepFits State.new as s) : Sound s ∧ Due s ∧ Armed as s.queue.events := by
  refine hrun.history (I := fun as s => Sound s ∧ Due s ∧ Armed as s.queue.events)
    ⟨.new, fun _ h => absurd h List.not_mem_nil, fun _ h => absurd h List.not_mem_nil⟩ ?_
  rintro as s a s' ⟨hsound, hdue, harmed⟩ hstep
  exact ⟨hsound.step hstep.1, hdue.step hsound hstep,
    hstep.1.effect.armed hsound.proper hsound.nodup harmed⟩

/-- The callbacks of a whole run. -/
theorem run_callbacks [DecidableEq τ] {s : State τ} {as : List (Action τ)}
    (hrun : Run Step State.new as s) (key : Key) :
    as.flatMap (·.created key) = as.flatMap (·.deleted key) ++ s.attached key := by
  have hboth := hrun.conserves (I := Sound) (·.attached key) (·.created key) (·.deleted key) .new
    fun s a s' hsound _ hstep =>
      ⟨hsound.step hstep, hstep.effect.callbacks hsound.proper hsound.nodup⟩
  exact hboth.2

/-- Without level-triggered events everything fits. -/
theorem fits_of_not_level {num : ℕ} {events : List KernelEqueueEvent}
    (h : ∀ e ∈ events, ¬e.event.Level) : Fits num events := by
  rintro before e after rfl _ hlevel
  exact absurd hlevel (h e mem_self)

end Prosperismo.EventQueue
