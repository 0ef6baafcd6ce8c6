import Prosperismo.Rwlocks.Readers

/-!
# Read-write locks exclude

What a thread holds is read off the events: a stack (`held`) on which every lock it gets is
pushed, and from which its unlocks pop. The lock itself keeps less, a count of read locks for
each thread and the writer. That this is enough, although an unlock has to guess which kind of
lock it drops, is `Holding.held`: a thread that holds both kinds took the write lock first.

The invariant is in two parts, `Holding` for what is held and `Waiting` for the writers that
wait. Every step that overflows no counter keeps both, and they give the main result,
`locks_exclude`.

A writer may read under its own lock while other writers wait (`writer_reads_past_waiter`), so
the rule that a waiting writer keeps new readers out is for threads that hold nothing.
-/

namespace Prosperismo.Rwlocks

variable {θ : Type} [DecidableEq θ]

/-! ### What a thread holds -/

/-- An event on the stack of the locks that a thread holds. -/
def heldStep (thread : θ) (holds : List Kind) : Event θ → List Kind
  | .locked t kind => if t = thread then kind :: holds else holds
  | .unlock t _ => if t = thread then holds.tail else holds
  | .failed _ _ | .asleep _ _ => holds

/-- The locks that a thread holds after some events, the last one first. -/
def held (thread : θ) (events : List (Event θ)) : List Kind :=
  events.foldl (heldStep thread) []

theorem held_append (thread : θ) (events : List (Event θ)) (e : Event θ) :
    held thread (events ++ [e]) = heldStep thread (held thread events) e := by
  rw [held, List.foldl_append]
  rfl

/-- The lock agrees with the events about what the threads hold. -/
structure Holding (events : List (Event θ)) (s : Rwlock θ) : Prop where
  readers : WellFormed s.readers
  readerCount : s.readerCount = total s.readers
  readerCount_le : s.readerCount ≤ uint32Max
  /-- No thread is the writer twice. -/
  writerCount : ∀ t, s.writer = some t → s.writerCount = 1
  exclusive : ∀ t u, s.writer = some t → u ≠ t → countOf u s.readers = 0
  /-- A thread that holds both kinds took the write lock first. -/
  held : ∀ t, held t events =
    List.replicate (countOf t s.readers) .read ++ if s.writer = some t then [.write] else []

namespace Holding

variable {events : List (Event θ)} {s : Rwlock θ}

theorem new : Holding [] (Rwlock.new : Rwlock θ) where
  readers := ⟨List.nodup_nil, fun _ h => absurd h List.not_mem_nil⟩
  readerCount := rfl
  readerCount_le := Nat.zero_le _
  writerCount _ h := by cases h
  exclusive _ _ h := by cases h
  held _ := rfl

/-- The number of waiting writers does not matter, and neither does an event that changes no
stack. -/
theorem quiet (h : Holding events s) {e : Event θ} (he : ∀ t holds, heldStep t holds e = holds)
    (waitingWriters : ℕ) :
    Holding (events ++ [e]) { s with waitingWriters := waitingWriters } where
  readers := h.readers
  readerCount := h.readerCount
  readerCount_le := h.readerCount_le
  writerCount := h.writerCount
  exclusive := h.exclusive
  held t := by
    rw [held_append, he]
    exact h.held t

/-- A thread gets a read lock. -/
theorem addReader (h : Holding events s) {self : θ}
    (hwriter : s.writer = none ∨ s.writer = some self) (hlt : s.readerCount < uint32Max) :
    Holding (events ++ [.locked self .read]) (s.addReader self) where
  readers := h.readers.addEntry (h.readerCount ▸ hlt)
  readerCount := by
    unfold Rwlock.addReader
    rw [inc_of_lt hlt, total_addEntry (h.readerCount ▸ hlt), h.readerCount]
  readerCount_le := by
    change inc s.readerCount ≤ uint32Max
    rw [inc_of_lt hlt]
    exact hlt
  writerCount := h.writerCount
  exclusive t u ht hne := by
    -- the writer is the thread itself, if there is one
    have hself : t = self := by
      rcases hwriter with hnone | hsome
      · cases hnone.symm.trans ht
      · exact Option.some.inj (ht.symm.trans hsome)
    exact (countOf_addEntry_of_ne (hself ▸ hne)).trans (h.exclusive t u ht hne)
  held t := by
    rw [held_append, heldStep, h.held t]
    unfold Rwlock.addReader
    by_cases ht : self = t
    · subst ht
      have hcount : countOf self s.readers < uint32Max :=
        Nat.lt_of_le_of_lt (countOf_le_total self s.readers) (h.readerCount ▸ hlt)
      rw [if_pos rfl, countOf_addEntry_self hcount, List.replicate_succ, List.cons_append]
    · rw [if_neg ht, countOf_addEntry_of_ne (Ne.symm ht)]

/-- A thread gets the write lock. -/
theorem take (h : Holding events s) {self : θ} (hfree : s.Free) :
    Holding (events ++ [.locked self .write]) (s.take self) := by
  obtain ⟨hnone, hzero⟩ := hfree
  have hcount : ∀ t, countOf t s.readers = 0 :=
    countOf_of_total_eq_zero (h.readerCount.symm.trans hzero)
  exact
    { readers := h.readers
      readerCount := h.readerCount
      readerCount_le := h.readerCount_le
      writerCount := fun _ _ => rfl
      exclusive := fun _ u _ _ => hcount u
      held := fun t => by
        -- nobody held anything before
        have hbefore : Rwlocks.held t events = [] := by
          rw [h.held t, hcount t, hnone]
          rfl
        rw [held_append, heldStep, hbefore]
        change _ = List.replicate (countOf t s.readers) Kind.read ++
          if some self = some t then [.write] else []
        rw [hcount t]
        by_cases ht : self = t
        · rw [if_pos ht, if_pos (congrArg some ht)]
          rfl
        · rw [if_neg ht, if_neg fun hsame => ht (Option.some.inj hsame)]
          rfl }

/-- An unlock drops the lock that was taken last, and fails if there is none. -/
theorem unlock (h : Holding events s) {self : θ} {code : Code} {s' : Rwlock θ}
    (hunlock : s.unlock self = some (code, s')) :
    Holding (events ++ [.unlock self code]) s' ∧ (code = .ok ↔ Rwlocks.held self events ≠ []) := by
  have hheld := h.held self
  unfold Rwlock.unlock Rwlock.removeReader at hunlock
  cases hremove : removeEntry self s.readers with
  | some readers' =>
    -- a read lock is dropped
    simp only [hremove, Option.map_some, Option.some.injEq, Prod.mk.injEq] at hunlock
    obtain ⟨rfl, rfl⟩ := hunlock
    have hle : total s.readers ≤ uint32Max := h.readerCount ▸ h.readerCount_le
    have hremoved := h.readers.removeEntry hle hremove
    have hsum := hremoved.sum
    rw [← hremoved.self, List.replicate_succ, List.cons_append] at hheld
    have hdec : dec s.readerCount = s.readerCount - 1 :=
      dec_of_pos (by rw [h.readerCount]; omega) h.readerCount_le
    refine ⟨?_, iff_of_true rfl (by rw [hheld]; exact List.cons_ne_nil _ _)⟩
    exact
      { readers := hremoved.wellFormed h.readers
        readerCount := by
          change dec s.readerCount = total readers'
          rw [hdec, h.readerCount]
          omega
        readerCount_le := by
          change dec s.readerCount ≤ uint32Max
          rw [hdec]
          exact Nat.le_trans (Nat.sub_le _ _) h.readerCount_le
        writerCount := h.writerCount
        exclusive := fun t u ht hne => by
          have hzero := h.exclusive t u ht hne
          by_cases hu : u = self
          · subst hu
            have hself := hremoved.self
            omega
          · exact (hremoved.other u hu).trans hzero
        held := fun t => by
          rw [held_append, heldStep]
          by_cases ht : self = t
          · subst ht
            rw [if_pos rfl, hheld, List.tail_cons]
          · rw [if_neg ht, hremoved.other t (Ne.symm ht)]
            exact h.held t }
  | none =>
    have hzero := h.readers.removeEntry_eq_none.1 hremove
    rw [hzero, List.replicate_zero, List.nil_append] at hheld
    simp only [hremove, Option.map_none] at hunlock
    by_cases hwriter : s.writer = some self
    · -- the write lock is dropped
      have hone := h.writerCount self hwriter
      have hdec : dec s.writerCount = 0 := by
        rw [hone]
        decide
      rw [if_pos hwriter, if_neg (by omega), if_pos hdec] at hunlock
      obtain ⟨rfl, rfl⟩ := Prod.mk.inj (Option.some.inj hunlock)
      rw [if_pos hwriter] at hheld
      refine ⟨?_, iff_of_true rfl (by rw [hheld]; exact List.cons_ne_nil _ _)⟩
      exact
        { readers := h.readers
          readerCount := h.readerCount
          readerCount_le := h.readerCount_le
          writerCount := fun _ ht => by cases ht
          exclusive := fun _ _ ht => by cases ht
          held := fun t => by
            rw [held_append, heldStep]
            by_cases ht : self = t
            · subst ht
              rw [if_pos rfl, hheld]
              simp [hzero]
            · have hother : ¬s.writer = some t := fun hsame =>
                ht (Option.some.inj (hwriter.symm.trans hsame))
              rw [if_neg ht, h.held t, if_neg hother]
              rfl }
    · -- nothing is held
      rw [if_neg hwriter] at hunlock hheld
      obtain ⟨rfl, rfl⟩ := Prod.mk.inj (Option.some.inj hunlock)
      refine ⟨?_, iff_of_false (by decide) fun hne => hne hheld⟩
      refine
        { h with
          held := fun t => ?_ }
      rw [held_append, heldStep]
      by_cases ht : self = t
      · subst ht
        rw [if_pos rfl, ← h.held self, hheld]
        rfl
      · rw [if_neg ht]
        exact h.held t

end Holding

/-! ### A try -/

/-- The ways a try can end. -/
inductive Tried (s : Rwlock θ) (call : Wait θ) : Try × Rwlock θ → Prop
  | deadlk (hkind : call.kind = .write) :
      Tried s call (.returned .deadlk, s.unregister call.registered)
  | written (hkind : call.kind = .write) (hfree : s.Free) :
      Tried s call (.returned .ok, (s.unregister call.registered).take call.thread)
  | writeTimedOut (hkind : call.kind = .write) :
      Tried s call (.returned .timedOut, (s.register call.registered).unregister true)
  | writeAsleep (hkind : call.kind = .write) :
      Tried s call (.asleep true, s.register call.registered)
  | read (hkind : call.kind = .read) (hmay : s.MayRead call.thread) :
      Tried s call (.returned .ok, s.addReader call.thread)
  | readTimedOut (hkind : call.kind = .read) :
      Tried s call (.returned .timedOut, s.unregister call.registered)
  | readAsleep (hkind : call.kind = .read) :
      Tried s call (.asleep call.registered, s)

omit [DecidableEq θ] in
theorem sleep_cases (s : Rwlock θ) (timeout : Option ℕ) (expired registered : Bool) :
    s.sleep timeout expired registered = (.returned .timedOut, s.unregister registered) ∨
      s.sleep timeout expired registered = (.asleep registered, s) := by
  cases timeout with
  | none => exact .inr rfl
  | some usec =>
    unfold Rwlock.sleep
    dsimp only
    split
    · exact .inl rfl
    · exact .inr rfl

theorem tried (s : Rwlock θ) (call : Wait θ) (expired : Bool) :
    Tried s call (s.lockCooperative call expired) := by
  unfold Rwlock.lockCooperative
  cases hkind : call.kind with
  | write =>
    dsimp only
    split
    · exact .deadlk hkind
    · split
      · next hfree => exact .written hkind hfree
      · rcases sleep_cases (s.register call.registered) call.timeout expired true with h | h
        · exact h ▸ .writeTimedOut hkind
        · exact h ▸ .writeAsleep hkind
  | read =>
    dsimp only
    split
    · next hmay => exact .read hkind hmay
    · rcases sleep_cases s call.timeout expired call.registered with h | h
      · exact h ▸ .readTimedOut hkind
      · exact h ▸ .readAsleep hkind

omit [DecidableEq θ] in
/-- Registering and unregistering touch nothing but the number of waiting writers. -/
theorem unregister_eq (s : Rwlock θ) (registered : Bool) :
    ∃ n, s.unregister registered = { s with waitingWriters := n } := by
  cases registered with
  | true => exact ⟨_, rfl⟩
  | false => exact ⟨s.waitingWriters, rfl⟩

omit [DecidableEq θ] in
theorem register_eq (s : Rwlock θ) (registered : Bool) :
    ∃ n, s.register registered = { s with waitingWriters := n } := by
  cases registered with
  | true => exact ⟨s.waitingWriters, rfl⟩
  | false => exact ⟨_, rfl⟩

/-- A read lock is granted only where there is no writer, or to the writer. -/
theorem Rwlock.MayRead.writer {s : Rwlock θ} {self : θ} (h : s.MayRead self) :
    s.writer = none ∨ s.writer = some self :=
  h.imp And.left id

/-- A try keeps what is held in agreement with the events. -/
theorem Holding.tried {events : List (Event θ)} {s : Rwlock θ} (h : Holding events s)
    {call : Wait θ} {outcome : Try × Rwlock θ} (htried : Tried s call outcome)
    (hrange : ∀ t, outcome.1.event call = .locked t .read → s.readerCount < uint32Max) :
    Holding (events ++ [outcome.1.event call]) outcome.2 := by
  cases htried with
  | deadlk hkind | readTimedOut hkind =>
    obtain ⟨n, hn⟩ := unregister_eq s call.registered
    exact hn.symm ▸ h.quiet (fun _ _ => rfl) n
  | written hkind hfree =>
    obtain ⟨n, hn⟩ := unregister_eq s call.registered
    have hquiet : Holding events { s with waitingWriters := n } :=
      { h with }
    rw [hn, Try.event, hkind]
    exact hquiet.take hfree
  | writeTimedOut hkind =>
    obtain ⟨n, hn⟩ := register_eq s call.registered
    rw [hn]
    exact h.quiet (fun _ _ => rfl) (dec n)
  | writeAsleep hkind =>
    obtain ⟨n, hn⟩ := register_eq s call.registered
    exact hn.symm ▸ h.quiet (fun _ _ => rfl) n
  | read hkind hmay =>
    have hevent : (Try.returned .ok).event call = .locked call.thread .read := by
      rw [Try.event, hkind]
    rw [hevent]
    exact h.addReader hmay.writer (hrange _ hevent)
  | readAsleep hkind => exact h.quiet (fun _ _ => rfl) s.waitingWriters

/-! ### Waiting writers -/

/-- The number of waiting writers is that of the calls registered as such, and these are the
write calls that sleep. -/
structure Waiting (s : State θ) : Prop where
  count : s.rwlock.waitingWriters = s.waits.countP (·.registered)
  le : s.rwlock.waitingWriters ≤ uint32Max
  registered : ∀ w ∈ s.waits, w.registered = true ↔ w.kind = .write

theorem dec_inc {x : ℕ} (h : x ≤ uint32Max) : dec (inc x) = x := by
  unfold uint32Max at h
  unfold dec inc
  omega

omit [DecidableEq θ] in
/-- A call that is about to return is taken off the number. -/
theorem unregister_waiting {s : Rwlock θ} {registered : Bool} {n : ℕ}
    (h : s.waitingWriters = n + if registered then 1 else 0) (hle : s.waitingWriters ≤ uint32Max) :
    (s.unregister registered).waitingWriters = n := by
  cases registered with
  | false => exact h
  | true =>
    change dec s.waitingWriters = n
    rw [if_pos rfl] at h
    rw [dec_of_pos (by omega) hle]
    omega

omit [DecidableEq θ] in
/-- A call that is about to sleep is on the number. -/
theorem register_waiting {s : Rwlock θ} {registered : Bool} {n : ℕ}
    (h : s.waitingWriters = n + if registered then 1 else 0)
    (hlt : registered = false → s.waitingWriters < uint32Max) :
    (s.register registered).waitingWriters = n + 1 := by
  cases registered with
  | false =>
    change inc s.waitingWriters = n + 1
    rw [inc_of_lt (hlt rfl), h]
    rfl
  | true => exact h

omit [DecidableEq θ] in
/-- A call that registers, and gives up in the same try, leaves the number as it was without
it. -/
theorem unregister_register_waiting {s : Rwlock θ} {registered : Bool} {n : ℕ}
    (h : s.waitingWriters = n + if registered then 1 else 0) (hle : s.waitingWriters ≤ uint32Max) :
    ((s.register registered).unregister true).waitingWriters = n := by
  cases registered with
  | false =>
    change dec (inc s.waitingWriters) = n
    rw [dec_inc hle]
    exact h
  | true => exact unregister_waiting h hle

/-- A try keeps the number of waiting writers; `others` are the other calls that sleep. -/
theorem Waiting.tried {s : Rwlock θ} {call : Wait θ} {others : List (Wait θ)}
    {outcome : Try × Rwlock θ} (htried : Tried s call outcome)
    (hcount : s.waitingWriters =
      others.countP (·.registered) + if call.registered then 1 else 0)
    (hle : s.waitingWriters ≤ uint32Max)
    (hothers : ∀ w ∈ others, w.registered = true ↔ w.kind = .write)
    (hcall : call.registered = true → call.kind = .write)
    (hrange : ∀ t, outcome.1.event call = .asleep t true → s.waitingWriters < uint32Max) :
    Waiting ⟨outcome.2, outcome.1.waits call others⟩ := by
  have hread : call.kind = .read → call.registered = false := by
    intro hkind
    by_contra hregistered
    have hwrite := hcall (by simpa using hregistered)
    rw [hkind] at hwrite
    cases hwrite
  have hcountLe : others.countP (·.registered) ≤ uint32Max := by omega
  cases htried with
  | deadlk hkind | readTimedOut hkind | written hkind hfree =>
    have hleft := unregister_waiting hcount hle
    exact ⟨hleft, hleft.trans_le hcountLe, hothers⟩
  | writeTimedOut hkind =>
    have hleft := unregister_register_waiting hcount hle
    exact ⟨hleft, hleft.trans_le hcountLe, hothers⟩
  | writeAsleep hkind =>
    have hregistered := register_waiting hcount fun hfalse => hrange call.thread (by
      rw [Try.event, hfalse]
      rfl)
    refine ⟨hregistered.trans (List.countP_cons_of_pos rfl).symm, ?_, fun w hw => ?_⟩
    · cases hbefore : call.registered with
      | false =>
        have hlt := hrange call.thread (by rw [Try.event, hbefore]; rfl)
        rw [hbefore, if_neg Bool.false_ne_true] at hcount
        rw [hbefore] at hregistered
        exact hregistered.trans_le (by omega)
      | true => exact hle
    · rcases List.mem_cons.1 hw with rfl | hw
      · exact iff_of_true rfl hkind
      · exact hothers w hw
  | read hkind hmay =>
    rw [hread hkind] at hcount
    exact ⟨hcount, hle, hothers⟩
  | readAsleep hkind =>
    rw [hread hkind] at hcount ⊢
    refine ⟨hcount.trans (List.countP_cons_of_neg Bool.false_ne_true).symm, hle, fun w hw => ?_⟩
    rcases List.mem_cons.1 hw with rfl | hw
    · exact iff_of_false Bool.false_ne_true (by rw [hkind]; decide)
    · exact hothers w hw

/-! ### Steps and runs -/

/-- A try variant keeps what is held in agreement with the events. -/
theorem Holding.trylock {events : List (Event θ)} {s : Rwlock θ} (h : Holding events s)
    {thread : θ} {kind : Kind}
    (hrange : ∀ t, (Try.returned (s.trylock thread kind).1).event ⟨thread, kind, none, false⟩ =
      .locked t .read → s.readerCount < uint32Max) :
    Holding (events ++ [(Try.returned (s.trylock thread kind).1).event ⟨thread, kind, none, false⟩])
      (s.trylock thread kind).2 := by
  cases kind with
  | read =>
    unfold Rwlock.trylock Rwlock.tryrdlock at hrange ⊢
    dsimp only at hrange ⊢
    split at hrange
    · next hmay =>
      rw [if_pos hmay]
      exact h.addReader hmay.writer (hrange thread rfl)
    · next hmay =>
      rw [if_neg hmay]
      exact h.quiet (fun _ _ => rfl) s.waitingWriters
  | write =>
    unfold Rwlock.trylock Rwlock.trywrlock
    dsimp only
    split
    · exact h.quiet (fun _ _ => rfl) s.waitingWriters
    · split
      · next hfree => exact h.take hfree
      · exact h.quiet (fun _ _ => rfl) s.waitingWriters

theorem trylock_waiting (s : Rwlock θ) (thread : θ) (kind : Kind) :
    (s.trylock thread kind).2.waitingWriters = s.waitingWriters := by
  cases kind with
  | read =>
    unfold Rwlock.trylock Rwlock.tryrdlock
    dsimp only
    split <;> rfl
  | write =>
    unfold Rwlock.trylock Rwlock.trywrlock
    dsimp only
    split
    · rfl
    · split <;> rfl

theorem unlock_waiting {s s' : Rwlock θ} {thread : θ} {code : Code}
    (h : s.unlock thread = some (code, s')) : s'.waitingWriters = s.waitingWriters := by
  unfold Rwlock.unlock Rwlock.removeReader at h
  cases hremove : removeEntry thread s.readers with
  | some readers =>
    simp only [hremove, Option.map_some, Option.some.injEq, Prod.mk.injEq] at h
    exact h.2 ▸ rfl
  | none =>
    simp only [hremove, Option.map_none] at h
    split at h
    · split at h
      · cases h
      · split at h <;> exact (Prod.mk.inj (Option.some.inj h)).2 ▸ rfl
    · exact (Prod.mk.inj (Option.some.inj h)).2 ▸ rfl

/-- The invariant, with what has happened so far. -/
def Sound (events : List (Event θ)) (s : State θ) : Prop :=
  Holding events s.rwlock ∧ Waiting s

theorem Sound.new : Sound [] (State.new : State θ) :=
  ⟨.new, rfl, Nat.zero_le _, fun _ h => absurd h List.not_mem_nil⟩

/-- **One step keeps the invariant**, unless it overflows a counter. -/
theorem Sound.step {events : List (Event θ)} {s s' : State θ} {e : Event θ} (h : Sound events s)
    (hstep : StepInRange s e s') : Sound (events ++ [e]) s' := by
  obtain ⟨hholding, hwaiting⟩ := h
  obtain ⟨hstep, hread, hwait⟩ := hstep
  cases hstep with
  | lock call expired hnew =>
    have htried := tried s.rwlock call expired
    refine ⟨hholding.tried htried hread, Waiting.tried htried ?_ hwaiting.le hwaiting.registered
      (fun hregistered => ?_) hwait⟩
    · rw [hnew]
      exact hwaiting.count
    · rw [hnew] at hregistered
      cases hregistered
  | retry call expired hasleep =>
    have htried := tried s.rwlock call expired
    -- the call itself is one of those counted
    have hperm := List.perm_cons_erase hasleep
    have hcount : s.waits.countP (·.registered) =
        (s.waits.erase call).countP (·.registered) + if call.registered then 1 else 0 :=
      (hperm.countP_eq _).trans List.countP_cons
    exact ⟨hholding.tried htried hread, Waiting.tried htried (hwaiting.count.trans hcount)
      hwaiting.le (fun w hw => hwaiting.registered w (List.mem_of_mem_erase hw))
      (hwaiting.registered call hasleep).1 hwait⟩
  | trylock thread kind =>
    have hsame := trylock_waiting s.rwlock thread kind
    exact ⟨hholding.trylock hread, hsame.trans hwaiting.count, hsame.trans_le hwaiting.le,
      hwaiting.registered⟩
  | unlock thread hunlock =>
    have hsame := unlock_waiting hunlock
    exact ⟨(hholding.unlock hunlock).1, hsame.trans hwaiting.count, hsame.trans_le hwaiting.le,
      hwaiting.registered⟩

/-- The invariant along a run. -/
theorem Sound.run {earlier since : List (Event θ)} {s s' : State θ} (h : Sound earlier s)
    (hrun : Run StepInRange s since s') : Sound (earlier ++ since) s' := by
  induction hrun with
  | nil => simpa using h
  | snoc _ hlast ih =>
    rw [← List.append_assoc]
    exact ih.step hlast

/-! ### Locks and unlocks of one thread -/

/-- The event is a lock that the thread gets, or an unlock that it calls. -/
def Event.concerns (thread : θ) : Event θ → Bool
  | .locked t _ | .unlock t _ => t = thread
  | .failed _ _ | .asleep _ _ => false

/-- The other events leave the thread's stack alone. -/
theorem foldl_heldStep_filter (thread : θ) (events : List (Event θ)) (holds : List Kind) :
    (events.filter (Event.concerns thread)).foldl (heldStep thread) holds =
      events.foldl (heldStep thread) holds := by
  induction events generalizing holds with
  | nil => rfl
  | cons e rest ih =>
    by_cases he : e.concerns thread = true
    · rw [List.filter_cons_of_pos he, List.foldl_cons, List.foldl_cons, ih]
    · have hquiet : heldStep thread holds e = holds := by
        cases e with
        | locked t kind => exact if_neg fun ht => he (decide_eq_true ht)
        | unlock t code => exact if_neg fun ht => he (decide_eq_true ht)
        | failed | asleep => rfl
      rw [List.filter_cons_of_neg he, List.foldl_cons, hquiet, ih]

/-- Locks are pushed. -/
theorem foldl_locked {thread : θ} {locks : List (Event θ)}
    (h : ∀ e ∈ locks, ∃ kind, e = .locked thread kind) (holds : List Kind) :
    ∃ kinds : List Kind, kinds.length = locks.length ∧
      locks.foldl (heldStep thread) holds = kinds ++ holds := by
  induction locks generalizing holds with
  | nil => exact ⟨[], rfl, rfl⟩
  | cons e rest ih =>
    obtain ⟨kind, rfl⟩ := h e List.mem_cons_self
    obtain ⟨kinds, hlength, hfold⟩ :=
      ih (fun e he => h e (List.mem_cons_of_mem _ he)) (kind :: holds)
    refine ⟨kinds ++ [kind], by simp [hlength], ?_⟩
    rw [List.foldl_cons, heldStep, if_pos rfl, hfold, List.append_assoc, List.singleton_append]

/-- Unlocks pop. -/
theorem foldl_unlock {thread : θ} {unlocks : List (Event θ)}
    (h : ∀ e ∈ unlocks, ∃ code, e = .unlock thread code) (holds : List Kind) :
    unlocks.foldl (heldStep thread) holds = holds.drop unlocks.length := by
  induction unlocks generalizing holds with
  | nil => rfl
  | cons e rest ih =>
    obtain ⟨code, rfl⟩ := h e List.mem_cons_self
    rw [List.foldl_cons, heldStep, if_pos rfl, ih fun e he => h e (List.mem_cons_of_mem _ he),
      List.length_cons, ← List.drop_one, List.drop_drop, Nat.add_comm]

/-- Locks followed by as many unlocks leave the thread's stack as it was. -/
theorem held_balanced {thread : θ} {earlier since locks unlocks : List (Event θ)}
    (hsince : since.filter (Event.concerns thread) = locks ++ unlocks)
    (hlocks : ∀ e ∈ locks, ∃ kind, e = .locked thread kind)
    (hunlocks : ∀ e ∈ unlocks, ∃ code, e = .unlock thread code)
    (hlength : locks.length = unlocks.length) :
    held thread (earlier ++ since) = held thread earlier := by
  obtain ⟨kinds, hkinds, hpushed⟩ := foldl_locked hlocks (held thread earlier)
  calc held thread (earlier ++ since)
      = since.foldl (heldStep thread) (held thread earlier) := List.foldl_append
    _ = (locks ++ unlocks).foldl (heldStep thread) (held thread earlier) := by
        rw [← hsince, foldl_heldStep_filter]
    _ = unlocks.foldl (heldStep thread) (kinds ++ held thread earlier) := by
        rw [List.foldl_append, hpushed]
    _ = held thread earlier := by
        rw [foldl_unlock hunlocks, List.drop_left' (hkinds.trans hlength)]

/-! ### The main result -/

namespace Holding

variable {events : List (Event θ)} {s : Rwlock θ}

/-- The entry of a thread counts the read locks that it holds. -/
theorem countOf_eq (h : Holding events s) (t : θ) :
    countOf t s.readers = (Rwlocks.held t events).count .read := by
  rw [h.held t, List.count_append, List.count_replicate_self]
  split <;> rfl

/-- The writer is the thread that holds the write lock. -/
theorem writer_iff (h : Holding events s) (t : θ) :
    s.writer = some t ↔ Kind.write ∈ Rwlocks.held t events := by
  rw [h.held t, List.mem_append, List.mem_replicate]
  constructor
  · intro ht
    rw [if_pos ht]
    exact .inr List.mem_cons_self
  · rintro (⟨-, hkind⟩ | hmem)
    · cases hkind
    · by_contra ht
      rw [if_neg ht] at hmem
      cases hmem

/-- A thread that holds the write lock keeps the others from holding any. -/
theorem excludes (h : Holding events s) {t u : θ} (ht : Kind.write ∈ Rwlocks.held t events)
    (hne : u ≠ t) : Rwlocks.held u events = [] := by
  have hwriter := (h.writer_iff t).2 ht
  have hother : ¬s.writer = some u := fun hu => hne (Option.some.inj (hu.symm.trans hwriter))
  rw [h.held u, h.exclusive t u hwriter hne, if_neg hother]
  rfl

/-- A thread that may read while a writer waits holds a lock. -/
theorem held_of_mayRead (h : Holding events s) {t : θ} (hmay : s.MayRead t)
    (hwaiting : s.waitingWriters ≠ 0) : Rwlocks.held t events ≠ [] := by
  rw [h.held t]
  rcases hmay with ⟨-, hnone | hfound⟩ | hwriter
  · exact absurd hnone hwaiting
  · have hpos := h.readers.findReader_iff.1 hfound
    intro hempty
    have hlength := congrArg List.length hempty
    rw [List.length_append, List.length_replicate, List.length_nil] at hlength
    omega
  · rw [if_pos hwriter]
    exact List.append_ne_nil_of_right_ne_nil _ (List.cons_ne_nil _ _)

/-- An unlock does not stop the process. -/
theorem unlocks (h : Holding events s) (t : θ) : ∃ code s', s.unlock t = some (code, s') := by
  unfold Rwlock.unlock
  cases s.removeReader t with
  | some s' => exact ⟨_, _, rfl⟩
  | none =>
    dsimp only
    split
    · next hwriter =>
      rw [h.writerCount t hwriter, if_neg Nat.one_ne_zero]
      split <;> exact ⟨_, _, rfl⟩
    · exact ⟨_, _, rfl⟩

end Holding

/-- A read lock is granted only to a thread that may read. -/
theorem Tried.mayRead {s : Rwlock θ} {call : Wait θ} {outcome : Try × Rwlock θ} {t : θ}
    (h : Tried s call outcome) (hevent : outcome.1.event call = .locked t .read) : s.MayRead t := by
  cases h with
  | deadlk | writeTimedOut | writeAsleep | readTimedOut | readAsleep => cases hevent
  | written hkind =>
    rw [Try.event, hkind] at hevent
    cases hevent
  | read hkind hmay =>
    obtain ⟨rfl, -⟩ := Event.locked.inj hevent
    exact hmay

theorem Step.mayRead {s s' : State θ} {t : θ} (h : Step s (.locked t .read) s') :
    s.rwlock.MayRead t := by
  generalize he : Event.locked t Kind.read = e at h
  cases h with
  | lock call expired => exact (tried s.rwlock call expired).mayRead he.symm
  | retry call expired => exact (tried s.rwlock call expired).mayRead he.symm
  | unlock => cases he
  | trylock thread kind =>
    cases kind with
    | read =>
      unfold Rwlock.trylock Rwlock.tryrdlock at he
      dsimp only at he
      split at he
      · next hmay =>
        obtain ⟨rfl, -⟩ := Event.locked.inj he
        exact hmay
      · cases he
    | write =>
      unfold Rwlock.trylock Rwlock.trywrlock at he
      dsimp only at he
      split at he
      · cases he
      · split at he <;> cases he

/-- What a lock promises after a run by `earlier` to `s` and by `since` to `s'`. -/
structure Excludes (earlier : List (Event θ)) (s : State θ) (since : List (Event θ))
    (s' : State θ) : Prop where
  /-- A writer excludes every other thread. -/
  writer_excludes : ∀ t u, Kind.write ∈ held t (earlier ++ since) → u ≠ t →
    held u (earlier ++ since) = []
  /-- The writer is the thread that holds the write lock. -/
  writer : ∀ t, s'.rwlock.writer = some t ↔ Kind.write ∈ held t (earlier ++ since)
  /-- `reader_count` is the sum of the readers' counts. -/
  reader_count : s'.rwlock.readerCount = total s'.rwlock.readers
  /-- There is one entry of positive count for each thread that has one. -/
  entries : WellFormed s'.rwlock.readers
  /-- An entry counts the read locks of its thread. -/
  reads : ∀ t, countOf t s'.rwlock.readers = (held t (earlier ++ since)).count .read
  /-- `waiting_writers` is the number of the write calls that sleep; a call that has returned,
  for whatever reason, is not among them. -/
  waiting_writers : Waiting s'
  /-- A waiting writer keeps the threads that hold nothing from reading. -/
  kept_out : ∀ t s'', Step s' (.locked t .read) s'' → (∃ w ∈ s'.waits, w.registered = true) →
    held t (earlier ++ since) ≠ []
  /-- An unlock returns, and succeeds exactly for a thread that holds a lock. -/
  unlocks : ∀ t, ∃ code s'', Step s' (.unlock t code) s'' ∧
    (code = .ok ↔ held t (earlier ++ since) ≠ [])
  /-- Locks that a thread gets, followed by as many unlocks, leave the lock for this thread as it
  was, whatever the other threads do. -/
  returns : ∀ t locks unlocks, since.filter (Event.concerns t) = locks ++ unlocks →
    (∀ e ∈ locks, ∃ kind, e = .locked t kind) → (∀ e ∈ unlocks, ∃ code, e = .unlock t code) →
    locks.length = unlocks.length →
    countOf t s'.rwlock.readers = countOf t s.rwlock.readers ∧
      (s'.rwlock.writer = some t ↔ s.rwlock.writer = some t)

/-- **Read-write locks exclude**, in every run that overflows no counter. -/
theorem locks_exclude {earlier since : List (Event θ)} {s s' : State θ}
    (hearlier : Run StepInRange State.new earlier s) (hsince : Run StepInRange s since s') :
    Excludes earlier s since s' := by
  have hsound : Sound earlier s := Sound.new.run hearlier
  obtain ⟨hholding, hwaiting⟩ := hsound.run hsince
  refine
    { writer_excludes := fun _ _ => hholding.excludes
      writer := hholding.writer_iff
      reader_count := hholding.readerCount
      entries := hholding.readers
      reads := hholding.countOf_eq
      waiting_writers := hwaiting
      kept_out := fun t s'' hstep hwriter => ?_
      unlocks := fun t => ?_
      returns := fun t locks unlocks hfilter hlocks hunlocks hlength => ?_ }
  · refine hholding.held_of_mayRead hstep.mayRead ?_
    rw [hwaiting.count]
    exact Nat.ne_of_gt (List.countP_pos_iff.2 hwriter)
  · obtain ⟨code, rwlock, hunlock⟩ := hholding.unlocks t
    exact ⟨code, _, .unlock t hunlock, (hholding.unlock hunlock).2⟩
  · have hsame : held t (earlier ++ since) = held t earlier :=
      held_balanced hfilter hlocks hunlocks hlength
    rw [hholding.countOf_eq, hsound.1.countOf_eq, hholding.writer_iff, hsound.1.writer_iff, hsame]
    exact ⟨rfl, Iff.rfl⟩

/-- A writer reads under its own lock, and drops its read lock first. -/
theorem locks_exclude_nested :
    ∃ s s' : State ℕ, s'.rwlock.writer = some 0 ∧
      Excludes [.locked 0 .write] s [.locked 0 .read, .unlock 0 .ok] s' := by
  let s : State ℕ := ⟨⟨some 0, 1, 0, 0, []⟩, []⟩
  let s' : State ℕ := ⟨⟨some 0, 1, 1, 0, [⟨0, 1⟩]⟩, []⟩
  have hwrite : Step State.new (.locked 0 .write) s := .trylock 0 .write
  have hread : Step s (.locked 0 .read) s' := .trylock 0 .read
  have hdropped : (⟨some 0, 1, 1, 0, [⟨0, 1⟩]⟩ : Rwlock ℕ).unlock 0 =
      some (.ok, ⟨some 0, 1, 0, 0, []⟩) := by
    simp [Rwlock.unlock, Rwlock.removeReader, removeEntry, dec]
  have hunlock : Step s' (.unlock 0 .ok) s := .unlock 0 hdropped
  have hfirst : StepInRange State.new (.locked 0 .write) s :=
    ⟨hwrite, fun _ he => (nomatch he), fun _ he => (nomatch he)⟩
  have hzero : s.rwlock.readerCount < uint32Max := by
    change 0 < uint32Max
    unfold uint32Max
    omega
  have hsecond : StepInRange s (.locked 0 .read) s' :=
    ⟨hread, fun _ _ => hzero, fun _ he => (nomatch he)⟩
  have hthird : StepInRange s' (.unlock 0 .ok) s :=
    ⟨hunlock, fun _ he => (nomatch he), fun _ he => (nomatch he)⟩
  exact ⟨s, s, rfl, locks_exclude (.single hfirst) (.snoc (.single hsecond) hthird)⟩

/-- **The writer reads past a waiting writer**: a thread that holds no read lock gets one while
another thread waits for the write lock. -/
theorem writer_reads_past_waiter :
    ¬∀ (events : List (Event ℕ)) (s s' : State ℕ) (t : ℕ), Run Step State.new events s →
      Step s (.locked t .read) s' → (∃ w ∈ s.waits, w.registered = true) →
        Kind.read ∈ held t events := by
  intro h
  let s : State ℕ := ⟨⟨some 0, 1, 0, 0, []⟩, []⟩
  let s' : State ℕ := ⟨⟨some 0, 1, 0, 1, []⟩, [⟨1, .write, none, true⟩]⟩
  let s'' : State ℕ := ⟨⟨some 0, 1, 1, 1, [⟨0, 1⟩]⟩, [⟨1, .write, none, true⟩]⟩
  have hwrite : Step State.new (.locked 0 .write) s := .trylock 0 .write
  have hwait : Step s (.asleep 1 true) s' := .lock ⟨1, .write, none, false⟩ false rfl
  have hread : Step s' (.locked 0 .read) s'' := .trylock 0 .read
  have hheld := h [.locked 0 .write, .asleep 1 true] s' s'' 0 (.snoc (.single hwrite) hwait) hread
    ⟨_, List.mem_cons_self, rfl⟩
  exact absurd hheld (by decide)

end Prosperismo.Rwlocks
