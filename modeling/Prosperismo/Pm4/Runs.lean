import Prosperismo.Pm4.Resume

/-!
# Suspended and resumed executions

A submission is executed by calling `Process` until it reports `Complete`; between two calls
the rest of the system changes the state (`Runs`). `process_flattens` says, for every such run
and every pattern of unsatisfied waits, that

* no cursor ever leaves its buffer;
* no packet is executed twice;
* what has been executed is the depth-first flattening of the buffers, up to the wait the
  execution stands at, or to the end; the latter is the case iff `Process` reports `Complete`.

Conversely, a buffer whose flattening exists is executed: the call that the flattening
attributes to its last wait returns, and has executed the flattening up to there.
-/

namespace Prosperismo.Pm4

variable {σ : Type} {g : Gpu σ} {env : ℕ → σ → σ}

/-! ### One call -/

/-- What a run of iterations leaves of what remained: nothing if the stack is empty, and
otherwise the wait it ended at, followed by what remains after the system's next move. -/
def Leaves (g : Gpu σ) (env : ℕ → σ → σ) (s : State σ) (k : ℕ) (evs : List Completed)
    (e : Ending σ) : Prop :=
  if s.stack = [] then evs = [] ∧ e = .finished k s.gpu
  else evs = [] ∧ e = .waiting k s.gpu ∨ Rest g env s.stack (k + 1) (env k s.gpu) evs e

variable (env) in
/-- **A run executes the head of what remains.** -/
theorem ticks_rest {n : ℕ} {s s' : State σ} (h : ticks g 0 n s = .ok s') :
    ∃ head, s'.trace = s.trace ++ head ∧ ∀ k evs e, Rest g env s.stack k s.gpu evs e ↔
      ∃ evs', evs = head ++ evs' ∧ Leaves g env s' k evs' e := by
  induction n generalizing s with
  | zero => cases h
  | succ n ih =>
    cases hstack : s.stack with
    | nil =>
      simp only [ticks, runUntil, hstack, List.length_nil, Nat.le_refl, decide_true, if_true,
        Result.ok.injEq] at h
      subst h
      refine ⟨[], (List.append_nil _).symm, fun k evs e => ?_⟩
      simp only [Leaves, if_pos hstack, Rest, List.nil_append, exists_eq_left']
    | cons c rest =>
      have hlen : ¬ decide (s.stack.length ≤ 0) = true := by simp [hstack]
      simp only [ticks, runUntil, if_neg hlen] at h
      cases htick : tick g s with
      | exit => rw [htick] at h; cases h
      | ok s₁ =>
        -- an unsatisfied wait
        rw [htick] at h
        cases h
        obtain ⟨rfl, hrest⟩ := tick_blocked htick (hstack ▸ List.cons_ne_nil c rest)
        refine ⟨[], (List.append_nil _).symm, fun k evs e => ?_⟩
        rw [← hstack, hrest]
        simp only [Leaves, hstack, reduceCtorEq, if_false, List.nil_append, exists_eq_left']
      | running s₁ =>
        rw [htick] at h
        obtain ⟨head₁, htrace₁, hrest₁⟩ := tick_rest env htick
        obtain ⟨head, htrace, hrest⟩ := ih h
        refine ⟨head₁ ++ head, by rw [htrace, htrace₁, List.append_assoc], fun k evs e => ?_⟩
        rw [← hstack, hrest₁]
        constructor
        · rintro ⟨evs₁, rfl, h₁⟩
          obtain ⟨evs', rfl, h'⟩ := (hrest k evs₁ e).1 h₁
          exact ⟨evs', (List.append_assoc _ _ _).symm, h'⟩
        · rintro ⟨evs', rfl, h'⟩
          exact ⟨head ++ evs', List.append_assoc _ _ _, (hrest k _ e).2 ⟨evs', rfl, h'⟩⟩

/-- A run executes no packet twice. -/
theorem Ordered.ticks {n : ℕ} {s s' : State σ} (h : Ordered s) (hn : Pm4.ticks g 0 n s = .ok s') :
    Ordered s' := by
  induction n generalizing s with
  | zero => cases hn
  | succ n ih =>
    by_cases hstack : s.stack = []
    · simp only [Pm4.ticks, runUntil, hstack, List.length_nil, Nat.le_refl, decide_true, if_true,
        Result.ok.injEq] at hn
      exact hn ▸ h
    · have hlen : ¬ decide (s.stack.length ≤ 0) = true := by simpa using hstack
      simp only [Pm4.ticks, runUntil, if_neg hlen] at hn
      cases htick : Pm4.tick g s with
      | exit => rw [htick] at hn; cases hn
      | ok s₁ =>
        rw [htick] at hn
        cases hn
        have hblocked := @tick_blocked σ g (fun _ x => x) s s' htick hstack
        rw [hblocked.1]
        exact ⟨h.callers, h.past, h.nodup⟩
      | running s₁ =>
        rw [htick] at hn
        exact ih (h.tick htick) hn

/-- Runs of iterations that end, end the same way. -/
theorem ticks_unique {n m : ℕ} {s s₁ : State σ} {r : Result (State σ)}
    (h : ticks g 0 n s = .ok s₁) (hm : ticks g 0 m s = r) (hr : ∀ s', r ≠ .running s') :
    r = .ok s₁ := by
  have hended : ∀ s', ticks g 0 n s ≠ .running s' := by
    rw [h]
    exact nofun
  have hended' : ∀ s', ticks g 0 m s ≠ .running s' := by
    rwa [hm]
  calc r = ticks g 0 m s := hm.symm
    _ = ticks g 0 n s := runUntil_unique hended' hended
    _ = .ok s₁ := h

/-- A call of `Process` against the loop without recursion. -/
theorem process_sim (fuel buffer sizeDw : ℕ) (s : State σ) :
    Simulates g fuel [] [] (s.enter buffer sizeDw) (g.process fuel buffer sizeDw s) := by
  have hsim := processPm4_sim (g := g) fuel (s.enter buffer sizeDw).stack [] []
    (s.enter buffer sizeDw) (List.append_nil _).symm rfl rfl
  rw [List.append_nil] at hsim
  exact hsim

/-- A call of `Process` is a run of iterations. -/
theorem process_ticks {fuel buffer sizeDw : ℕ} {s s' : State σ}
    (h : g.process fuel buffer sizeDw s = .ok s') :
    ∃ n, ticks g 0 n (s.enter buffer sizeDw) = .ok s' := by
  have hsim := process_sim (g := g) fuel buffer sizeDw s
  rw [h] at hsim
  obtain ⟨top, hstack, -, n, hn⟩ := hsim
  rw [← hstack] at hn
  exact ⟨n, hn⟩

/-- A run of iterations that ends is a call of `Process` that returns. -/
theorem ticks_process {n buffer sizeDw : ℕ} {s s' : State σ}
    (h : ticks g 0 n (s.enter buffer sizeDw) = .ok s') :
    ∃ fuel, g.process fuel buffer sizeDw s = .ok s' := by
  have hsim := process_sim (g := g) (n + 1) buffer sizeDw s
  refine ⟨n + 1, ?_⟩
  cases hresult : g.process (n + 1) buffer sizeDw s with
  | exit =>
    rw [hresult] at hsim
    obtain ⟨m, hm⟩ := hsim
    exact ticks_unique h hm nofun
  | running s₁ =>
    rw [hresult] at hsim
    rcases hsim with ⟨m, t, hle, hm⟩ | ⟨m, hm⟩
    · -- a run that has ended does not go on
      obtain ⟨d, rfl⟩ := Nat.le.dest (Nat.le_of_succ_le hle)
      have hgoes : ticks g 0 (n + d) (s.enter buffer sizeDw) = .ok s' := by
        rw [← h]
        refine runUntil_ended ?_
        change ∀ s₁, ticks g 0 n (s.enter buffer sizeDw) ≠ .running s₁
        rw [h]
        exact nofun
      exact absurd (hm.symm.trans hgoes) nofun
    · exact absurd (ticks_unique h hm nofun) nofun
  | ok s₁ =>
    rw [hresult] at hsim
    obtain ⟨top, hstack, -, m, hm⟩ := hsim
    rw [← hstack] at hm
    exact ticks_unique h hm nofun

/-! ### Runs -/

/-- The state before the first call. -/
def State.start (x : σ) : State σ :=
  ⟨[], false, false, x, []⟩

/-- `Runs g env buffer sizeDw x n s`: the buffer is executed from the state `x`, and after `n`
calls of `Process` that reported a suspension it is called in the state `s`. -/
inductive Runs (g : Gpu σ) (env : ℕ → σ → σ) (buffer sizeDw : ℕ) (x : σ) : ℕ → State σ → Prop
  | start : Runs g env buffer sizeDw x 0 (.start x)
  | again {n fuel : ℕ} {s s' : State σ} (hruns : Runs g env buffer sizeDw x n s)
      (hprocess : g.process fuel buffer sizeDw s = .ok s') (hsuspended : s'.complete = false) :
      Runs g env buffer sizeDw x (n + 1) { s' with gpu := env n s'.gpu }

/-- How the `n`-th call of `Process` left the execution. -/
def State.ending (n : ℕ) (s : State σ) : Ending σ :=
  if s.complete then .finished n s.gpu else .waiting n s.gpu

/-- The attempts of waits that were not satisfied. -/
def Ending.attempts : Ending σ → ℕ
  | finished k _ | waiting k _ => k

/-- Attempts are only added. -/
theorem Flat.attempts_le {outer : List ℕ} {c : Cursor} {k : ℕ} {x : σ} {evs : List Completed}
    {e : Ending σ} (h : Flat g env outer c k x evs e) : k ≤ e.attempts := by
  induction h with
  | nil | waiting => exact Nat.le_refl _
  | filler _ _ _ ih | skipped _ _ _ ih | done _ _ _ _ ih => exact ih
  | again _ _ _ _ ih => exact Nat.le_of_succ_le ih
  | call _ _ _ _ _ ihinner ihrest => exact Nat.le_trans ihinner ihrest
  | callWaiting _ _ _ _ ihinner => exact ihinner

/-- Attempts are only added by what remains of a stack. -/
theorem Rest.attempts_le {stack : List Cursor} {k : ℕ} {x : σ} {evs : List Completed}
    {e : Ending σ} (h : Rest g env stack k x evs e) : k ≤ e.attempts := by
  induction stack generalizing k x evs with
  | nil =>
    obtain ⟨-, rfl⟩ := h
    exact Nat.le_refl _
  | cons c rest ih =>
    obtain ⟨-, evs₁, e₁, evs₂, -, hc, hrest⟩ := h
    have hle := hc.attempts_le
    cases e₁ with
    | finished k₁ x₁ => exact Nat.le_trans hle (ih hrest)
    | waiting k₁ x₁ =>
      obtain ⟨-, rfl⟩ := hrest
      exact hle

/-- A suspended call is entered again with the cursors it left. -/
theorem State.enter_again {s : State σ} (h : s.complete = false) (y : σ) (buffer sizeDw : ℕ) :
    (State.enter { s with gpu := y } buffer sizeDw).stack = s.stack := by
  have hstack : s.stack ≠ [] := by simpa [State.complete] using h
  simp [State.enter, hstack]

/-- What the packet loop keeps of its cursors holds of the cursors of every call. -/
theorem Runs.cursors {P : Cursor → Prop} (hP : CursorInvariant g P) {n buffer sizeDw : ℕ} {x : σ}
    {s : State σ} (h : Runs g env buffer sizeDw x n s) :
    ∀ c ∈ (s.enter buffer sizeDw).stack, P c := by
  induction h with
  | start =>
    intro c hc
    by_cases hsize : sizeDw = 0
    · simp [State.enter, State.start, hsize] at hc
    · obtain rfl : c = .fresh buffer sizeDw := by simpa [State.enter, State.start, hsize] using hc
      exact hP.fresh buffer sizeDw
  | again _ hprocess hsuspended ih =>
    rw [State.enter_again hsuspended]
    exact processPm4_forall hP rfl ih (.inl hprocess)

/-- What every call of `Process` finds: no packet has been executed twice, and what has been
executed is what the flattening starts with. -/
structure Resumable (g : Gpu σ) (env : ℕ → σ → σ) (buffer sizeDw : ℕ) (x : σ) (n : ℕ)
    (s : State σ) : Prop where
  ordered : Ordered (s.enter buffer sizeDw)
  flat : ∀ evs e, n ≤ e.attempts → (Flat g env [] (.fresh buffer sizeDw) 0 x evs e ↔
    ∃ evs', evs = s.trace ++ evs' ∧ Rest g env (s.enter buffer sizeDw).stack n s.gpu evs' e)

/-- The first call. -/
theorem resumable_start (buffer sizeDw : ℕ) (x : σ) :
    Resumable g env buffer sizeDw x 0 (.start x) := by
  by_cases hsize : sizeDw = 0
  · have hstack : ((State.start x).enter buffer sizeDw).stack = [] := by
      simp [State.enter, State.start, hsize]
    refine ⟨⟨by simp [hstack], by simp [hstack], List.nodup_nil⟩, ?_⟩
    intro evs e _
    rw [hstack, flat_end (c := .fresh buffer sizeDw) hsize]
    simp [State.start, Rest]
  · have hstack : ((State.start x).enter buffer sizeDw).stack = [.fresh buffer sizeDw] := by
      simp [State.enter, State.start, hsize]
    refine ⟨⟨by simp [hstack], fun _ _ he => absurd he List.not_mem_nil, List.nodup_nil⟩, ?_⟩
    intro evs e _
    rw [hstack]
    simp only [State.start, List.nil_append, exists_eq_left']
    rw [rest_cons (c := .fresh buffer sizeDw) rfl]
    constructor
    · intro h
      refine ⟨evs, e, [], (List.append_nil _).symm, h, ?_⟩
      cases e <;> exact ⟨rfl, rfl⟩
    · rintro ⟨evs₁, e₁, evs₂, rfl, h, hthen⟩
      -- nothing remains below the only buffer
      cases e₁ <;> obtain ⟨rfl, rfl⟩ := hthen <;> rwa [List.append_nil]

/-- A call that was suspended is followed by one that starts with what it left. -/
theorem Resumable.again {n fuel buffer sizeDw : ℕ} {x : σ} {s s' : State σ}
    (h : Resumable g env buffer sizeDw x n s) (hprocess : g.process fuel buffer sizeDw s = .ok s')
    (hsuspended : s'.complete = false) :
    Resumable g env buffer sizeDw x (n + 1) { s' with gpu := env n s'.gpu } := by
  obtain ⟨m, hm⟩ := process_ticks hprocess
  have hstack : s'.stack ≠ [] := by
    simpa [State.complete] using hsuspended
  have henter : (State.enter { s' with gpu := env n s'.gpu } buffer sizeDw).stack = s'.stack :=
    State.enter_again hsuspended _ _ _
  have hordered := h.ordered.ticks hm
  refine ⟨⟨?_, ?_, hordered.nodup⟩, ?_⟩
  · rw [henter]
    exact hordered.callers
  · rw [henter]
    exact hordered.past
  · intro evs e hle
    obtain ⟨head, htrace, hrest⟩ := ticks_rest env hm
    rw [h.flat evs e (Nat.le_of_succ_le hle), henter]
    have hleaves : ∀ evs', Leaves g env s' n evs' e ↔
        Rest g env s'.stack (n + 1) (env n s'.gpu) evs' e := by
      intro evs'
      rw [Leaves, if_neg hstack]
      refine or_iff_right ?_
      rintro ⟨-, rfl⟩
      exact Nat.not_succ_le_self n hle
    constructor
    · rintro ⟨evs₁, rfl, h₁⟩
      obtain ⟨evs', rfl, h'⟩ := (hrest n evs₁ e).1 h₁
      refine ⟨evs', ?_, (hleaves evs').1 h'⟩
      rw [htrace, List.append_assoc]
      rfl
    · rintro ⟨evs', rfl, h'⟩
      refine ⟨head ++ evs', ?_, (hrest n _ e).2 ⟨evs', rfl, (hleaves evs').2 h'⟩⟩
      rw [htrace, List.append_assoc]
      rfl

/-- Every call of a run finds such a state. -/
theorem Runs.resumable {n buffer sizeDw : ℕ} {x : σ} {s : State σ}
    (h : Runs g env buffer sizeDw x n s) : Resumable g env buffer sizeDw x n s := by
  induction h with
  | start => exact resumable_start buffer sizeDw x
  | again _ hprocess hsuspended ih => exact ih.again hprocess hsuspended

/-- What has been executed when a call returns. -/
theorem Resumable.flat_of_process {n fuel buffer sizeDw : ℕ} {x : σ} {s s' : State σ}
    (h : Resumable g env buffer sizeDw x n s)
    (hprocess : g.process fuel buffer sizeDw s = .ok s') (evs : List Completed) (e : Ending σ) :
    n = e.attempts → (Flat g env [] (.fresh buffer sizeDw) 0 x evs e ↔
      evs = s'.trace ∧ e = s'.ending n) := by
  rintro hattempts
  obtain ⟨m, hm⟩ := process_ticks hprocess
  obtain ⟨head, htrace, hrest⟩ := ticks_rest env hm
  have htrace' : s'.trace = s.trace ++ head := htrace
  have hleaves : ∀ evs', Leaves g env s' n evs' e ↔ evs' = [] ∧ e = s'.ending n := by
    intro evs'
    by_cases hstack : s'.stack = []
    · simp [Leaves, State.ending, State.complete, hstack]
    · simp only [Leaves, State.ending, State.complete, List.isEmpty_iff, hstack, if_false]
      refine or_iff_left fun h => ?_
      exact Nat.not_succ_le_self n (hattempts ▸ h.attempts_le)
  rw [h.flat evs e (Nat.le_of_eq hattempts)]
  constructor
  · rintro ⟨evs₁, rfl, h₁⟩
    obtain ⟨evs', rfl, h'⟩ := (hrest n evs₁ e).1 h₁
    obtain ⟨rfl, rfl⟩ := (hleaves evs').1 h'
    exact ⟨by rw [htrace', List.append_nil], rfl⟩
  · rintro ⟨rfl, he⟩
    refine ⟨head, htrace', (hrest n _ e).2 ⟨[], (List.append_nil _).symm, ?_⟩⟩
    exact (hleaves []).2 ⟨rfl, he⟩

/-- **PM4 execution runs each packet exactly once, in order.** In every run of a command
buffer: the cursors stay inside their buffers in every state reached; when a call returns, no
packet has been executed twice, what has been executed is the depth-first flattening up to the
wait the execution stands at or to its end, and `Complete` is reported iff the whole
flattening has been executed; and where the flattening exists, the call returns. -/
theorem process_flattens {n buffer sizeDw : ℕ} {x : σ} {s : State σ}
    (h : Runs g env buffer sizeDw x n s) :
    (∀ fuel s', (g.process fuel buffer sizeDw s).Reaches s' → ∀ c ∈ s'.stack, c.Inside) ∧
    (∀ fuel s', g.process fuel buffer sizeDw s = .ok s' →
      (s'.trace.map Completed.path).Nodup ∧
      Flat g env [] (.fresh buffer sizeDw) 0 x s'.trace (s'.ending n) ∧
      (s'.complete = true ↔
        Flat g env [] (.fresh buffer sizeDw) 0 x s'.trace (.finished n s'.gpu))) ∧
    ∀ evs e, Flat g env [] (.fresh buffer sizeDw) 0 x evs e → e.attempts = n →
      ∃ fuel s', g.process fuel buffer sizeDw s = .ok s' ∧ s'.trace = evs ∧ s'.ending n = e := by
  have hresumable := h.resumable
  refine ⟨fun fuel s' hs' => processPm4_forall inside_invariant rfl
    (h.cursors inside_invariant) hs',
    fun fuel s' hprocess => ?_, fun evs e hflat hattempts => ?_⟩
  · obtain ⟨m, hm⟩ := process_ticks hprocess
    have hending : n = (s'.ending n).attempts := by
      rw [State.ending]
      split <;> rfl
    refine ⟨(hresumable.ordered.ticks hm).nodup,
      (hresumable.flat_of_process hprocess _ _ hending).2 ⟨rfl, rfl⟩, ?_⟩
    rw [hresumable.flat_of_process hprocess _ (.finished n s'.gpu) rfl]
    by_cases hcomplete : s'.complete = true <;> simp [State.ending, hcomplete]
  · obtain ⟨evs', -, hrest⟩ := (hresumable.flat evs e (Nat.le_of_eq hattempts.symm)).1 hflat
    obtain ⟨m, s', hm⟩ := Rest.terminates (s := s.enter buffer sizeDw) hrest rfl
    obtain ⟨fuel, hprocess⟩ := ticks_process hm
    obtain ⟨rfl, rfl⟩ := (hresumable.flat_of_process hprocess evs e hattempts.symm).1 hflat
    exact ⟨fuel, s', hprocess, rfl, rfl⟩

/-- A machine whose state is the draw engine's counter: the buffer at `0` calls the buffer at
`16`, which waits for that counter to reach the constant engine's. -/
def counterGpu : Gpu ℕ where
  tables := ⟨fun _ => false, fun _ => false, fun _ => false⟩
  memory _ addr :=
    match addr with
    | 0 => 0xC0023F00
    | 4 => 16
    | 12 => 2
    | 16 => 0xC0008800
    | 20 => 1
    | _ => 0
  predicateSkip _ := false
  ceCount _ := 1
  deCount x := UInt32.ofNat x
  ceComplete _ := false
  act _ x := some x

/-- The wait is not satisfied at the first call, and is at the second. -/
theorem process_flattens_counter :
    ∃ s : State ℕ, Runs counterGpu (fun _ _ => 1) 0 4 0 1 s ∧
      ∃ fuel s', counterGpu.process fuel 0 4 s = .ok s' ∧ s'.complete = true ∧
        s'.trace = [⟨[16, 0], 2⟩, ⟨[0], 4⟩] ∧ (s'.trace.map Completed.path).Nodup := by
  have hsuspends : counterGpu.process 8 0 4 (.start 0) =
      .ok ⟨[⟨16, 16, 2, 2, 0⟩, ⟨0, 0, 4, 4, 4⟩], true, false, 0, []⟩ := by rfl
  have hcompletes : counterGpu.process 8 0 4
        ⟨[⟨16, 16, 2, 2, 0⟩, ⟨0, 0, 4, 4, 4⟩], true, false, 1, []⟩ =
      .ok ⟨[], false, true, 1, [⟨[16, 0], 2⟩, ⟨[0], 4⟩]⟩ := by rfl
  have hruns : Runs counterGpu (fun _ _ => 1) 0 4 0 1 _ := .again .start hsuspends rfl
  exact ⟨_, hruns, 8, _, hcompletes, rfl, rfl, ((process_flattens hruns).2.1 8 _ hcompletes).1⟩

end Prosperismo.Pm4
