import Prosperismo.Pm4.Flatten

/-!
# The packet loop and the loop without recursion

`processPm4` executes an indirect buffer by recursion and leaves the advances of the calling
packets in their cursors only on the way out of a suspended run; `tick` leaves them there at
once. `processPm4_sim` relates the two: from the same cursors above the stop depth, the
recursive loop ends exactly when a run of `tick` does, and leaves the same cursors there.
What lies below the stop depth is untouched, so it may differ between the two, as the
deferred advances of the callers do.
-/

namespace Prosperismo.Pm4

variable {σ : Type} {g : Gpu σ} {env : ℕ → σ → σ}

/-- The run of the loop without recursion down to a stack of `stop` buffers. -/
def ticks (g : Gpu σ) (stop : ℕ) : ℕ → State σ → Result (State σ) :=
  runUntil (fun s => s.stack.length ≤ stop) (tick g)

/-- An iteration that is made. -/
theorem ticks_succ {stop n : ℕ} {s s₁ : State σ} (hlen : stop < s.stack.length)
    (h : tick g s = .running s₁) : ticks g stop (n + 1) s = ticks g stop n s₁ := by
  simp only [ticks, runUntil, h, decide_eq_true_eq]
  rw [if_neg (Nat.not_le.2 hlen)]

/-- A run of iterations, continued. -/
theorem ticks_add {stop n m : ℕ} {s s₁ : State σ} (h : ticks g stop n s = .running s₁) :
    ticks g stop (n + m) s = ticks g stop m s₁ :=
  runUntil_running h

/-- A run down to `stop₁` buffers is the beginning of a run down to fewer. -/
theorem ticks_mono {stop stop₁ : ℕ} (hstop : stop ≤ stop₁) (n : ℕ) (s : State σ) :
    (∀ s', ticks g stop₁ n s = .running s' → ticks g stop n s = .running s') ∧
    (ticks g stop₁ n s = .exit → ticks g stop n s = .exit) ∧
    (∀ s', ticks g stop₁ n s = .ok s' →
      (∃ k, ticks g stop k s = .running s' ∧ s'.stack.length ≤ stop₁) ∨
        ticks g stop n s = .ok s' ∧ ∃ s₀, stop₁ < s₀.stack.length ∧ tick g s₀ = .ok s') := by
  have hhalted : ∀ s : State σ, decide (s.stack.length ≤ stop) = true →
      decide (s.stack.length ≤ stop₁) = true :=
    fun s h => decide_eq_true (Nat.le_trans (of_decide_eq_true h) hstop)
  obtain ⟨hrunning, hexit, hok⟩ := runUntil_mono hhalted n s
  refine ⟨hrunning, hexit, fun s' h => ?_⟩
  rcases hok s' h with ⟨k, hk, hs'⟩ | ⟨hn, s₀, hs₀, htick⟩
  · exact .inl ⟨k, hk, of_decide_eq_true hs'⟩
  · exact .inr ⟨hn, s₀, Nat.lt_of_not_le fun h => hs₀ (decide_eq_true h), htick⟩

/-- The loop ends by itself only at a wait. -/
theorem tick_suspended {s s₁ : State σ} (h : tick g s = .ok s₁) (hstack : s.stack ≠ []) :
    s₁.suspended = true := by
  have hblocked := @tick_blocked σ g (fun _ x => x) s s₁ h hstack
  rw [hblocked.1]

/-! ### Termination -/

/-- The run of a buffer that lies above `rest`: it reaches the end of the buffer in the state
`x'`, or a wait that is not satisfied. -/
def EndsOrWaits (g : Gpu σ) (stop : ℕ) (rest : List Cursor) (k : ℕ) (e : Ending σ) (s : State σ) :
    Prop :=
  (∃ x' n s₁, e = .finished k x' ∧ ticks g stop n s = .running s₁ ∧ s₁.stack = rest ∧
    s₁.gpu = x') ∨ ∃ n s₁, ticks g stop n s = .ok s₁

/-- Iterations made before the run. -/
theorem EndsOrWaits.before {stop n k : ℕ} {rest : List Cursor} {e : Ending σ} {s s₁ : State σ}
    (hn : ticks g stop n s = .running s₁) (h : EndsOrWaits g stop rest k e s₁) :
    EndsOrWaits g stop rest k e s := by
  rcases h with ⟨x', m, s₂, he, hm, hs₂⟩ | ⟨m, s₂, hm⟩
  · exact .inl ⟨x', n + m, s₂, he, (ticks_add hn).trans hm, hs₂⟩
  · exact .inr ⟨n + m, s₂, (ticks_add hn).trans hm⟩

/-- An iteration made before the run. -/
theorem EndsOrWaits.step {stop k : ℕ} {c : Cursor} {rest : List Cursor} {e : Ending σ}
    {s s₁ : State σ} (hstop : stop ≤ rest.length) (hstack : s.stack = c :: rest)
    (htick : tick g s = .running s₁) (h : EndsOrWaits g stop rest k e s₁) :
    EndsOrWaits g stop rest k e s := by
  have hlen : stop < s.stack.length := by
    rw [hstack]; exact Nat.lt_succ_of_le hstop
  exact .before (n := 1) (ticks_succ hlen htick) h

/-- A wait that is not satisfied ends the run. -/
theorem EndsOrWaits.blocked {stop k dw : ℕ} {c : Cursor} {rest : List Cursor} {e : Ending σ}
    {s : State σ} (hstop : stop ≤ rest.length) (hstack : s.stack = c :: rest)
    (hdeferred : c.deferred = 0) (hmore : c.remaining ≠ 0)
    (hattempt : g.attempt s.gpu c = some (.blocked dw)) (hdw : dw ≤ c.remaining) :
    EndsOrWaits g stop rest k e s := by
  refine .inr ⟨1, { s with suspended := true }, ?_⟩
  have htick : tick g s = .ok { s with suspended := true } := by
    rw [tick_attempt hstack hdeferred hmore, hattempt]
    exact if_neg (Nat.not_lt.2 hdw)
  have hlen : ¬ s.stack.length ≤ stop := by
    rw [hstack]; exact Nat.not_le.2 (Nat.lt_succ_of_le hstop)
  simp only [ticks, runUntil, htick, decide_eq_true_eq, if_neg hlen]

/-- **What can be executed is executed.** Where the flattening of the packets at a cursor
exists, the loop reaches the end of its buffer or an unsatisfied wait. -/
theorem flat_terminates {outer : List ℕ} {c : Cursor} {k : ℕ} {x : σ} {evs : List Completed}
    {e : Ending σ} (h : Flat g env outer c k x evs e) :
    ∀ (rest : List Cursor) (s : State σ), addresses rest = outer → c.deferred = 0 →
      s.stack = c :: rest → s.gpu = x → ∀ stop ≤ rest.length,
      EndsOrWaits g stop rest k e s := by
  induction h with
  | @nil outer c k x hend =>
    intro rest s _ hdeferred hstack hgpu stop hstop
    exact .step hstop hstack (tick_end hstack hdeferred hend)
      (.inl ⟨x, 0, _, rfl, rfl, rfl, hgpu⟩)
  | @filler outer c k x evs e hmore hattempt _ ih =>
    intro rest s houter hdeferred hstack hgpu stop hstop
    subst hgpu
    have htick : tick g s = .running (s.pass c rest 1) := by
      rw [tick_attempt hstack hdeferred hmore, hattempt]
      rfl
    exact .step hstop hstack htick (ih rest (s.pass c rest 1) houter hdeferred rfl rfl stop hstop)
  | @skipped outer c k dw x evs e hmore hattempt _ ih =>
    intro rest s houter hdeferred hstack hgpu stop hstop
    subst hgpu
    have htick : tick g s = .running (s.pass c rest dw) := by
      rw [tick_attempt hstack hdeferred hmore, hattempt]
      rfl
    exact .step hstop hstack htick (ih rest (s.pass c rest dw) houter hdeferred rfl rfl stop hstop)
  | @done outer c k dw x y evs e hmore hattempt hdw _ ih =>
    intro rest s houter hdeferred hstack hgpu stop hstop
    subst hgpu
    have htick : tick g s = .running (State.finish { s with gpu := y } c rest dw) := by
      rw [tick_attempt hstack hdeferred hmore, hattempt]
      exact if_neg (Nat.not_lt.2 hdw)
    have hstack₁ : (State.finish { s with gpu := y } c rest dw).stack = c.advance dw :: rest := by
      simp [State.finish, Cursor.advance, hdeferred]
    exact .step hstop hstack htick (ih rest (State.finish { s with gpu := y } c rest dw) houter
      hdeferred hstack₁ rfl stop hstop)
  | waiting hmore hattempt hdw =>
    intro rest s _ hdeferred hstack hgpu stop hstop
    exact .blocked hstop hstack hdeferred hmore (hgpu ▸ hattempt) hdw
  | again hmore hattempt hdw =>
    intro rest s _ hdeferred hstack hgpu stop hstop
    exact .blocked hstop hstack hdeferred hmore (hgpu ▸ hattempt) hdw
  | @call outer c k k₁ dw buffer sizeDw x x₁ inner evs e hmore hattempt hdw _ _ ihinner ihrest =>
    intro rest s houter hdeferred hstack hgpu stop hstop
    subst hgpu
    subst houter
    have htick := tick_attempt (g := g) hstack hdeferred hmore
    rw [hattempt] at htick
    refine .step hstop hstack (htick.trans (if_neg (Nat.not_lt.2 hdw))) ?_
    rcases ihinner ({ c with deferred := dw } :: rest) { s with
        stack := .fresh buffer sizeDw :: { c with deferred := dw } :: rest } rfl rfl rfl rfl stop
      (Nat.le_succ_of_le hstop) with ⟨x', n, s₂, he, hn, hs₂, rfl⟩ | hblocked
    · -- the called buffer has ended: its caller's packet has been executed
      cases he
      refine .before hn (.step hstop hs₂ (tick_deferred hs₂ (attempt_call_pos hattempt) hdw) ?_)
      have hstack₃ : (s₂.finish { c with deferred := dw } rest dw).stack =
          c.advance dw :: rest := by
        simp [State.finish, Cursor.advance, hdeferred]
      exact ihrest rest (s₂.finish { c with deferred := dw } rest dw) rfl hdeferred hstack₃ rfl
        stop hstop
    · exact .inr hblocked
  | @callWaiting outer c k k₁ dw buffer sizeDw x x₁ inner hmore hattempt hdw _ ihinner =>
    intro rest s houter hdeferred hstack hgpu stop hstop
    subst hgpu
    subst houter
    have htick := tick_attempt (g := g) hstack hdeferred hmore
    rw [hattempt] at htick
    refine .step hstop hstack (htick.trans (if_neg (Nat.not_lt.2 hdw))) ?_
    rcases ihinner ({ c with deferred := dw } :: rest) { s with
        stack := .fresh buffer sizeDw :: { c with deferred := dw } :: rest } rfl rfl rfl rfl stop
      (Nat.le_succ_of_le hstop) with ⟨x', n, s₂, he, -⟩ | hblocked
    · cases he
    · exact .inr hblocked

/-- **The loop ends.** Where what remains of a stack can be executed, the loop ends. -/
theorem Rest.terminates {stack : List Cursor} {k : ℕ} {evs : List Completed} {e : Ending σ}
    {s : State σ} (h : Rest g env stack k s.gpu evs e) (hstack : s.stack = stack) :
    ∃ n s₁, ticks g 0 n s = .ok s₁ := by
  induction stack generalizing k evs s with
  | nil =>
    refine ⟨1, s, ?_⟩
    simp [ticks, runUntil, hstack]
  | cons c rest ih =>
    obtain ⟨hdw, evs₁, e₁, evs₂, -, hc, hrest⟩ := h
    -- the innermost buffer, once the advance left in its cursor has been made
    have hbuffer : ∀ s₀ : State σ, s₀.stack = c.settle :: rest → s₀.gpu = s.gpu →
        ∃ n s₁, ticks g 0 n s₀ = .ok s₁ := by
      intro s₀ hstack₀ hgpu
      rcases flat_terminates hc rest s₀ rfl rfl hstack₀ hgpu 0 (Nat.zero_le _) with
        ⟨x', n, s₂, rfl, hn, hs₂, rfl⟩ | hblocked
      · obtain ⟨m, s₃, hm⟩ := ih hrest hs₂
        exact ⟨n + m, s₃, (ticks_add hn).trans hm⟩
      · exact hblocked
    by_cases hdeferred : c.deferred = 0
    · exact hbuffer s (by rw [hstack, Cursor.settle_of_none hdeferred]) rfl
    · have htick : tick g s = .running (s.finish c rest c.deferred) :=
        tick_deferred hstack hdeferred hdw
      obtain ⟨n, s₁, hn⟩ := hbuffer (s.finish c rest c.deferred) rfl rfl
      exact ⟨n + 1, s₁, (ticks_succ (by simp [hstack]) htick).trans hn⟩

/-! ### The recursive loop -/

/-- What a run of `processPm4` above the cursors `low` says about the run of `tick` from
`t`, the same state above `low'`. -/
def Simulates (g : Gpu σ) (fuel : ℕ) (low low' : List Cursor) (t : State σ) :
    Result (State σ) → Prop
  | .exit => ∃ n, ticks g low.length n t = .exit
  | .running _ => (∃ n t', fuel ≤ n ∧ ticks g low.length n t = .running t') ∨
      ∃ n, ticks g low.length n t = .exit
  | .ok s' => ∃ top, s'.stack = top ++ low ∧
      (s'.suspended = true ∧ top ≠ [] ∨ s'.suspended = false ∧ top = []) ∧
      ∃ n, ticks g low.length n t = .ok { s' with stack := top ++ low' }

/-- Iterations made before the compared run. -/
theorem Simulates.before {fuel n : ℕ} {low low' : List Cursor} {t t₁ : State σ}
    {r : Result (State σ)} (h : Simulates g fuel low low' t₁ r)
    (hn : ticks g low.length n t = .running t₁) : Simulates g (n + fuel) low low' t r := by
  cases r with
  | exit =>
    obtain ⟨m, hm⟩ := h
    exact ⟨n + m, (ticks_add hn).trans hm⟩
  | running s' =>
    rcases h with ⟨m, t', hm, hrunning⟩ | ⟨m, hm⟩
    · exact .inl ⟨n + m, t', Nat.add_le_add_left hm n, (ticks_add hn).trans hrunning⟩
    · exact .inr ⟨n + m, (ticks_add hn).trans hm⟩
  | ok s' =>
    obtain ⟨top, hstack, hsuspended, m, hm⟩ := h
    exact ⟨top, hstack, hsuspended, n + m, (ticks_add hn).trans hm⟩

/-- The comparison with less fuel. -/
theorem Simulates.mono {fuel fuel' : ℕ} {low low' : List Cursor} {t : State σ}
    {r : Result (State σ)} (h : Simulates g fuel low low' t r) (hle : fuel' ≤ fuel) :
    Simulates g fuel' low low' t r := by
  cases r with
  | exit => exact h
  | ok s' => exact h
  | running s' =>
    rcases h with ⟨m, t', hm, hrunning⟩ | hexit
    · exact .inl ⟨m, t', Nat.le_trans hle hm, hrunning⟩
    · exact .inr hexit

/-- A single iteration made before the compared run. -/
theorem Simulates.step {fuel : ℕ} {low low' : List Cursor} {t t₁ : State σ}
    {r : Result (State σ)} (h : Simulates g fuel low low' t₁ r)
    (hlen : low.length < t.stack.length) (htick : tick g t = .running t₁) :
    Simulates g (fuel + 1) low low' t r := by
  rw [Nat.add_comm]
  refine h.before ?_
  rw [ticks_succ hlen htick]
  rfl

/-- The deferred advance goes to the cursor that has `low` below it. -/
theorem setDeferred_append (top low : List Cursor) (c : Cursor) (dw : ℕ) :
    Gpu.setDeferred low.length dw (top ++ c :: low) = top ++ { c with deferred := dw } :: low := by
  induction top with
  | nil => simp [Gpu.setDeferred]
  | cons d top ih =>
    have hlen : ¬ (top ++ c :: low).length = low.length := by
      simp only [List.length_append, List.length_cons]
      omega
    simp only [List.cons_append, Gpu.setDeferred, if_neg hlen, ih]

/-- The iteration after a called buffer has ended. -/
theorem Simulates.finish {fuel : ℕ} {low low' up : List Cursor} {c : Cursor} {dw : ℕ}
    {s : State σ} {r : Result (State σ)} (haddr : addresses low' = addresses low)
    (hdeferred : dw ≠ 0) (hdw : dw ≤ c.remaining)
    (h : Simulates g fuel low low'
      { s.finish c (up ++ low) dw with
        stack := { c.advance dw with deferred := 0 } :: up ++ low' } r) :
    Simulates g (fuel + 1) low low'
      { s with stack := { c with deferred := dw } :: (up ++ low') } r := by
  have hlength : low'.length = low.length := by
    simpa [addresses] using congrArg List.length haddr
  have hrest : addresses (up ++ low') = addresses (up ++ low) := by
    simp only [addresses, List.map_append]
    exact congrArg _ haddr
  refine h.step ?_ ?_
  · simp only [List.length_cons, List.length_append, hlength]
    omega
  · rw [tick_deferred rfl hdeferred hdw]
    simp only [State.finish, hrest, List.cons_append]
    rfl

/-- **The simulation at a calling packet**, for a loop that is simulated with less fuel. -/
theorem simulates_call {fuel : ℕ}
    (ih : ∀ (top low low' : List Cursor) (s : State σ), s.stack = top ++ low →
      addresses low' = addresses low → s.suspended = false →
      Simulates g fuel low low' { s with stack := top ++ low' } (g.processPm4 fuel low.length s))
    {low low' up : List Cursor} {c : Cursor} {s : State σ} {dw buffer sizeDw : ℕ}
    (hstack : s.stack = c :: (up ++ low)) (haddr : addresses low' = addresses low)
    (hsuspended : s.suspended = false) (hdeferred : c.deferred = 0) (hmore : c.remaining ≠ 0)
    (hattempt : g.attempt s.gpu c = some (.call dw buffer sizeDw)) :
    Simulates g (fuel + 1) low low' { s with stack := c :: (up ++ low') }
      (match Gpu.processIndirectBuffer (g.processPm4 fuel) s buffer sizeDw with
        | .exit => .exit
        | .running s' => .running s'
        | .ok s' => Gpu.afterCall (g.processPm4 fuel low.length) c (up ++ low).length dw s') := by
  have hlength : low'.length = low.length := by
    simpa [addresses] using congrArg List.length haddr
  have hrest : addresses (up ++ low') = addresses (up ++ low) := by
    simp only [addresses, List.map_append]
    exact congrArg _ haddr
  have hpos : dw ≠ 0 := attempt_call_pos hattempt
  set t : State σ := { s with stack := c :: (up ++ low') } with ht
  have htlen : low.length < t.stack.length := by
    simp only [ht, List.length_cons, List.length_append, hlength]
    omega
  have htick : tick g t = tickAfter t c (up ++ low') (some (.call dw buffer sizeDw)) := by
    rw [← hattempt]
    exact tick_attempt rfl hdeferred hmore
  by_cases hdw : c.remaining < dw
  · -- the packet does not fit: the loop without recursion stops before the call
    have hexit : ticks g low.length 1 t = .exit := by
      have htick' : tick g t = .exit := htick.trans (if_pos hdw)
      simp only [ticks, runUntil, htick', decide_eq_true_eq, if_neg (Nat.not_le.2 htlen)]
    cases Gpu.processIndirectBuffer (g.processPm4 fuel) s buffer sizeDw with
    | exit => exact ⟨1, hexit⟩
    | running s' => exact .inr ⟨1, hexit⟩
    | ok s' =>
      simp only [Gpu.afterCall, if_pos hdw]
      exact ⟨1, hexit⟩
  · have hle : dw ≤ c.remaining := Nat.le_of_not_lt hdw
    have htick₁ : tick g t = .running { s with
        stack := .fresh buffer sizeDw :: { c with deferred := dw } :: (up ++ low') } :=
      htick.trans (if_neg hdw)
    by_cases hsize : sizeDw = 0
    · -- an empty buffer is not pushed
      have hcall : Gpu.processIndirectBuffer (g.processPm4 fuel) s buffer sizeDw = .ok s :=
        if_pos hsize
      rw [hcall]
      simp only [Gpu.afterCall, if_neg hdw, hsuspended, hstack, ne_eq, not_true_eq_false,
        if_false, Bool.false_eq_true]
      have hloop := ih ({ c.advance dw with deferred := 0 } :: up) low low'
        (s.finish c (up ++ low) dw) rfl haddr hsuspended
      have hended := (Simulates.finish (s := s) haddr hpos hle hloop).step (t := { s with
        stack := .fresh buffer sizeDw :: { c with deferred := dw } :: (up ++ low') })
        (by simp only [List.length_cons, List.length_append, hlength]; omega)
        (tick_end rfl rfl hsize)
      exact (hended.step htlen htick₁).mono (by omega)
    · -- the called buffer, above the stack with the advance left in the caller's cursor
      set low₁ : List Cursor := c :: (up ++ low) with hlow₁
      set low₁' : List Cursor := { c with deferred := dw } :: (up ++ low') with hlow₁'
      have haddr₁ : addresses low₁' = addresses low₁ := by
        simpa [hlow₁, hlow₁', addresses] using haddr
      have hcall : Gpu.processIndirectBuffer (g.processPm4 fuel) s buffer sizeDw =
          g.processPm4 fuel low₁.length { s with stack := .fresh buffer sizeDw :: s.stack } := by
        rw [Gpu.processIndirectBuffer, if_neg hsize, hstack]
      have hnested := ih [.fresh buffer sizeDw] low₁ low₁'
        { s with stack := .fresh buffer sizeDw :: s.stack } (by rw [hstack]; rfl) haddr₁ hsuspended
      have hstop : low.length ≤ low₁.length := by
        simp only [hlow₁, List.length_cons, List.length_append]
        omega
      have hmono := fun n (s : State σ) => ticks_mono (g := g) hstop n s
      rw [hcall]
      cases hresult : g.processPm4 fuel low₁.length
          { s with stack := .fresh buffer sizeDw :: s.stack } with
      | exit =>
        rw [hresult] at hnested
        obtain ⟨n, hn⟩ := hnested
        refine ⟨n + 1, ?_⟩
        rw [ticks_succ htlen htick₁]
        exact (hmono n _).2.1 hn
      | running s' =>
        rw [hresult] at hnested
        rcases hnested with ⟨n, t', hfuel, hn⟩ | ⟨n, hn⟩
        · refine .inl ⟨n + 1, t', Nat.succ_le_succ hfuel, ?_⟩
          rw [ticks_succ htlen htick₁]
          exact (hmono n _).1 t' hn
        · refine .inr ⟨n + 1, ?_⟩
          rw [ticks_succ htlen htick₁]
          exact (hmono n _).2.1 hn
      | ok s' =>
        rw [hresult] at hnested
        obtain ⟨top, hstack', hended, n, hn⟩ := hnested
        simp only [Gpu.afterCall, if_neg hdw]
        rcases hended with ⟨hsuspended', htop⟩ | ⟨hsuspended', rfl⟩
        · -- suspended inside: the advance is left in the caller's cursor
          have hdeep : (up ++ low).length + 1 < s'.stack.length := by
            have := List.length_pos_iff.2 htop
            simp only [hstack', hlow₁, List.length_append, List.length_cons] at this ⊢
            omega
          rw [if_pos hsuspended', if_pos hdeep, hstack', hlow₁, setDeferred_append]
          refine ⟨top ++ { c with deferred := dw } :: up, by simp, .inl ⟨hsuspended', by simp⟩,
            n + 1, ?_⟩
          rw [ticks_succ htlen htick₁]
          rcases (hmono n _).2.2 _ hn with ⟨k, -, hhalted⟩ | ⟨hok, -⟩
          · -- a suspended run has not come down to the caller
            have hshort : low₁'.length = low₁.length := by
              simp [hlow₁, hlow₁', hlength]
            simp only [List.length_append, hshort] at hhalted
            exact absurd (List.length_pos_iff.2 htop) (by omega)
          · simpa [hlow₁'] using hok
        · -- the called buffer has ended
          rw [List.nil_append] at hstack' hn
          simp only [hsuspended', Bool.false_eq_true, if_false, hstack', hlow₁, ne_eq,
            not_true_eq_false]
          have hloop := ih ({ c.advance dw with deferred := 0 } :: up) low low'
            (s'.finish c (up ++ low) dw) rfl haddr hsuspended'
          have hafter := Simulates.finish (s := s') haddr hpos hle hloop
          rcases (hmono n _).2.2 _ hn with ⟨k, hk, -⟩ | ⟨-, s₀, hs₀, hok⟩
          · have hrun : ticks g low.length (k + 1) t = .running { s' with stack := low₁' } := by
              rw [ticks_succ htlen htick₁]
              exact hk
            exact (hafter.before hrun).mono (by omega)
          · -- the loop without recursion suspends only at a wait
            have hs₀' : s₀.stack ≠ [] := by
              intro h
              simp [h] at hs₀
            have := tick_suspended hok hs₀'
            rw [show ({ s' with stack := low₁' } : State σ).suspended = s'.suspended from rfl,
              hsuspended'] at this
            cases this

/-- **The recursive loop is the loop without recursion.** -/
theorem processPm4_sim (fuel : ℕ) : ∀ (top low low' : List Cursor) (s : State σ),
    s.stack = top ++ low → addresses low' = addresses low → s.suspended = false →
    Simulates g fuel low low' { s with stack := top ++ low' } (g.processPm4 fuel low.length s) := by
  induction fuel with
  | zero =>
    intro top low low' s hstack haddr hsuspended
    exact .inl ⟨0, _, Nat.le_refl 0, rfl⟩
  | succ fuel ih =>
    intro top low low' s hstack haddr hsuspended
    have hlength : low'.length = low.length := by
      simpa [addresses] using congrArg List.length haddr
    cases top with
    | nil =>
      -- the loop has come down to the stop depth
      have hok : g.processPm4 (fuel + 1) low.length s = .ok s := by
        rw [List.nil_append] at hstack
        simp only [Gpu.processPm4, hstack]
        cases low with
        | nil => rfl
        | cons c rest => simp
      rw [hok]
      refine ⟨[], hstack, .inr ⟨hsuspended, rfl⟩, 1, ?_⟩
      simp [ticks, runUntil, hlength]
    | cons c up =>
      rw [List.cons_append] at hstack
      have hlen : ¬ (up ++ low).length + 1 ≤ low.length := by
        simp only [List.length_append]
        omega
      set t : State σ := { s with stack := c :: (up ++ low') } with ht
      have htlen : low.length < t.stack.length := by
        simp only [ht, List.length_cons, List.length_append, hlength]
        omega
      have hrest : addresses (up ++ low') = addresses (up ++ low) := by
        simp only [addresses, List.map_append]
        exact congrArg _ haddr
      -- one iteration, and then the recursive loop
      have hnext : ∀ (s₁ : State σ) (top₁ : List Cursor), s₁.stack = top₁ ++ low →
          s₁.suspended = false → tick g t = .running { s₁ with stack := top₁ ++ low' } →
          Simulates g (fuel + 1) low low' t (g.processPm4 fuel low.length s₁) :=
        fun s₁ top₁ hstack₁ hsuspended₁ htick =>
          (ih top₁ low low' s₁ hstack₁ haddr hsuspended₁).step htlen htick
      -- the iteration stops the process
      have hexit : tick g t = .exit → ∃ n, ticks g low.length n t = .exit := by
        intro htick
        refine ⟨1, ?_⟩
        simp only [ticks, runUntil, htick, decide_eq_true_eq, if_neg (Nat.not_le.2 htlen)]
      show Simulates g (fuel + 1) low low' t (g.processPm4 (fuel + 1) low.length s)
      simp only [Gpu.processPm4, hstack, if_neg hlen]
      by_cases hdeferred : c.deferred = 0
      · rw [if_neg (not_not.2 hdeferred)]
        by_cases hmore : c.remaining = 0
        · -- the buffer ends
          rw [if_pos hmore]
          exact hnext _ up rfl hsuspended (tick_end rfl hdeferred hmore)
        · rw [if_neg hmore]
          have htick : tick g t = tickAfter t c (up ++ low') (g.attempt s.gpu c) :=
            tick_attempt rfl hdeferred hmore
          cases hattempt : g.attempt s.gpu c with
          | none =>
            rw [hattempt] at htick
            exact hexit htick
          | some a =>
            rw [hattempt] at htick
            cases a with
            | filler => exact hnext _ (c.advance 1 :: up) rfl hsuspended htick
            | skipped dw => exact hnext _ (c.advance dw :: up) rfl hsuspended htick
            | done dw y =>
              simp only [tickAfter] at htick ⊢
              split
              · rename_i hdw
                rw [if_pos hdw] at htick
                exact hexit htick
              · rename_i hdw
                rw [if_neg hdw] at htick
                refine hnext _ ({ c.advance dw with deferred := 0 } :: up) rfl hsuspended ?_
                rw [htick]
                simp only [State.finish, hrest, ht, List.cons_append]
            | blocked dw =>
              simp only [tickAfter] at htick ⊢
              split
              · rename_i hdw
                rw [if_pos hdw] at htick
                exact hexit htick
              · rename_i hdw
                rw [if_neg hdw] at htick
                refine ⟨c :: up, rfl, .inl ⟨rfl, List.cons_ne_nil _ _⟩, 1, ?_⟩
                simp only [ticks, runUntil, htick, decide_eq_true_eq, if_neg (Nat.not_le.2 htlen)]
                rfl
            | call dw buffer sizeDw =>
              exact simulates_call ih hstack haddr hsuspended hdeferred hmore hattempt
      · -- the advance of a packet that called a buffer
        rw [if_pos hdeferred]
        split
        · rename_i hdw
          refine hexit ?_
          simp only [tick, ht, if_pos hdeferred, if_pos hdw]
        · rename_i hdw
          refine hnext _ ({ c.advance c.deferred with deferred := 0 } :: up) rfl hsuspended ?_
          rw [tick_deferred rfl hdeferred (Nat.le_of_not_lt hdw)]
          simp only [State.finish, hrest, ht, List.cons_append]

end Prosperismo.Pm4
