import Prosperismo.Pm4.Simulation

/-!
# The stack of cursors

What the packet loop keeps of its stack. A property of cursors that an iteration keeps holds
in every state the loop reaches (`processPm4_forall`); the first such property is that a
cursor stays inside its buffer (`inside_invariant`). `Ordered` says that no packet is executed
twice: a packet that has been executed lies before the position of the stack, and the positions
only grow.
-/

namespace Prosperismo.Pm4

variable {σ : Type} {g : Gpu σ} {env : ℕ → σ → σ}

/-! ### Properties of cursors -/

/-- A property of cursors that the packet loop keeps. -/
structure CursorInvariant (g : Gpu σ) (P : Cursor → Prop) : Prop where
  fresh : ∀ buffer sizeDw, P (.fresh buffer sizeDw)
  moved : ∀ x c a, P c → c.deferred = 0 → c.remaining ≠ 0 → g.attempt x c = some a →
    a.words ≤ c.remaining → P (c.advance a.words) ∧ P { c with deferred := a.words }
  settled : ∀ c, P c → c.deferred ≠ 0 → c.deferred ≤ c.remaining → P c.settle

/-- What the recursive loop leaves of the stack below the stop depth. -/
theorem processPm4_frame {fuel : ℕ} (top : List Cursor) {low : List Cursor} {s s' : State σ}
    (hstack : s.stack = top ++ low) (hsuspended : s.suspended = false)
    (h : g.processPm4 fuel low.length s = .ok s') :
    ∃ top', s'.stack = top' ++ low ∧
      (s'.suspended = true ∧ top' ≠ [] ∨ s'.suspended = false ∧ top' = []) := by
  have hsim := processPm4_sim (g := g) fuel top low low s hstack rfl hsuspended
  rw [h] at hsim
  obtain ⟨top', hstack', hended, -⟩ := hsim
  exact ⟨top', hstack', hended⟩

/-- The end of a call keeps what the loop keeps. -/
theorem afterCall_forall {P : Cursor → Prop} {loop : State σ → Result (State σ)} {c : Cursor}
    {rest : List Cursor} (top : List Cursor) (dw : ℕ) {s s' : State σ}
    (hdeferred : c.deferred = 0)
    (hmoved : dw ≤ c.remaining → P (c.advance dw) ∧ P { c with deferred := dw })
    (hstack : s.stack = top ++ c :: rest)
    (hended : s.suspended = true ∧ top ≠ [] ∨ s.suspended = false ∧ top = [])
    (hall : ∀ d ∈ s.stack, P d)
    (hloop : ∀ s₁ s' : State σ, s₁.suspended = false → (∀ d ∈ s₁.stack, P d) →
      (loop s₁).Reaches s' → ∀ d ∈ s'.stack, P d)
    (h : (Gpu.afterCall loop c rest.length dw s).Reaches s') : ∀ d ∈ s'.stack, P d := by
  rw [Gpu.afterCall] at h
  split at h
  · rcases h with h | h <;> cases h
  rename_i hdw
  have hmoved := hmoved (Nat.le_of_not_lt hdw)
  rw [hstack] at hall
  rcases hended with ⟨hsuspended, htop⟩ | ⟨hsuspended, rfl⟩
  · -- the advance is left in the caller's cursor
    rw [if_pos hsuspended] at h
    split at h <;> rcases h with h | h <;> cases h
    · intro d hd
      simp only [hstack, setDeferred_append, List.mem_append, List.mem_cons] at hd
      rcases hd with hd | rfl | hd
      · exact hall d (List.mem_append_left _ hd)
      · exact hmoved.2
      · exact hall d (List.mem_append_right _ (List.mem_cons_of_mem c hd))
    · rw [hstack]
      exact hall
  · rw [List.nil_append] at hstack hall
    simp only [hsuspended, Bool.false_eq_true, if_false, hstack, ne_eq, not_true_eq_false] at h
    refine hloop (s.finish c rest dw) s' hsuspended ?_ h
    refine List.forall_mem_cons.2 ⟨?_, fun d hd => hall d (List.mem_cons_of_mem c hd)⟩
    simpa [Cursor.advance, hdeferred] using hmoved.1

/-- **The packet loop keeps what its iterations keep**, in every state it reaches. -/
theorem processPm4_forall {P : Cursor → Prop} (hP : CursorInvariant g P) {fuel : ℕ} :
    ∀ {stop : ℕ} {s s' : State σ}, s.suspended = false → (∀ c ∈ s.stack, P c) →
      (g.processPm4 fuel stop s).Reaches s' → ∀ c ∈ s'.stack, P c := by
  induction fuel with
  | zero =>
    rintro stop s s' - hall (h | h) <;> cases h
    exact hall
  | succ fuel ih =>
    intro stop s s' hsuspended hall h
    simp only [Gpu.processPm4] at h
    cases hstack : s.stack with
    | nil =>
      rw [hstack] at h
      rcases h with h | h <;> cases h
      exact hall
    | cons c rest =>
      have hc : P c := hall c (hstack ▸ List.mem_cons_self)
      have hrest : ∀ d ∈ rest, P d := fun d hd => hall d (hstack ▸ List.mem_cons_of_mem c hd)
      -- an iteration that replaces the innermost cursor by `d`
      have hnext : ∀ (s₁ : State σ) (d : Cursor), s₁.stack = d :: rest → s₁.suspended = false →
          P d → (g.processPm4 fuel stop s₁).Reaches s' → ∀ c ∈ s'.stack, P c := by
        intro s₁ d hstack₁ hsuspended₁ hd h
        refine ih hsuspended₁ ?_ h
        rw [hstack₁]
        exact List.forall_mem_cons.2 ⟨hd, hrest⟩
      simp only [hstack] at h
      split at h
      · rcases h with h | h <;> cases h
        exact hall
      by_cases hdeferred : c.deferred = 0
      · rw [if_neg (not_not.2 hdeferred)] at h
        by_cases hmore : c.remaining = 0
        · rw [if_pos hmore] at h
          exact ih (s := { s with stack := rest }) hsuspended hrest h
        · rw [if_neg hmore] at h
          cases hattempt : g.attempt s.gpu c with
          | none => rw [hattempt] at h; rcases h with h | h <;> cases h
          | some a =>
            have hmoved := hP.moved s.gpu c a hc hdeferred hmore hattempt
            rw [hattempt] at h
            cases a with
            | filler =>
              exact hnext (s.pass c rest 1) _ rfl hsuspended
                (hmoved (Nat.pos_of_ne_zero hmore)).1 h
            | skipped dw =>
              exact hnext (s.pass c rest dw) _ rfl hsuspended
                (hmoved (attempt_skipped_le hattempt)).1 h
            | done dw y =>
              simp only at h
              split at h
              · rcases h with h | h <;> cases h
              · rename_i hdw
                refine hnext (State.finish { s with gpu := y } c rest dw) _ rfl hsuspended ?_
                  (by simpa [State.finish] using h)
                have := (hmoved (Nat.le_of_not_lt hdw)).1
                simpa [Cursor.advance, Gpu.Attempt.words, hdeferred] using this
            | blocked dw =>
              simp only at h
              split at h <;> rcases h with h | h <;> cases h
              rw [← hstack]
              exact hall
            | call dw buffer sizeDw =>
              have hloop : ∀ s₁ s' : State σ, s₁.suspended = false → (∀ d ∈ s₁.stack, P d) →
                  (g.processPm4 fuel stop s₁).Reaches s' → ∀ d ∈ s'.stack, P d :=
                fun s₁ s' hs₁ hall₁ h => ih hs₁ hall₁ h
              simp only [Gpu.processIndirectBuffer] at h
              by_cases hsize : sizeDw = 0
              · simp only [if_pos hsize] at h
                exact afterCall_forall [] dw hdeferred hmoved hstack
                  (.inr ⟨hsuspended, rfl⟩) hall hloop h
              · -- the states inside the called buffer, and those after it
                simp only [if_neg hsize] at h
                have hinner : ∀ s₁, (g.processPm4 fuel s.stack.length
                    { s with stack := .fresh buffer sizeDw :: s.stack }).Reaches s₁ →
                    ∀ d ∈ s₁.stack, P d :=
                  fun s₁ h => ih (s := { s with stack := .fresh buffer sizeDw :: s.stack })
                    hsuspended (List.forall_mem_cons.2 ⟨hP.fresh buffer sizeDw, hall⟩) h
                cases hresult : g.processPm4 fuel s.stack.length
                    { s with stack := .fresh buffer sizeDw :: s.stack } with
                | exit =>
                  simp only [hstack] at hresult h
                  rw [hresult] at h
                  rcases h with h | h <;> cases h
                | running s₁ =>
                  have := hinner s₁ (.inr hresult)
                  simp only [hstack] at hresult h
                  rw [hresult] at h
                  rcases h with h | h <;> cases h
                  exact this
                | ok s₁ =>
                  have hall₁ := hinner s₁ (.inl hresult)
                  obtain ⟨top, hstack₁, hended⟩ := processPm4_frame
                    [.fresh buffer sizeDw]
                    (s := { s with stack := .fresh buffer sizeDw :: s.stack })
                    rfl hsuspended hresult
                  rw [hstack] at hstack₁
                  simp only [hstack] at hresult h
                  rw [hresult] at h
                  exact afterCall_forall top dw hdeferred hmoved hstack₁ hended hall₁ hloop h
      · rw [if_pos hdeferred] at h
        split at h
        · rcases h with h | h <;> cases h
        · rename_i hdw
          exact hnext (s.finish c rest c.deferred) _ rfl hsuspended
            (hP.settled c hc hdeferred (Nat.le_of_not_lt hdw)) (by simpa [State.finish] using h)

/-! ### Cursors stay inside their buffers -/

/-- The cursor's remaining words end where its buffer ends. -/
def Cursor.Inside (c : Cursor) : Prop :=
  c.next + 4 * c.remaining = c.base + 4 * c.total

/-- A move inside the remaining words keeps the cursor inside. -/
theorem Cursor.Inside.advance {c : Cursor} {dw : ℕ} (h : c.Inside) (hdw : dw ≤ c.remaining) :
    (c.advance dw).Inside := by
  simp only [Cursor.Inside, Cursor.advance] at h ⊢
  omega

/-- **The cursors never leave their buffers.** -/
theorem inside_invariant : CursorInvariant g Cursor.Inside where
  fresh _ _ := rfl
  moved _ _ _ hc _ _ _ hdw := ⟨hc.advance hdw, hc⟩
  settled _ hc _ hdw := hc.advance hdw

/-! ### No packet is executed twice -/

/-- A packet that has been executed lies before the position of the stack: at some level its
address is smaller; or it was executed inside the buffer that the innermost packet called. -/
def Past (stack : List Cursor) (path : List ℕ) : Prop :=
  (∃ up c rest inner a, stack = up ++ c :: rest ∧ path = inner ++ a :: addresses rest ∧
    a < c.next) ∨
  ∃ c rest inner, stack = c :: rest ∧ c.deferred ≠ 0 ∧ inner ≠ [] ∧
    path = inner ++ c.next :: addresses rest

/-- The executed packets are pairwise different and lie in the past. -/
structure Ordered (s : State σ) : Prop where
  callers : ∀ c ∈ s.stack.tail, c.deferred ≠ 0
  past : s.stack ≠ [] → ∀ e ∈ s.trace, Past s.stack e.path
  nodup : (s.trace.map Completed.path).Nodup

/-- The past stays the past when the innermost cursor moves on. -/
theorem Past.moved {c d : Cursor} {rest : List Cursor} {path : List ℕ}
    (h : Past (c :: rest) path) (hlt : c.next < d.next) : Past (d :: rest) path := by
  rcases h with ⟨up, c₁, rest₁, inner, a, hstack, hpath, ha⟩ | ⟨c₁, rest₁, inner, hstack, -, -, hpath⟩
  · cases up with
    | nil =>
      cases hstack
      exact .inl ⟨[], d, rest, inner, a, rfl, hpath, Nat.lt_trans ha hlt⟩
    | cons c₂ up =>
      cases hstack
      exact .inl ⟨d :: up, c₁, rest₁, inner, a, rfl, hpath, ha⟩
  · cases hstack
    exact .inl ⟨[], d, rest, inner, c.next, rfl, hpath, hlt⟩

/-- The innermost packet itself does not lie in the past. -/
theorem not_past_self (c : Cursor) (rest : List Cursor) :
    ¬ Past (c :: rest) (c.next :: addresses rest) := by
  rintro (⟨up, c₁, rest₁, inner, a, hstack, hpath, ha⟩ | ⟨c₁, rest₁, inner, hstack, -, hinner, hpath⟩)
  · -- at every level the packet's address is the cursor's
    have haddr : addresses (c :: rest) = addresses up ++ c₁.next :: addresses rest₁ := by
      rw [hstack]
      simp [addresses]
    have heq : addresses up ++ c₁.next :: addresses rest₁ = inner ++ a :: addresses rest₁ :=
      haddr.symm.trans hpath
    obtain ⟨-, hlast⟩ := List.append_inj' heq (by simp)
    cases hlast
    exact Nat.lt_irrefl _ ha
  · cases hstack
    have hlen := congrArg List.length hpath
    simp only [List.length_append, List.length_cons] at hlen
    exact hinner (List.length_eq_zero_iff.1 (by omega))

/-- The packet of the innermost cursor has been executed. -/
theorem Ordered.finish {s : State σ} {c : Cursor} {rest : List Cursor} {dw : ℕ}
    (h : Ordered s) (hstack : s.stack = c :: rest) (hdw : 0 < dw) (y : σ) :
    Ordered (State.finish { s with gpu := y } c rest dw) := by
  have hpast : ∀ e ∈ s.trace, Past (c :: rest) e.path := by
    rw [← hstack]
    exact h.past (by rw [hstack]; exact List.cons_ne_nil _ _)
  have hlt : c.next < c.next + 4 * dw := by omega
  refine ⟨?_, fun _ e he => ?_, ?_⟩
  · simpa [State.finish, hstack] using h.callers
  · rcases List.mem_append.1 he with he | he
    · exact (hpast e he).moved hlt
    · rw [List.mem_singleton.1 he]
      exact .inl ⟨[], _, rest, [], c.next, rfl, rfl, hlt⟩
  · simp only [State.finish, List.map_append, List.map_cons, List.map_nil]
    refine List.nodup_append.2 ⟨h.nodup, List.pairwise_singleton _ _, ?_⟩
    rintro _ hpath _ hself rfl
    obtain ⟨e, he, rfl⟩ := List.mem_map.1 hpath
    refine not_past_self c rest ?_
    rw [← List.mem_singleton.1 hself]
    exact hpast e he

/-- Words of the innermost buffer are passed. -/
theorem Ordered.pass {s : State σ} {c : Cursor} {rest : List Cursor} {dw : ℕ}
    (h : Ordered s) (hstack : s.stack = c :: rest) (hdw : 0 < dw) :
    Ordered (s.pass c rest dw) := by
  have hlt : c.next < c.next + 4 * dw := by omega
  refine ⟨by simpa [State.pass, hstack] using h.callers, fun _ e he => ?_, h.nodup⟩
  have := h.past (by rw [hstack]; exact List.cons_ne_nil _ _) e he
  rw [hstack] at this
  exact this.moved hlt

/-- The innermost buffer ends: what was executed inside it was executed inside the buffer its
caller called. -/
theorem Ordered.pop {s : State σ} {c : Cursor} {rest : List Cursor} (h : Ordered s)
    (hstack : s.stack = c :: rest) (hdeferred : c.deferred = 0) :
    Ordered { s with stack := rest } := by
  have hcallers : ∀ d ∈ rest, d.deferred ≠ 0 := by
    have := h.callers
    rwa [hstack] at this
  refine ⟨fun d hd => hcallers d (List.mem_of_mem_tail hd), fun hrest e he => ?_, h.nodup⟩
  have hpast := h.past (by rw [hstack]; exact List.cons_ne_nil _ _) e he
  rw [hstack] at hpast
  rcases hpast with ⟨up, c₁, rest₁, inner, a, hstack₁, hpath, ha⟩ | ⟨c₁, rest₁, inner, hstack₁, hc₁, -⟩
  · cases up with
    | nil =>
      cases hstack₁
      obtain ⟨d, rest₂, rfl⟩ := List.exists_cons_of_ne_nil hrest
      refine .inr ⟨d, rest₂, inner ++ [a], rfl, hcallers d List.mem_cons_self, by simp, ?_⟩
      rw [hpath]
      simp [addresses]
    | cons c₂ up =>
      cases hstack₁
      exact .inl ⟨up, c₁, rest₁, inner, a, rfl, hpath, ha⟩
  · cases hstack₁
    exact absurd hdeferred hc₁

/-- A buffer is pushed, its caller's advance being left in its cursor. -/
theorem Ordered.push {s : State σ} {c : Cursor} {rest : List Cursor} {dw buffer sizeDw : ℕ}
    (h : Ordered s) (hstack : s.stack = c :: rest) (hdeferred : c.deferred = 0) (hdw : dw ≠ 0) :
    Ordered { s with stack := .fresh buffer sizeDw :: { c with deferred := dw } :: rest } := by
  have hcallers : ∀ d ∈ rest, d.deferred ≠ 0 := by
    have := h.callers
    rwa [hstack] at this
  refine ⟨List.forall_mem_cons.2 ⟨hdw, hcallers⟩, fun _ e he => ?_, h.nodup⟩
  have hpast := h.past (by rw [hstack]; exact List.cons_ne_nil _ _) e he
  rw [hstack] at hpast
  rcases hpast with ⟨up, c₁, rest₁, inner, a, hstack₁, hpath, ha⟩ | ⟨c₁, rest₁, inner, hstack₁, hc₁, -⟩
  · cases up with
    | nil =>
      cases hstack₁
      exact .inl ⟨[.fresh buffer sizeDw], { c with deferred := dw }, rest, inner, a, rfl, hpath, ha⟩
    | cons c₂ up =>
      cases hstack₁
      exact .inl ⟨.fresh buffer sizeDw :: { c with deferred := dw } :: up, c₁, rest₁, inner, a,
        rfl, hpath, ha⟩
  · cases hstack₁
    exact absurd hdeferred hc₁

/-- **No iteration executes a packet twice.** -/
theorem Ordered.tick {s s₁ : State σ} (h : Ordered s) (htick : Pm4.tick g s = .running s₁) :
    Ordered s₁ := by
  cases hstack : s.stack with
  | nil => simp only [Pm4.tick, hstack] at htick; cases htick
  | cons c rest =>
    by_cases hdeferred : c.deferred = 0
    · by_cases hmore : c.remaining = 0
      · rw [tick_end hstack hdeferred hmore] at htick
        cases htick
        exact h.pop hstack hdeferred
      · rw [tick_attempt hstack hdeferred hmore] at htick
        cases hattempt : g.attempt s.gpu c with
        | none => rw [hattempt] at htick; cases htick
        | some a =>
          have hpos := attempt_words_pos hattempt
          rw [hattempt] at htick
          cases a with
          | filler => cases htick; exact h.pass hstack Nat.one_pos
          | skipped dw => cases htick; exact h.pass hstack hpos
          | done dw y =>
            simp only [tickAfter] at htick
            split at htick <;> cases htick
            exact h.finish hstack hpos y
          | blocked dw => simp only [tickAfter] at htick; split at htick <;> cases htick
          | call dw buffer sizeDw =>
            simp only [tickAfter] at htick
            split at htick <;> cases htick
            exact h.push hstack hdeferred (attempt_call_pos hattempt)
    · simp only [Pm4.tick, hstack, if_pos hdeferred] at htick
      split at htick <;> cases htick
      exact h.finish hstack (Nat.pos_of_ne_zero hdeferred) s.gpu

end Prosperismo.Pm4
