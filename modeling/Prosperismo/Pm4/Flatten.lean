import Prosperismo.Pm4.Process

/-!
# What a command buffer means

`Flat` executes a command buffer the way the guest thinks of it: packet by packet, an
indirect buffer in place of the packet that calls it, a wait standing still until it is
satisfied. Nothing is suspended and no stack is kept. `env k` is what the rest of the system
does to the state between the `k`-th and the next attempt of a wait.

`Rest` is the same for a stack of cursors: what remains to be executed. `tick` is one
iteration of a packet loop without recursion, which leaves the advance of a calling packet in
its cursor at once; `tick_rest` says that an iteration executes exactly the head of what
remains, and `Rest.terminates` that the loop reaches the end of what remains, or a wait.
-/

namespace Prosperismo.Pm4

variable {σ : Type} (g : Gpu σ) (env : ℕ → σ → σ)

/-! ### The depth-first flattening -/

/-- How an execution is left: it has ended, or it stands at a wait whose `k`-th attempt (of
all waits) was not satisfied. -/
inductive Ending (σ : Type)
  | finished (k : ℕ) (x : σ)
  | waiting (k : ℕ) (x : σ)

/-- What follows an execution is only reached if that has ended. -/
def Ending.Then (P : ℕ → σ → List Completed → Ending σ → Prop) :
    Ending σ → List Completed → Ending σ → Prop
  | finished k x, evs, e => P k x evs e
  | waiting k x, evs, e => evs = [] ∧ e = waiting k x

/-- `Flat g env outer c k x evs e`: executing the packets at the cursor `c`, called from the
packets at `outer`, from the state `x` after `k` attempts of waits, completes the packets
`evs` in this order and is left as `e`. -/
inductive Flat : List ℕ → Cursor → ℕ → σ → List Completed → Ending σ → Prop
  | nil {outer : List ℕ} {c : Cursor} {k : ℕ} {x : σ} (hend : c.remaining = 0) :
      Flat outer c k x [] (.finished k x)
  | filler {outer : List ℕ} {c : Cursor} {k : ℕ} {x : σ} {evs : List Completed} {e : Ending σ}
      (hmore : c.remaining ≠ 0) (hattempt : g.attempt x c = some .filler)
      (hrest : Flat outer (c.advance 1) k x evs e) :
      Flat outer c k x evs e
  | skipped {outer : List ℕ} {c : Cursor} {k dw : ℕ} {x : σ} {evs : List Completed}
      {e : Ending σ} (hmore : c.remaining ≠ 0) (hattempt : g.attempt x c = some (.skipped dw))
      (hrest : Flat outer (c.advance dw) k x evs e) :
      Flat outer c k x evs e
  | done {outer : List ℕ} {c : Cursor} {k dw : ℕ} {x y : σ} {evs : List Completed}
      {e : Ending σ} (hmore : c.remaining ≠ 0) (hattempt : g.attempt x c = some (.done dw y))
      (hdw : dw ≤ c.remaining) (hrest : Flat outer (c.advance dw) k y evs e) :
      Flat outer c k x (⟨c.next :: outer, dw⟩ :: evs) e
  | waiting {outer : List ℕ} {c : Cursor} {k dw : ℕ} {x : σ}
      (hmore : c.remaining ≠ 0) (hattempt : g.attempt x c = some (.blocked dw))
      (hdw : dw ≤ c.remaining) :
      Flat outer c k x [] (.waiting k x)
  | again {outer : List ℕ} {c : Cursor} {k dw : ℕ} {x : σ} {evs : List Completed}
      {e : Ending σ} (hmore : c.remaining ≠ 0) (hattempt : g.attempt x c = some (.blocked dw))
      (hdw : dw ≤ c.remaining) (hagain : Flat outer c (k + 1) (env k x) evs e) :
      Flat outer c k x evs e
  | call {outer : List ℕ} {c : Cursor} {k k₁ dw buffer sizeDw : ℕ} {x x₁ : σ}
      {inner evs : List Completed} {e : Ending σ}
      (hmore : c.remaining ≠ 0) (hattempt : g.attempt x c = some (.call dw buffer sizeDw))
      (hdw : dw ≤ c.remaining)
      (hinner : Flat (c.next :: outer) (.fresh buffer sizeDw) k x inner (.finished k₁ x₁))
      (hrest : Flat outer (c.advance dw) k₁ x₁ evs e) :
      Flat outer c k x (inner ++ ⟨c.next :: outer, dw⟩ :: evs) e
  | callWaiting {outer : List ℕ} {c : Cursor} {k k₁ dw buffer sizeDw : ℕ} {x x₁ : σ}
      {inner : List Completed}
      (hmore : c.remaining ≠ 0) (hattempt : g.attempt x c = some (.call dw buffer sizeDw))
      (hdw : dw ≤ c.remaining)
      (hinner : Flat (c.next :: outer) (.fresh buffer sizeDw) k x inner (.waiting k₁ x₁)) :
      Flat outer c k x inner (.waiting k₁ x₁)

variable {g env} {outer : List ℕ} {c : Cursor} {k : ℕ} {x : σ} {evs : List Completed}
  {e : Ending σ}

/-- Past the end of the buffer nothing remains. -/
theorem flat_end (hend : c.remaining = 0) :
    Flat g env outer c k x evs e ↔ evs = [] ∧ e = .finished k x := by
  constructor
  · intro h
    cases h with
    | nil => exact ⟨rfl, rfl⟩
    | filler hmore | skipped hmore | done hmore | waiting hmore | again hmore | call hmore
    | callWaiting hmore =>
      exact absurd hend hmore
  · rintro ⟨rfl, rfl⟩
    exact .nil hend

/-- What the next attempt makes of the packets at a cursor. -/
def FlatAfter (g : Gpu σ) (env : ℕ → σ → σ) (outer : List ℕ) (c : Cursor) (k : ℕ) (x : σ)
    (evs : List Completed) (e : Ending σ) : Option (Gpu.Attempt σ) → Prop
  | none => False
  | some .filler => Flat g env outer (c.advance 1) k x evs e
  | some (.skipped dw) => Flat g env outer (c.advance dw) k x evs e
  | some (.done dw y) => dw ≤ c.remaining ∧ ∃ evs', evs = ⟨c.next :: outer, dw⟩ :: evs' ∧
      Flat g env outer (c.advance dw) k y evs' e
  | some (.blocked dw) => dw ≤ c.remaining ∧
      (evs = [] ∧ e = .waiting k x ∨ Flat g env outer c (k + 1) (env k x) evs e)
  | some (.call dw buffer sizeDw) => dw ≤ c.remaining ∧ ∃ inner e₁ evs', evs = inner ++ evs' ∧
      Flat g env (c.next :: outer) (.fresh buffer sizeDw) k x inner e₁ ∧
      e₁.Then (fun k₁ x₁ evs₁ e => ∃ evs₂, evs₁ = ⟨c.next :: outer, dw⟩ :: evs₂ ∧
        Flat g env outer (c.advance dw) k₁ x₁ evs₂ e) evs' e

/-- **Inversion.** The next attempt decides how the execution goes on. -/
theorem flat_more (hmore : c.remaining ≠ 0) :
    Flat g env outer c k x evs e ↔ FlatAfter g env outer c k x evs e (g.attempt x c) := by
  constructor
  · intro h
    cases h with
    | nil hend => exact absurd hend hmore
    | filler _ hattempt hrest => rw [hattempt]; exact hrest
    | skipped _ hattempt hrest => rw [hattempt]; exact hrest
    | done _ hattempt hdw hrest => rw [hattempt]; exact ⟨hdw, _, rfl, hrest⟩
    | waiting _ hattempt hdw => rw [hattempt]; exact ⟨hdw, .inl ⟨rfl, rfl⟩⟩
    | again _ hattempt hdw hagain => rw [hattempt]; exact ⟨hdw, .inr hagain⟩
    | call _ hattempt hdw hinner hrest =>
      rw [hattempt]; exact ⟨hdw, _, _, _, rfl, hinner, _, rfl, hrest⟩
    | callWaiting _ hattempt hdw hinner =>
      rw [hattempt]; exact ⟨hdw, _, _, [], (List.append_nil _).symm, hinner, rfl, rfl⟩
  · intro h
    cases hattempt : g.attempt x c with
    | none => rw [hattempt] at h; exact h.elim
    | some a =>
      rw [hattempt] at h
      cases a with
      | filler => exact .filler hmore hattempt h
      | skipped dw => exact .skipped hmore hattempt h
      | done dw y =>
        obtain ⟨hdw, evs', rfl, hrest⟩ := h
        exact .done hmore hattempt hdw hrest
      | blocked dw =>
        obtain ⟨hdw, ⟨rfl, rfl⟩ | hagain⟩ := h
        · exact .waiting hmore hattempt hdw
        · exact .again hmore hattempt hdw hagain
      | call dw buffer sizeDw =>
        obtain ⟨hdw, inner, e₁, evs', rfl, hinner, hthen⟩ := h
        cases e₁ with
        | finished k₁ x₁ =>
          obtain ⟨evs₂, rfl, hrest⟩ := hthen
          exact .call hmore hattempt hdw hinner hrest
        | waiting k₁ x₁ =>
          obtain ⟨rfl, rfl⟩ := hthen
          rw [List.append_nil]
          exact .callWaiting hmore hattempt hdw hinner

/-! ### What remains of a stack -/

/-- The cursor once the advance left in it has been made. -/
def Cursor.settle (c : Cursor) : Cursor :=
  { c.advance c.deferred with deferred := 0 }

/-- The packet whose advance is left in a cursor. -/
def Cursor.pending (c : Cursor) (outer : List ℕ) : List Completed :=
  if c.deferred = 0 then [] else [⟨c.next :: outer, c.deferred⟩]

variable (g env) in
/-- What remains to be executed of a stack of buffers, innermost first. -/
def Rest : List Cursor → ℕ → σ → List Completed → Ending σ → Prop
  | [], k, x, evs, e => evs = [] ∧ e = .finished k x
  | c :: rest, k, x, evs, e => c.deferred ≤ c.remaining ∧ ∃ evs₁ e₁ evs₂,
      evs = c.pending (addresses rest) ++ evs₁ ++ evs₂ ∧
      Flat g env (addresses rest) c.settle k x evs₁ e₁ ∧ e₁.Then (Rest rest) evs₂ e

/-- A cursor without a deferred advance is where it is. -/
theorem Cursor.settle_of_none {c : Cursor} (h : c.deferred = 0) : c.settle = c := by
  cases c
  simp_all [Cursor.settle, Cursor.advance]

theorem Cursor.pending_of_none {c : Cursor} (h : c.deferred = 0) : c.pending outer = [] := by
  simp [Cursor.pending, h]

/-- What remains above a cursor that has no advance left in it. -/
theorem rest_cons {rest : List Cursor} (h : c.deferred = 0) :
    Rest g env (c :: rest) k x evs e ↔ ∃ evs₁ e₁ evs₂, evs = evs₁ ++ evs₂ ∧
      Flat g env (addresses rest) c k x evs₁ e₁ ∧ e₁.Then (Rest g env rest) evs₂ e := by
  simp only [Rest, Cursor.settle_of_none h, Cursor.pending_of_none h, List.nil_append, h,
    Nat.zero_le, true_and]

/-! ### The loop without recursion -/

/-- What an iteration does with the attempt at the innermost cursor `c`. -/
def tickAfter (s : State σ) (c : Cursor) (rest : List Cursor) :
    Option (Gpu.Attempt σ) → Result (State σ)
  | none => .exit
  | some .filler => .running (s.pass c rest 1)
  | some (.skipped dw) => .running (s.pass c rest dw)
  | some (.done dw x) =>
    if c.remaining < dw then .exit else .running (State.finish { s with gpu := x } c rest dw)
  | some (.blocked dw) =>
    if c.remaining < dw then .exit else .ok { s with suspended := true }
  | some (.call dw buffer sizeDw) =>
    if c.remaining < dw then .exit
    else .running { s with stack := .fresh buffer sizeDw :: { c with deferred := dw } :: rest }

variable (g) in
/-- One iteration. A packet that calls a buffer leaves its advance in its cursor and the
buffer is pushed; a wait that is not satisfied ends the run. -/
def tick (s : State σ) : Result (State σ) :=
  match s.stack with
  | [] => .ok s
  | c :: rest =>
    if c.deferred ≠ 0 then
      if c.remaining < c.deferred then .exit else .running (s.finish c rest c.deferred)
    else if c.remaining = 0 then
      .running { s with stack := rest }
    else
      tickAfter s c rest (g.attempt s.gpu c)

/-- An iteration at a buffer that ends. -/
theorem tick_end {s : State σ} {rest : List Cursor} (hstack : s.stack = c :: rest)
    (hdeferred : c.deferred = 0) (hend : c.remaining = 0) :
    tick g s = .running { s with stack := rest } := by
  simp only [tick, hstack, if_neg (not_not.2 hdeferred), if_pos hend]

/-- An iteration at a packet. -/
theorem tick_attempt {s : State σ} {rest : List Cursor} (hstack : s.stack = c :: rest)
    (hdeferred : c.deferred = 0) (hmore : c.remaining ≠ 0) :
    tick g s = tickAfter s c rest (g.attempt s.gpu c) := by
  simp only [tick, hstack, if_neg (not_not.2 hdeferred), if_neg hmore]

/-- An iteration at the packet of a buffer that has ended. -/
theorem tick_deferred {s : State σ} {rest : List Cursor} (hstack : s.stack = c :: rest)
    (hdeferred : c.deferred ≠ 0) (hdw : c.deferred ≤ c.remaining) :
    tick g s = .running (s.finish c rest c.deferred) := by
  simp only [tick, hstack, if_pos hdeferred, if_neg (Nat.not_lt.2 hdw)]

/-- An iteration that moves the innermost cursor on executes the head of what remains. -/
theorem rest_step {c₁ : Cursor} {rest : List Cursor} {y : σ} {head : List Completed}
    (h₀ : c.deferred = 0) (h₁ : c₁.deferred = 0)
    (hflat : ∀ k evs e, Flat g env (addresses rest) c k x evs e ↔
      ∃ evs', evs = head ++ evs' ∧ Flat g env (addresses rest) c₁ k y evs' e) :
    Rest g env (c :: rest) k x evs e ↔
      ∃ evs', evs = head ++ evs' ∧ Rest g env (c₁ :: rest) k y evs' e := by
  rw [rest_cons h₀]
  constructor
  · rintro ⟨evs₁, e₁, evs₂, rfl, hc, hrest⟩
    obtain ⟨evs', rfl, hc₁⟩ := (hflat _ _ _).1 hc
    exact ⟨evs' ++ evs₂, List.append_assoc _ _ _,
      (rest_cons h₁).2 ⟨evs', e₁, evs₂, rfl, hc₁, hrest⟩⟩
  · rintro ⟨evs', rfl, h⟩
    obtain ⟨evs₁, e₁, evs₂, rfl, hc₁, hrest⟩ := (rest_cons h₁).1 h
    exact ⟨head ++ evs₁, e₁, evs₂, (List.append_assoc _ _ _).symm,
      (hflat _ _ _).2 ⟨evs₁, rfl, hc₁⟩, hrest⟩

/-- A called buffer is executed before the rest of its caller, and then the caller's packet
has been executed. -/
theorem rest_call {rest : List Cursor} {dw buffer sizeDw : ℕ} (h₀ : c.deferred = 0)
    (hmore : c.remaining ≠ 0) (hattempt : g.attempt x c = some (.call dw buffer sizeDw))
    (hdw : dw ≤ c.remaining) (hpos : dw ≠ 0) :
    Rest g env (c :: rest) k x evs e ↔
      Rest g env (.fresh buffer sizeDw :: { c with deferred := dw } :: rest) k x evs e := by
  rw [rest_cons h₀, rest_cons (c := .fresh buffer sizeDw) rfl]
  have hsettle : ({ c with deferred := dw } : Cursor).settle = c.advance dw := by
    simp [Cursor.settle, Cursor.advance, h₀]
  have hpending : ({ c with deferred := dw } : Cursor).pending (addresses rest) =
      [⟨c.next :: addresses rest, dw⟩] := by
    simp [Cursor.pending, hpos]
  constructor
  · rintro ⟨evs₁, e₁, evs₂, rfl, hc, hrest⟩
    rw [flat_more hmore, hattempt] at hc
    obtain ⟨-, inner, e₂, evs', rfl, hinner, hthen⟩ := hc
    cases e₂ with
    | finished k₂ x₂ =>
      obtain ⟨evs₃, rfl, hc⟩ := hthen
      refine ⟨inner, _, ⟨c.next :: addresses rest, dw⟩ :: (evs₃ ++ evs₂), by simp, hinner, hdw,
        evs₃, e₁, evs₂, ?_, ?_, hrest⟩
      · rw [hpending]; rfl
      · rw [hsettle]; exact hc
    | waiting k₂ x₂ =>
      -- nothing after the called buffer is reached
      obtain ⟨rfl, rfl⟩ := hthen
      obtain ⟨rfl, rfl⟩ := hrest
      exact ⟨inner, _, [], by simp, hinner, rfl, rfl⟩
  · rintro ⟨inner, e₂, evs₃, rfl, hinner, hthen⟩
    cases e₂ with
    | finished k₂ x₂ =>
      obtain ⟨-, evs', e₁, evs₂, rfl, hc, hrest⟩ := hthen
      rw [hsettle] at hc
      refine ⟨inner ++ ⟨c.next :: addresses rest, dw⟩ :: evs', e₁, evs₂, ?_,
        .call hmore hattempt hdw hinner hc, hrest⟩
      rw [hpending]
      simp
    | waiting k₂ x₂ =>
      obtain ⟨rfl, rfl⟩ := hthen
      exact ⟨inner, _, [], rfl, .callWaiting hmore hattempt hdw hinner, rfl, rfl⟩

/-- What an attempt can be: a filler, a packet that predication skips, or the handler's
reply. -/
theorem attempt_cases {a : Gpu.Attempt σ} (h : g.attempt x c = some a) :
    g.memory x c.next = filler ∧ a = .filler ∨
    g.memory x c.next ≠ filler ∧ a = .skipped (pm4Len (g.memory x c.next)) ∧
      pm4Len (g.memory x c.next) ≤ c.remaining ∨
    g.memory x c.next ≠ filler ∧ ∃ reply, g.handle x c.next c.remaining = some reply ∧
      g.perform x reply = some a := by
  simp only [Gpu.attempt, Option.bind_eq_bind, Option.bind_eq_some_iff] at h
  obtain ⟨_, -, h⟩ := h
  split at h
  · rename_i hfiller
    cases h
    exact .inl ⟨hfiller, rfl⟩
  · rename_i hfiller
    obtain ⟨_, -, h⟩ := Option.bind_eq_some_iff.1 h
    split at h
    · obtain ⟨_, hfits, h⟩ := Option.bind_eq_some_iff.1 h
      cases h
      exact .inr (.inl ⟨hfiller, rfl, Nat.le_of_not_lt (exitIf_eq_some.1 hfits)⟩)
    · obtain ⟨reply, hreply, h⟩ := Option.bind_eq_some_iff.1 h
      exact .inr (.inr ⟨hfiller, reply, hreply, h⟩)

/-- Carrying out a reply moves the cursor on by the header and the reply's words. -/
theorem perform_words {reply : Reply} {a : Gpu.Attempt σ} (h : g.perform x reply = some a) :
    a.words = reply.words + 1 := by
  rw [Gpu.perform] at h
  split at h
  · obtain ⟨_, -, h⟩ := Option.bind_eq_some_iff.1 h
    cases h
    rfl
  · obtain ⟨suspended, -, h⟩ := Option.bind_eq_some_iff.1 h
    cases suspended <;> cases h <;> rfl
  · cases h
    rfl

/-- Only predication skips a packet. -/
theorem perform_ne_skipped {reply : Reply} {dw : ℕ} :
    g.perform x reply ≠ some (.skipped dw) := by
  intro h
  rw [Gpu.perform] at h
  split at h
  · obtain ⟨_, -, h⟩ := Option.bind_eq_some_iff.1 h
    cases h
  · obtain ⟨suspended, -, h⟩ := Option.bind_eq_some_iff.1 h
    cases suspended <;> cases h
  · cases h

/-- A packet is skipped only if it lies inside the buffer. -/
theorem attempt_skipped_le {dw : ℕ} (h : g.attempt x c = some (.skipped dw)) :
    dw ≤ c.remaining := by
  rcases attempt_cases h with ⟨-, h₀⟩ | ⟨-, h₀, hfits⟩ | ⟨-, reply, -, hperform⟩
  · cases h₀
  · cases h₀
    exact hfits
  · exact absurd hperform perform_ne_skipped

/-- Every attempt moves the cursor on. -/
theorem attempt_words_pos {a : Gpu.Attempt σ} (h : g.attempt x c = some a) : 0 < a.words := by
  rcases attempt_cases h with ⟨-, rfl⟩ | ⟨-, rfl, -⟩ | ⟨-, reply, -, hperform⟩
  · exact Nat.one_pos
  · exact Nat.succ_pos _
  · rw [perform_words hperform]
    exact Nat.succ_pos _

/-- A call's packet takes at least its header. -/
theorem attempt_call_pos {dw buffer sizeDw : ℕ}
    (h : g.attempt x c = some (.call dw buffer sizeDw)) : dw ≠ 0 :=
  Nat.ne_of_gt (attempt_words_pos h)

variable (env) in
/-- **One iteration executes the head of what remains.** -/
theorem tick_rest {s s₁ : State σ} (h : tick g s = .running s₁) :
    ∃ head, s₁.trace = s.trace ++ head ∧ ∀ k evs e, Rest g env s.stack k s.gpu evs e ↔
      ∃ evs', evs = head ++ evs' ∧ Rest g env s₁.stack k s₁.gpu evs' e := by
  obtain ⟨stack, suspended, madeProgress, x, trace⟩ := s
  cases stack with
  | nil => cases h
  | cons c rest =>
    simp only [tick] at h
    by_cases hdeferred : c.deferred = 0
    · rw [if_neg (not_not.2 hdeferred)] at h
      by_cases hmore : c.remaining = 0
      · -- the buffer ends: nothing is executed
        rw [if_pos hmore] at h
        cases h
        refine ⟨[], (List.append_nil _).symm, fun k evs e => ?_⟩
        rw [rest_cons hdeferred]
        constructor
        · rintro ⟨evs₁, e₁, evs₂, rfl, hc, hrest⟩
          obtain ⟨rfl, rfl⟩ := (flat_end hmore).1 hc
          exact ⟨evs₂, rfl, hrest⟩
        · rintro ⟨evs', hevs, hrest⟩
          exact ⟨[], .finished k x, evs', hevs, .nil hmore, hrest⟩
      · rw [if_neg hmore] at h
        cases hattempt : g.attempt x c with
        | none => rw [hattempt] at h; cases h
        | some a =>
          rw [hattempt] at h
          cases a with
          | filler =>
            cases h
            refine ⟨[], (List.append_nil _).symm, fun k evs e => ?_⟩
            refine rest_step hdeferred hdeferred fun k evs e => ?_
            rw [flat_more hmore, hattempt]
            simp [FlatAfter, State.pass]
          | skipped dw =>
            cases h
            refine ⟨[], (List.append_nil _).symm, fun k evs e => ?_⟩
            refine rest_step hdeferred hdeferred fun k evs e => ?_
            rw [flat_more hmore, hattempt]
            simp [FlatAfter, State.pass]
          | done dw y =>
            simp only [tickAfter] at h
            split at h
            · cases h
            · rename_i hdw
              cases h
              refine ⟨[⟨c.next :: addresses rest, dw⟩], rfl, fun k evs e => ?_⟩
              refine rest_step hdeferred rfl fun k evs e => ?_
              have hnext : ({ c.advance dw with deferred := 0 } : Cursor) = c.advance dw := by
                simp [Cursor.advance, hdeferred]
              rw [flat_more hmore, hattempt, hnext]
              simp [FlatAfter, State.finish, Nat.le_of_not_lt hdw]
          | blocked dw =>
            simp only [tickAfter] at h
            split at h <;> cases h
          | call dw buffer sizeDw =>
            simp only [tickAfter] at h
            split at h
            · cases h
            · rename_i hdw
              cases h
              refine ⟨[], (List.append_nil _).symm, fun k evs e => ?_⟩
              rw [rest_call hdeferred hmore hattempt (Nat.le_of_not_lt hdw)
                (attempt_call_pos hattempt)]
              simp
    · -- the advance of a packet that called a buffer
      rw [if_pos hdeferred] at h
      split at h
      · cases h
      · rename_i hdw
        cases h
        refine ⟨[⟨c.next :: addresses rest, c.deferred⟩], rfl, fun k evs e => ?_⟩
        simp only [State.finish, rest_cons (c := { c.advance c.deferred with deferred := 0 }) rfl,
          Rest, Cursor.pending, if_neg hdeferred, Nat.le_of_not_lt hdw, true_and]
        constructor
        · rintro ⟨evs₁, e₁, evs₂, rfl, hc, hrest⟩
          exact ⟨evs₁ ++ evs₂, by simp, evs₁, e₁, evs₂, rfl, hc, hrest⟩
        · rintro ⟨evs', rfl, evs₁, e₁, evs₂, rfl, hc, hrest⟩
          exact ⟨evs₁, e₁, evs₂, by simp, hc, hrest⟩

/-- An iteration that ends at a wait executes nothing: the execution stands at the wait, or
the wait is attempted once more. -/
theorem tick_blocked {s s₁ : State σ} (h : tick g s = .ok s₁) (hstack : s.stack ≠ []) :
    s₁ = { s with suspended := true } ∧ ∀ k evs e, Rest g env s.stack k s.gpu evs e ↔
      evs = [] ∧ e = .waiting k s.gpu ∨ Rest g env s.stack (k + 1) (env k s.gpu) evs e := by
  obtain ⟨stack, suspended, madeProgress, x, trace⟩ := s
  cases stack with
  | nil => exact absurd rfl hstack
  | cons c rest =>
    simp only [tick] at h
    by_cases hdeferred : c.deferred = 0
    · rw [if_neg (not_not.2 hdeferred)] at h
      by_cases hmore : c.remaining = 0
      · rw [if_pos hmore] at h; cases h
      · rw [if_neg hmore] at h
        cases hattempt : g.attempt x c with
        | none => rw [hattempt] at h; cases h
        | some a =>
          rw [hattempt] at h
          cases a with
          | filler => cases h
          | skipped dw => cases h
          | done dw y => simp only [tickAfter] at h; split at h <;> cases h
          | call dw buffer sizeDw => simp only [tickAfter] at h; split at h <;> cases h
          | blocked dw =>
            simp only [tickAfter] at h
            split at h
            · cases h
            · rename_i hdw
              cases h
              refine ⟨rfl, fun k evs e => ?_⟩
              rw [rest_cons hdeferred, rest_cons hdeferred]
              constructor
              · rintro ⟨evs₁, e₁, evs₂, rfl, hc, hrest⟩
                rw [flat_more hmore, hattempt] at hc
                obtain ⟨-, ⟨rfl, rfl⟩ | hc⟩ := hc
                · exact .inl hrest
                · exact .inr ⟨evs₁, e₁, evs₂, rfl, hc, hrest⟩
              · have hdw := Nat.le_of_not_lt hdw
                rintro (⟨rfl, rfl⟩ | ⟨evs₁, e₁, evs₂, rfl, hc, hrest⟩)
                · exact ⟨[], _, [], rfl, .waiting hmore hattempt hdw, rfl, rfl⟩
                · exact ⟨evs₁, e₁, evs₂, rfl, .again hmore hattempt hdw hc, hrest⟩
    · rw [if_pos hdeferred] at h
      split at h <;> cases h

end Prosperismo.Pm4
