import Prosperismo.Base.Until
import Prosperismo.Pm4.Handlers

/-!
# The packet loop

`ProcessPm4` executes the packets of a stack of command buffers. A packet that calls an
indirect buffer executes it by recursion; a wait that is not satisfied suspends the whole
execution, every caller on the way out leaving the advance of its packet in its cursor.
The next call of `Process` starts again at the innermost buffer.

The rest of the emulator is a state `σ` that handlers read and change (`Gpu`). The loop may
not terminate, so it takes fuel; a run that spends it returns the state it has reached.
-/

namespace Prosperismo.Pm4

variable {σ : Type}

/-- What the packet loop sees of the emulator: the tables filled at start-up, the guest
memory, the state that waits and predication read, and the methods handlers call (`none`
when a method stops the process). -/
structure Gpu (σ : Type) where
  tables : IndirectTables
  memory : σ → Memory
  predicateSkip : σ → Bool
  ceCount : σ → UInt32
  deCount : σ → UInt32
  ceComplete : σ → Bool
  act : Action → σ → Option σ

/-- `Pm4Execution::BufferCursor`. `base` is not in the source: it keeps the address the
buffer started at. -/
structure Cursor where
  base : Nat
  next : Nat
  remaining : Nat
  total : Nat
  deferred : Nat

/-- The cursor of a buffer that is about to be executed. -/
def Cursor.fresh (buffer sizeDw : Nat) : Cursor :=
  ⟨buffer, buffer, sizeDw, sizeDw, 0⟩

/-- `next_packet += dw; remaining_dw -= dw`. -/
def Cursor.advance (c : Cursor) (dw : Nat) : Cursor :=
  { c with next := c.next + 4 * dw, remaining := c.remaining - dw }

/-- A packet that has been executed: its address, below it the addresses of the packets
that called its buffer, and the words it took. -/
structure Completed where
  path : List Nat
  words : Nat

/-- `Pm4Execution`, with the state of the emulator. The innermost buffer comes first in
`stack`; `trace` lists the packets executed so far and is not in the source. -/
structure State (σ : Type) where
  stack : List Cursor
  suspended : Bool
  madeProgress : Bool
  gpu : σ
  trace : List Completed

/-- The addresses of the packets a stack stands at. -/
def addresses (stack : List Cursor) : List Nat :=
  stack.map Cursor.next

/-- The packet of `dw` words at the cursor `c` has been executed. -/
def State.finish (s : State σ) (c : Cursor) (rest : List Cursor) (dw : Nat) : State σ :=
  { s with
    stack := { c.advance dw with deferred := 0 } :: rest
    madeProgress := true
    trace := s.trace ++ [⟨c.next :: addresses rest, dw⟩] }

/-- The words of the cursor's buffer are passed without being executed. -/
def State.pass (s : State σ) (c : Cursor) (rest : List Cursor) (dw : Nat) : State σ :=
  { s with stack := c.advance dw :: rest, madeProgress := true }

/-- The entry of `Process`: the buffer is pushed unless an earlier call left it unfinished. -/
def State.enter (s : State σ) (buffer sizeDw : Nat) : State σ :=
  { s with
    stack := if s.stack.isEmpty ∧ sizeDw ≠ 0 then [Cursor.fresh buffer sizeDw] else s.stack
    suspended := false
    madeProgress := false }

/-- `Pm4ProcessResult::Complete`: every buffer has been popped. -/
def State.complete (s : State σ) : Bool :=
  s.stack.isEmpty

/-! ### One packet -/

namespace Gpu

variable (g : Gpu σ)

/-- `WaitRegMem`, `WaitCe` and `WaitDeDiff`: whether the wait calls `SuspendPm4`. -/
def suspends (x : σ) : Wait → Option Bool
  | .regMem bits func addr ref mask waitOp => do
    exitIf (addr = 0)
    exitIf (waitOp &&& ~~~1 ≠ 0)
    let value := if bits = 64 then read64 (g.memory x) addr else (g.memory x addr).toNat
    let met ← testWaitRegMemValue value ref mask func
    return !met
  | .ce => some (g.ceCount x ≤ g.deCount x && !g.ceComplete x)
  | .deDiff diff => do
    exitIf (g.ceCount x < g.deCount x)
    return diff ≤ g.ceCount x - g.deCount x

/-- What the loop finds at a cursor: a filler, a packet that predication skips, a packet
whose handler completed, one whose wait is not satisfied, or a call of a buffer. -/
inductive Attempt (σ : Type)
  | filler
  | skipped (dw : Nat)
  | done (dw : Nat) (x : σ)
  | blocked (dw : Nat)
  | call (dw buffer sizeDw : Nat)

/-- The words the cursor moves on by. -/
def Attempt.words : Attempt σ → Nat
  | filler => 1
  | skipped dw | done dw _ | blocked dw | call dw _ _ => dw

/-- The handler's reply, carried out. -/
def perform (x : σ) (reply : Reply) : Option (Attempt σ) :=
  match reply.effect with
  | .act actions => do
    let x' ← actions.foldlM (fun x a => g.act a x) x
    return .done (reply.words + 1) x'
  | .wait condition => do
    let suspended ← g.suspends x condition
    return if suspended then .blocked (reply.words + 1) else .done (reply.words + 1) x
  | .call buffer sizeDw => some (.call (reply.words + 1) buffer sizeDw)

/-- The reply of the handler of the packet at `next`. -/
def handle (x : σ) (next remaining : Nat) : Option Reply := do
  let header := g.memory x next
  let handler ← opFunc g.tables (opcode header)
  handler (g.memory x) (commandId header) (fun i => g.memory x (next + 4 * (i + 1))) remaining

/-- The body of the loop up to the handler, for a cursor with words left. -/
def attempt (x : σ) (c : Cursor) : Option (Attempt σ) := do
  exitIf (c.total < c.remaining)
  let header := g.memory x c.next
  if header = filler then
    return .filler
  else
    exitIf (c.remaining < 2)
    if predicated header ∧ g.predicateSkip x then
      exitIf (c.remaining < pm4Len header)
      return .skipped (pm4Len header)
    else
      let reply ← g.handle x c.next c.remaining
      g.perform x reply

/-! ### The loop -/

/-- The stack with the deferred advance of the cursor that has `index` cursors below it. -/
def setDeferred (index dw : Nat) : List Cursor → List Cursor
  | [] => []
  | c :: rest =>
    if rest.length = index then { c with deferred := dw } :: rest
    else c :: setDeferred index dw rest

/-- `ProcessIndirectBuffer`, over the packet loop `loop`. -/
def processIndirectBuffer (loop : Nat → State σ → Result (State σ)) (s : State σ)
    (buffer sizeDw : Nat) : Result (State σ) :=
  if sizeDw = 0 then
    .ok s
  else
    loop s.stack.length { s with stack := Cursor.fresh buffer sizeDw :: s.stack }

/-- What the loop does when the handler of a calling packet of `dw` words returns: the
packet's cursor had `index` cursors below it. -/
def afterCall (loop : State σ → Result (State σ)) (c : Cursor) (index dw : Nat) (s : State σ) :
    Result (State σ) :=
  if c.remaining < dw then
    .exit
  else if s.suspended then
    if index + 1 < s.stack.length then .ok { s with stack := setDeferred index dw s.stack }
    else .ok s
  else
    match s.stack with
    | [] => .exit
    | c' :: rest => if rest.length ≠ index then .exit else loop (s.finish c' rest dw)

/-- `ProcessPm4(execution, stop_depth)`. -/
def processPm4 : Nat → Nat → State σ → Result (State σ)
  | 0, _, s => .running s
  | fuel + 1, stopDepth, s =>
    match s.stack with
    | [] => .ok s
    | c :: rest =>
      if rest.length + 1 ≤ stopDepth then
        .ok s
      else if c.deferred ≠ 0 then
        if c.remaining < c.deferred then .exit
        else processPm4 fuel stopDepth (s.finish c rest c.deferred)
      else if c.remaining = 0 then
        processPm4 fuel stopDepth { s with stack := rest }
      else
        match g.attempt s.gpu c with
        | none => .exit
        | some .filler => processPm4 fuel stopDepth (s.pass c rest 1)
        | some (.skipped dw) => processPm4 fuel stopDepth (s.pass c rest dw)
        | some (.done dw x) =>
          if c.remaining < dw then .exit
          else processPm4 fuel stopDepth (State.finish { s with gpu := x } c rest dw)
        | some (.blocked dw) =>
          if c.remaining < dw then .exit else .ok { s with suspended := true }
        | some (.call dw buffer sizeDw) =>
          match processIndirectBuffer (processPm4 fuel) s buffer sizeDw with
          | .exit => .exit
          | .running s' => .running s'
          | .ok s' => afterCall (processPm4 fuel stopDepth) c rest.length dw s'

/-- `Process`. -/
def process (fuel : Nat) (buffer sizeDw : Nat) (s : State σ) : Result (State σ) :=
  g.processPm4 fuel 0 (s.enter buffer sizeDw)

end Gpu

end Prosperismo.Pm4
