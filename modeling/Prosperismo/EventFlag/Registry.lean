import Mathlib.Data.Int.Basic
import Prosperismo.EventFlag.Model

/-!
# The registries of event flags

`g_event_flags` has the event flags that there are, and `g_named_event_flags` the one that a name is
resolved to. `KernelCreateEventFlag` and `KernelOpenEventFlag` hand out a reference each, and the
flag is freed when the last one is closed, or by `KernelDeleteEventFlag`.

The memory is part of the state: a call that follows a pointer to no flag, or frees one, does not
come to an end (`none`). A call is one step, with the registry mutex held; that the destructor
waits for the threads that wait on the flag takes no part, nor does the logging.
-/

namespace Prosperismo.EventFlag.Names

/-- The codes that the calls return. -/
inductive Code
  | ok
  | einval
  | esrch
  deriving DecidableEq

/-- `KernelEventFlagPrivate`, with what the registries need of it. -/
structure Object where
  name : String
  openReferences : Int32
  flag : KernelEventFlag

/-- The event flags at their addresses, `g_named_event_flags` and `g_event_flags`; the set is a list
in the order of the insertions. -/
structure Registry (π : Type) where
  heap : π → Option Object
  named : String → Option π
  flags : List π

/-- What a call returns, what it stores through its pointer, and the registries it leaves. -/
structure Outcome (π : Type) where
  code : Code
  stored : Option π
  registry : Registry π

/-- The attributes of `KernelCreateEventFlag`: whether a single thread may wait, or nothing for
attributes that are refused. -/
def decodeAttr (attr : BitVec 32) : Option Bool :=
  if attr &&& ~~~0x133#32 ≠ 0 then none
  else if attr &&& 0x0f ≠ 0x00 ∧ attr &&& 0x0f ≠ 0x01 ∧ attr &&& 0x0f ≠ 0x02 then none
  else if attr &&& 0xf0 = 0x00 ∨ attr &&& 0xf0 = 0x10 then some true
  else if attr &&& 0xf0 = 0x20 then some false
  else none

namespace Registry

variable {π : Type}

/-- Before the first call. -/
def empty : Registry π := ⟨fun _ => none, fun _ => none, []⟩

/-- `Name()` of the event flag at the address. -/
def nameOf (r : Registry π) (p : π) : Option String := (r.heap p).map (·.name)

/-- The event flag of the name that was created first. -/
def oldest (r : Registry π) (name : String) : Option π :=
  r.flags.find? fun p => r.nameOf p = some name

variable [DecidableEq π]

/-- A write to the event flag at the address. -/
def write (r : Registry π) (p : π) (object : Option Object) : Registry π :=
  { r with heap := Function.update r.heap p object }

/-- `RemovePublishedName`. -/
def removePublishedName (r : Registry π) (p : π) : Option (Registry π) := do
  let object ← r.heap p
  if r.named object.name = some p then
    return { r with named := Function.update r.named object.name none }
  else return r

/-- `delete`. -/
def delete (r : Registry π) (p : π) : Option (Registry π) := do
  let _ ← r.heap p
  return r.write p none

/-- The end of an event flag: it leaves the registries, and is freed. -/
def retire (r : Registry π) (p : π) : Option (Registry π) := do
  let r ← r.removePublishedName p
  { r with flags := r.flags.erase p }.delete p

end Registry

section Calls

variable {π : Type} [DecidableEq π] (r : Registry π)

/-- `KernelCreateEventFlag`, with a flag at the address when there is to be one. `ef` and `param`
say whether the pointers are not null. -/
def kernelCreateEventFlag (address : π) (ef : Bool) (name : Option String) (attr : BitVec 32)
    (initPattern : BitVec 64) (param : Bool) : Outcome π :=
  match name, decodeAttr attr with
  | some name, some single =>
    if ef = false ∨ param = true then ⟨.einval, none, r⟩
    else
      ⟨.ok, some address,
        { heap := Function.update r.heap address (some ⟨name, 1, ⟨.set, 0, single, initPattern⟩⟩)
          named :=
            if r.named name = none then Function.update r.named name (some address) else r.named
          flags := if address ∈ r.flags then r.flags else r.flags ++ [address] }⟩
  | _, _ => ⟨.einval, none, r⟩

/-- `KernelOpenEventFlag`. -/
def kernelOpenEventFlag (ef : Bool) (name : Option String) : Option (Outcome π) :=
  match ef, name with
  | true, some name =>
    match r.named name with
    | none => some ⟨.esrch, none, r⟩
    | some p =>
      if p ∉ r.flags then some ⟨.esrch, none, r⟩
      else do
        let object ← r.heap p
        return ⟨.ok, some p,
          r.write p (some { object with openReferences := object.openReferences + 1 })⟩
  | _, _ => some ⟨.einval, none, r⟩

/-- `KernelCloseEventFlag`. -/
def kernelCloseEventFlag (ef : Option π) : Option (Outcome π) :=
  match ef with
  | none => some ⟨.esrch, none, r⟩
  | some p =>
    if p ∉ r.flags then some ⟨.esrch, none, r⟩
    else do
      let object ← r.heap p
      let released := r.write p (some { object with openReferences := object.openReferences - 1 })
      if object.openReferences - 1 = 0 then
        let retired ← released.retire p
        return ⟨.ok, none, retired⟩
      else return ⟨.ok, none, released⟩

/-- `KernelDeleteEventFlag`. -/
def kernelDeleteEventFlag (ef : Option π) : Option (Outcome π) :=
  match ef with
  | none => some ⟨.esrch, none, r⟩
  | some p =>
    if p ∉ r.flags then some ⟨.esrch, none, r⟩
    else do
      let retired ← r.retire p
      return ⟨.ok, none, retired⟩

end Calls

/-! ### Steps -/

/-- The calls, with what they return and store. -/
inductive Action (π : Type)
  | createFlag (code : Code) (stored : Option π)
  | openFlag (ef : Bool) (name : Option String) (code : Code) (stored : Option π)
  | closeFlag (ef : Option π) (code : Code)
  | deleteFlag (ef : Option π) (code : Code)

/-- `Step r a r'`: a call. A flag is created where there is none. -/
inductive Step {π : Type} [DecidableEq π] : Registry π → Action π → Registry π → Prop
  | createFlag {r : Registry π} {address : π} (hfresh : r.heap address = none) (ef : Bool)
      (name : Option String) (attr : BitVec 32) (initPattern : BitVec 64) (param : Bool) :
      Step r
        (.createFlag (kernelCreateEventFlag r address ef name attr initPattern param).code
          (kernelCreateEventFlag r address ef name attr initPattern param).stored)
        (kernelCreateEventFlag r address ef name attr initPattern param).registry
  | openFlag {r : Registry π} {ef : Bool} {name : Option String} {outcome : Outcome π}
      (houtcome : kernelOpenEventFlag r ef name = some outcome) :
      Step r (.openFlag ef name outcome.code outcome.stored) outcome.registry
  | closeFlag {r : Registry π} {ef : Option π} {outcome : Outcome π}
      (houtcome : kernelCloseEventFlag r ef = some outcome) :
      Step r (.closeFlag ef outcome.code) outcome.registry
  | deleteFlag {r : Registry π} {ef : Option π} {outcome : Outcome π}
      (houtcome : kernelDeleteEventFlag r ef = some outcome) :
      Step r (.deleteFlag ef outcome.code) outcome.registry

variable {π : Type} [DecidableEq π]

/-- The references to the event flag at the address, after a call: one for its creation and for each
time it is opened, less the times it is closed. -/
def Action.count (p : π) (count : ℤ) : Action π → ℤ
  | .createFlag .ok (some q) => if q = p then 1 else count
  | .openFlag _ _ .ok (some q) => if q = p then count + 1 else count
  | .closeFlag (some q) .ok => if q = p then count - 1 else count
  | _ => count

/-- The references after the calls. -/
def references (p : π) (actions : List (Action π)) : ℤ := actions.foldl (Action.count p) 0

/-- The call retires the event flag at the address: it closes its last reference, or deletes it. -/
def Registry.Retires (r : Registry π) (p : π) : Action π → Prop
  | .closeFlag ef _ => ef = some p ∧ p ∈ r.flags ∧ (r.heap p).map (·.openReferences) = some 1
  | .deleteFlag ef _ => ef = some p ∧ p ∈ r.flags
  | _ => False

/-- The call leaves a flag without its name: it retires the one that the name is resolved to, and
there is another one with the name. -/
def Registry.Orphans (r : Registry π) (a : Action π) : Prop :=
  ∃ p name, r.Retires p a ∧ r.named name = some p ∧ ∃ q ∈ r.flags, q ≠ p ∧ r.nameOf q = some name

/-- The call opens a flag that has as many references as an `int` can count. -/
def Registry.Overflows (r : Registry π) (a : Action π) : Prop :=
  ∃ name code stored p, a = .openFlag true (some name) code stored ∧ r.named name = some p ∧
    (r.heap p).map (·.openReferences) = some Int32.maxValue

/-- A call that leaves no flag without its name and counts its references right. -/
def StepKept (r : Registry π) (a : Action π) (r' : Registry π) : Prop :=
  Step r a r' ∧ ¬ r.Orphans a ∧ ¬ r.Overflows a

end Prosperismo.EventFlag.Names
