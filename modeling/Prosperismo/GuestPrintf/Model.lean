import Mathlib.Algebra.Order.Ring.Int
import Mathlib.Data.List.Basic
import Mathlib.Data.Nat.Notation

/-!
# The `printf` of the guest

`kyty_printf_internal` of `guestPrintf.cpp` and what it calls. `none` is a read past the memory of
the format or of a string, or a write past a conversion buffer.

A conversion buffer is filled from its end, so that here its last character comes first and
`_out_rev` puts it out as it is. `unsigned int` and `size_t` are `ℕ`, with the wrap of `unsigned
int` where a number is read or a length is cast.

The arithmetic of `double` is a parameter, `FloatOps`; what is done with its results is not.
-/

namespace Prosperismo.GuestPrintf

/-! ### Arguments -/

/-- `VaList`: the slots of the register save areas that are left, and the overflow area. -/
structure VaList where
  gp : List (BitVec 64)
  fp : List (BitVec 64)
  overflow : ℕ → BitVec 64

namespace VaList

/-- A slot of the overflow area. -/
def nextOverflow (l : VaList) : BitVec 64 × VaList :=
  (l.overflow 0, { l with overflow := fun i => l.overflow (i + 1) })

/-- The next general-purpose slot. -/
def nextGp (l : VaList) : BitVec 64 × VaList :=
  match l.gp with
  | slot :: gp => (slot, { l with gp := gp })
  | [] => l.nextOverflow

/-- The next floating-point slot. -/
def nextFp (l : VaList) : BitVec 64 × VaList :=
  match l.fp with
  | slot :: fp => (slot, { l with fp := fp })
  | [] => l.nextOverflow

/-- `VaArg_int`. -/
def int (l : VaList) : BitVec 32 × VaList := (l.nextGp.1.setWidth 32, l.nextGp.2)

end VaList

/-! ### Flags and output -/

/-- The flags of a directive, `FLAGS_…`. -/
structure Flags where
  zeropad : Bool := false
  left : Bool := false
  plus : Bool := false
  space : Bool := false
  hash : Bool := false
  uppercase : Bool := false
  char : Bool := false
  short : Bool := false
  long : Bool := false
  longLong : Bool := false
  precision : Bool := false
  adaptExp : Bool := false
deriving DecidableEq

/-- What was read of a string argument: the memory it points to, the precision, if there is one, and
how many bytes were read. -/
structure StringRead where
  memory : List Char
  precision : Option ℕ
  count : ℕ
deriving DecidableEq

/-- The state of the call: the buffer, `idx`, and what was read of strings. -/
structure State where
  buffer : List Char
  idx : ℕ
  reads : List StringRead

/-- `out`, that is `_out_null`, and `idx++`. -/
def out (state : State) (c : Char) : State :=
  { state with buffer := state.buffer ++ [c], idx := state.idx + 1 }

/-- Some characters, one after the other. -/
def outAll (state : State) (text : List Char) : State := text.foldl out state

/-- Some spaces. -/
def outSpaces (state : State) (n : ℕ) : State := outAll state (List.replicate n ' ')

/-- `_out_rev`. -/
def outRev (state : State) (buf : List Char) (width : ℕ) (flags : Flags) : State :=
  let start := state.idx
  let state :=
    if !flags.left && !flags.zeropad then outSpaces state (width - buf.length) else state
  let state := outAll state buf
  if flags.left then outSpaces state (width - (state.idx - start)) else state

/-! ### Integers -/

/-- `PRINTF_NTOA_BUFFER_SIZE` and `PRINTF_FTOA_BUFFER_SIZE`. -/
def bufferSize : ℕ := 32

/-- `buf[len++] = c`. -/
def put (buf : List Char) (c : Char) : Option (List Char) :=
  if buf.length < bufferSize then some (c :: buf) else none

/-- `buf[len++] = c`, if there is room. -/
def putIfRoom (buf : List Char) (c : Char) : Option (List Char) :=
  if buf.length < bufferSize then put buf c else some buf

/-- The character of a digit. -/
def digitChar (uppercase : Bool) (digit : ℕ) : Char :=
  if digit < 10 then Char.ofNat (48 + digit)
  else Char.ofNat ((if uppercase then 65 else 97) + digit - 10)

/-- The `do` loop of `_ntoa_long` and `_ntoa_long_long`, with at most `fuel` rounds. -/
def digitsLoop (uppercase : Bool) (base : ℕ) : ℕ → ℕ → List Char → Option (List Char)
  | 0, _, _ => none
  | fuel + 1, value, buf => do
    let buf ← put buf (digitChar uppercase (value % base))
    if value / base ≠ 0 ∧ buf.length < bufferSize then
      digitsLoop uppercase base fuel (value / base) buf
    else some buf

/-- `while (len < bound && len < PRINTF_NTOA_BUFFER_SIZE) buf[len++] = '0'`, with at most `fuel`
rounds. -/
def zerosLoop (bound : ℕ) : ℕ → List Char → Option (List Char)
  | 0, _ => none
  | fuel + 1, buf =>
    if buf.length < bound ∧ buf.length < bufferSize then do
      zerosLoop bound fuel (← put buf '0')
    else some buf

/-- The alternate form in `_ntoa_format`. -/
def putHash (buf : List Char) (base prec width : ℕ) (flags : Flags) : Option (List Char) := do
  let buf :=
    if flags.precision = false ∧ buf ≠ [] ∧ (buf.length = prec ∨ buf.length = width) then
      if buf.tail ≠ [] ∧ base = 16 then buf.tail.tail else buf.tail
    else buf
  let buf ←
    if base = 16 then putIfRoom buf (if flags.uppercase then 'X' else 'x')
    else if base = 2 then putIfRoom buf 'b'
    else some buf
  putIfRoom buf '0'

/-- The sign in `_ntoa_format`. -/
def putSign (buf : List Char) (negative : Bool) (flags : Flags) : Option (List Char) :=
  if negative then putIfRoom buf '-'
  else if flags.plus then putIfRoom buf '+'
  else if flags.space then putIfRoom buf ' '
  else some buf

/-- `_ntoa_format`. -/
def ntoaFormat (state : State) (buf : List Char) (negative : Bool) (base prec width : ℕ)
    (flags : Flags) : Option State := do
  let width :=
    if flags.left = false ∧ width ≠ 0 ∧ flags.zeropad = true ∧
        (negative || flags.plus || flags.space) = true then width - 1
    else width
  let buf ←
    if flags.left then some buf
    else do
      let buf ← zerosLoop prec (bufferSize + 1) buf
      if flags.zeropad then zerosLoop width (bufferSize + 1) buf else some buf
  let buf ← if flags.hash then putHash buf base prec width flags else some buf
  let buf ← putSign buf negative flags
  some (outRev state buf width flags)

/-- `_ntoa_long` and `_ntoa_long_long`, which differ in the type of the value only. -/
def ntoa (state : State) (value : ℕ) (negative : Bool) (base prec width : ℕ) (flags : Flags) :
    Option State := do
  let flags := if value = 0 then { flags with hash := false } else flags
  let buf ←
    if flags.precision = false ∨ value ≠ 0 then
      digitsLoop flags.uppercase base bufferSize value []
    else some []
  ntoaFormat state buf negative base prec width flags

/-! ### Floating point -/

/-- The tests of `_ftoa` on its value: not a number, below `-DBL_MAX`, above `DBL_MAX`, beyond
`PRINTF_MAX_FLOAT`, and all others. -/
inductive FloatClass
  | nan
  | low
  | high
  | large
  | other
deriving DecidableEq

/-- What the arithmetic of `double` gives for a value. -/
structure FloatOps where
  /-- The tests of `_ftoa`. -/
  classify : BitVec 64 → FloatClass
  /-- `value < 0`. -/
  negative : BitVec 64 → Bool
  /-- `whole` and `frac` of `_ftoa`, rounded to the precision. -/
  split : BitVec 64 → ℕ → ℤ × ℕ
  /-- `expval` of `_etoa`. -/
  exponent : BitVec 64 → ℤ
  /-- `(value >= 1e-4) && (value < 1e6)`. -/
  fixedRange : BitVec 64 → Bool
  /-- The value `_etoa` hands to `_ftoa`, with `expval` set to `0` or not. It is below `10`, or in
  the range above. -/
  rescale : BitVec 64 → Bool → BitVec 64

/-- The loop over the digits of the fraction, with at most `fuel` rounds: the buffer, and `count`,
which may wrap. -/
def fracLoop : ℕ → ℕ → ℕ → List Char → Option (ℕ × List Char)
  | 0, _, _, _ => none
  | fuel + 1, count, frac, buf =>
    if buf.length < bufferSize then do
      let count := (count + 0xffffffff) % 0x100000000
      let buf ← put buf (Char.ofNat (48 + frac % 10))
      if frac / 10 = 0 then some (count, buf) else fracLoop fuel count (frac / 10) buf
    else some (count, buf)

/-- The loop over the digits of the whole part, with at most `fuel` rounds. -/
def wholeLoop : ℕ → ℤ → List Char → Option (List Char)
  | 0, _, _ => none
  | fuel + 1, whole, buf =>
    if buf.length < bufferSize then do
      let buf ← put buf (Char.ofNat (48 + whole.tmod 10).toNat)
      if whole.tdiv 10 = 0 then some buf else wholeLoop fuel (whole.tdiv 10) buf
    else some buf

/-- The digits of a number in `_ftoa`, with the point. -/
def ftoaDigits (ops : FloatOps) (value : BitVec 64) (prec : ℕ) (flags : Flags) :
    Option (List Char) := do
  let prec := if flags.precision then prec else 6
  -- at most nine digits are computed, the others are zeros
  let buf ← zerosLoop (prec - 9) (bufferSize + 1) []
  let prec := prec - buf.length
  let (whole, frac) := ops.split value prec
  let buf ←
    if prec = 0 then some buf
    else do
      let (count, buf) ← fracLoop (bufferSize + 1) prec frac buf
      let buf ← zerosLoop (buf.length + count) (bufferSize + 1) buf
      putIfRoom buf '.'
  wholeLoop (bufferSize + 1) whole buf

/-- `_ftoa` of a value that is not beyond `PRINTF_MAX_FLOAT`. -/
def ftoaSmall (ops : FloatOps) (state : State) (value : BitVec 64) (prec width : ℕ)
    (flags : Flags) : Option State :=
  match ops.classify value with
  | .nan => some (outRev state ['n', 'a', 'n'] width flags)
  | .low => some (outRev state ['-', 'i', 'n', 'f'] width flags)
  | .high =>
    some (outRev state (if flags.plus then ['+', 'i', 'n', 'f'] else ['i', 'n', 'f']) width flags)
  | _ => do
    let negative := ops.negative value
    let buf ← ftoaDigits ops value prec flags
    let width :=
      if flags.left = false ∧ flags.zeropad = true ∧ width ≠ 0 ∧
          (negative || flags.plus || flags.space) = true then width - 1
      else width
    let buf ←
      if !flags.left && flags.zeropad then zerosLoop width (bufferSize + 1) buf else some buf
    let buf ← putSign buf negative flags
    some (outRev state buf width flags)

/-- `_etoa`. -/
def etoa (ops : FloatOps) (state : State) (value : BitVec 64) (prec width : ℕ) (flags : Flags) :
    Option State :=
  match ops.classify value with
  | .nan | .low | .high => ftoaSmall ops state value prec width flags
  | _ => do
    let prec := if flags.precision then prec else 6
    let expval := ops.exponent value
    let minwidth := if expval < 100 ∧ -100 < expval then 4 else 5
    let fixed := flags.adaptExp && ops.fixedRange value
    let prec :=
      if fixed then
        let prec := (BitVec.ofNat 32 prec).toInt
        if expval < prec then (prec - expval - 1).toNat else 0
      else if flags.adaptExp = true ∧ 0 < prec ∧ flags.precision = true then prec - 1
      else prec
    let precision := flags.precision || fixed
    let minwidth := if fixed then 0 else minwidth
    let expval := if fixed then 0 else expval
    let fwidth := if minwidth < width then width - minwidth else 0
    let fwidth := if flags.left = true ∧ minwidth ≠ 0 then 0 else fwidth
    let start := state.idx
    let state ← ftoaSmall ops state (ops.rescale value fixed) prec fwidth
      { flags with precision := precision, adaptExp := false }
    if minwidth = 0 then some state
    else do
      let state := out state (if flags.uppercase then 'E' else 'e')
      let state ← ntoa state expval.natAbs (decide (expval < 0)) 10 0 (minwidth - 1)
        { zeropad := true, plus := true }
      some (if flags.left then outSpaces state (width - (state.idx - start)) else state)

/-- `_ftoa`. -/
def ftoa (ops : FloatOps) (state : State) (value : BitVec 64) (prec width : ℕ) (flags : Flags) :
    Option State :=
  match ops.classify value with
  | .large => etoa ops state value prec width flags
  | _ => ftoaSmall ops state value prec width flags

/-! ### Strings -/

/-- `_strnlen_s`: it reads one character more than it counts. -/
def strnlenS : ℕ → List Char → Option ℕ
  | _, [] => none
  | maxsize, c :: s =>
    if c = '\x00' ∨ maxsize = 0 then some 0 else (strnlenS (maxsize - 1) s).map (· + 1)

/-- The loop that puts a string out, with the precision if there is one: what is put out. It reads
one character more. -/
def stringLoop : Option ℕ → List Char → Option (List Char)
  | _, [] => none
  | precision, c :: p =>
    if c = '\x00' ∨ precision = some 0 then some []
    else (stringLoop (precision.map (· - 1)) p).map (c :: ·)

/-- `case 's'`. -/
def printString (state : State) (memory : List Char) (precision width : ℕ) (flags : Flags) :
    Option State := do
  let counted ← strnlenS (if precision ≠ 0 then precision else 0xffffffffffffffff) memory
  let l := counted % 0x100000000
  let l := if flags.precision = true then min l precision else l
  let state := if !flags.left then outSpaces state (width - l) else state
  let limit := if flags.precision then some precision else none
  let text ← stringLoop limit memory
  let state := outAll state text
  let state := if flags.left then outSpaces state (width - l) else state
  some { state with
    reads := state.reads ++ [⟨memory, limit, max (counted + 1) (text.length + 1)⟩] }

/-! ### Formats -/

/-- The loop over the flags, and the rest of the format. -/
def readFlags (flags : Flags) : List Char → Option (Flags × List Char)
  | [] => none
  | '0' :: format => readFlags { flags with zeropad := true } format
  | '-' :: format => readFlags { flags with left := true } format
  | '+' :: format => readFlags { flags with plus := true } format
  | ' ' :: format => readFlags { flags with space := true } format
  | '#' :: format => readFlags { flags with hash := true } format
  | format => some (flags, format)

/-- `_atoi`, with `i` read before. -/
def atoi (i : ℕ) : List Char → Option (ℕ × List Char)
  | [] => none
  | c :: format =>
    if c.isDigit then atoi ((10 * i + (c.toNat - '0'.toNat)) % 0x100000000) format
    else some (i, c :: format)

/-- What is read of a directive, with the arguments that are left. -/
structure Directive where
  flags : Flags
  width : ℕ
  precision : ℕ
  args : VaList

/-- The width field. -/
def readWidth (d : Directive) : List Char → Option (Directive × List Char)
  | [] => none
  | c :: format =>
    if c.isDigit then do
      let (width, format) ← atoi 0 (c :: format)
      some ({ d with width := width }, format)
    else if c = '*' then
      let (w, args) := d.args.int
      some ({ d with
        flags := { d.flags with left := d.flags.left || decide (w.toInt < 0) }
        width := w.toInt.natAbs
        args := args }, format)
    else some (d, c :: format)

/-- The precision field, after its point. -/
def readPrecisionDigits (d : Directive) : List Char → Option (Directive × List Char)
  | [] => none
  | c :: format =>
    if c.isDigit then do
      let (precision, format) ← atoi 0 (c :: format)
      some ({ d with precision := precision }, format)
    else if c = '*' then
      let (prec, args) := d.args.int
      some ({ d with precision := prec.toInt.toNat, args := args }, format)
    else some (d, c :: format)

/-- The precision field. -/
def readPrecision (d : Directive) : List Char → Option (Directive × List Char)
  | [] => none
  | '.' :: format =>
    readPrecisionDigits { d with flags := { d.flags with precision := true } } format
  | format => some (d, format)

/-- The length field; pointers and `size_t` have eight bytes. -/
def readLength (flags : Flags) : List Char → Option (Flags × List Char)
  | [] => none
  | 'l' :: format =>
    match format with
    | [] => none
    | 'l' :: format => some ({ flags with long := true, longLong := true }, format)
    | format => some ({ flags with long := true }, format)
  | 'h' :: format =>
    match format with
    | [] => none
    | 'h' :: format => some ({ flags with short := true, char := true }, format)
    | format => some ({ flags with short := true }, format)
  | 't' :: format => some ({ flags with longLong := true }, format)
  | 'j' :: format => some ({ flags with longLong := true }, format)
  | 'z' :: format => some ({ flags with longLong := true }, format)
  | format => some (flags, format)

/-- A directive up to its specifier, and the format from there. -/
def readDirective (args : VaList) (format : List Char) : Option (Directive × List Char) := do
  let (flags, format) ← readFlags {} format
  let (d, format) ← readWidth ⟨flags, 0, 0, args⟩ format
  let (d, format) ← readPrecision d format
  let (flags, format) ← readLength d.flags format
  some ({ d with flags := flags }, format)

/-! ### The loop -/

/-- The case of the integers in the `switch`, with the next argument. -/
def printInteger (state : State) (specifier : Char) (d : Directive) (arg : BitVec 64) :
    Option State :=
  let base :=
    if specifier = 'x' ∨ specifier = 'X' then 16
    else if specifier = 'o' then 8
    else if specifier = 'b' then 2
    else 10
  let signedArg := specifier = 'i' ∨ specifier = 'd'
  let flags := { d.flags with
    hash := d.flags.hash && base != 10
    uppercase := d.flags.uppercase || specifier = 'X'
    plus := d.flags.plus && decide signedArg
    space := d.flags.space && decide signedArg
    zeropad := d.flags.zeropad && !d.flags.precision }
  if signedArg then
    let value :=
      if flags.longLong || flags.long then arg.toInt
      else if flags.char then (arg.setWidth 8).toInt
      else if flags.short then (arg.setWidth 16).toInt
      else (arg.setWidth 32).toInt
    ntoa state value.natAbs (decide (value < 0)) base d.precision d.width flags
  else
    let value :=
      if flags.longLong || flags.long then arg.toNat
      else if flags.char then (arg.setWidth 8).toNat
      else if flags.short then (arg.setWidth 16).toNat
      else (arg.setWidth 32).toNat
    ntoa state value false base d.precision d.width flags

/-- The `switch` over the specifier: the state, and the arguments that are left. Strings are read
from `memory`, from where the argument points to. -/
def printDirective (ops : FloatOps) (memory : BitVec 64 → List Char) (state : State)
    (specifier : Char) (d : Directive) : Option (State × VaList) :=
  if specifier ∈ ['d', 'i', 'u', 'x', 'X', 'o', 'b'] then
    (printInteger state specifier d d.args.nextGp.1).map (·, d.args.nextGp.2)
  else if specifier ∈ ['f', 'F'] then
    (ftoa ops state d.args.nextFp.1 d.precision d.width
      { d.flags with uppercase := d.flags.uppercase || specifier = 'F' }).map (·, d.args.nextFp.2)
  else if specifier ∈ ['e', 'E', 'g', 'G'] then
    (etoa ops state d.args.nextFp.1 d.precision d.width { d.flags with
      adaptExp := d.flags.adaptExp || (specifier = 'g' || specifier = 'G')
      uppercase := d.flags.uppercase || (specifier = 'E' || specifier = 'G') }).map
        (·, d.args.nextFp.2)
  else if specifier = 'c' then
    let state := if !d.flags.left then outSpaces state (d.width - 1) else state
    let state := out state (Char.ofNat (d.args.nextGp.1.setWidth 8).toNat)
    let state := if d.flags.left then outSpaces state (d.width - 1) else state
    some (state, d.args.nextGp.2)
  else if specifier = 's' then
    (printString state (memory d.args.nextGp.1) d.precision d.width d.flags).map
      (·, d.args.nextGp.2)
  else if specifier = 'p' then
    (ntoa state d.args.nextGp.1.toNat false 16 d.precision 16
      { d.flags with zeropad := true, uppercase := true }).map (·, d.args.nextGp.2)
  else if specifier = '%' then some (out state '%', d.args)
  else some (out state specifier, d.args)

/-- The `while` loop over the format, with at most `fuel` rounds. -/
def formatLoop (ops : FloatOps) (memory : BitVec 64 → List Char) :
    ℕ → State → VaList → List Char → Option State
  | 0, _, _, _ => none
  | _ + 1, _, _, [] => none
  | fuel + 1, state, args, c :: format =>
    if c = '\x00' then some state
    else if c ≠ '%' then formatLoop ops memory fuel (out state c) args format
    else do
      let (d, format) ← readDirective args format
      match format with
      | [] => none
      | specifier :: format =>
        let (state, args) ← printDirective ops memory state specifier d
        formatLoop ops memory fuel state args format

/-- What `kyty_printf_internal` leaves: the characters before the terminator, the number it returns,
and what it has read of strings. -/
structure Printed where
  text : List Char
  count : ℤ
  reads : List StringRead
deriving DecidableEq

/-- `kyty_printf_internal`. The format is the memory from where it points to; every round of the
loop reads a character of it. -/
def kytyPrintf (ops : FloatOps) (memory : BitVec 64 → List Char) (format : List Char)
    (args : VaList) : Option Printed := do
  let state ← formatLoop ops memory format.length ⟨[], 0, []⟩ args format
  some ⟨state.buffer, (BitVec.ofNat 32 state.idx).toInt, state.reads⟩

/-- Arithmetic of `double` for formats that have none. -/
def noFloats : FloatOps where
  classify _ := .other
  negative _ := false
  split _ _ := (0, 0)
  exponent _ := 0
  fixedRange _ := true
  rescale value _ := value

end Prosperismo.GuestPrintf
