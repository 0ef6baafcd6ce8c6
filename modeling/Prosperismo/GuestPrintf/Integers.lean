import Prosperismo.GuestPrintf.Buffers

/-!
# Integers as C prints them

`Spec.text` is the text the C standard prescribes for an integer: sign, prefix and digits, the
digits with the zeros of the precision, all of it in a field. `Spec.Faithful` is the condition under
which `_ntoa_format` gives the same (`printed_exact`). It says what the buffer of `32` characters
leaves room for, that the `-` flag leaves out the zeros of a precision, and where the alternate form
drops digits of the number instead of zeros.

Two texts are told apart by their lengths and by the number of their characters that are not spaces,
`visible`.
-/

namespace Prosperismo.GuestPrintf

/-! ### What C prescribes -/

/-- The conversions of integers. -/
inductive Specifier
  | d
  | i
  | u
  | x
  | X
  | o
deriving DecidableEq

namespace Specifier

/-- The base of the digits. -/
def base : Specifier → ℕ
  | d | i | u => 10
  | x | X => 16
  | o => 8

/-- `d` and `i` are of signed integers. -/
def signed : Specifier → Bool
  | d | i => true
  | _ => false

/-- Digits are written with large letters. -/
def uppercase : Specifier → Bool
  | X => true
  | _ => false

end Specifier

/-- A directive as C reads it: the flags, the width, `0` if there is none, and the precision. -/
structure Spec where
  zero : Bool
  left : Bool
  plus : Bool
  space : Bool
  hash : Bool
  width : ℕ
  precision : Option ℕ
  specifier : Specifier
deriving DecidableEq

namespace Spec

/-- The sign, if there is one: always of a negative number, else as the flags say. -/
def sign (spec : Spec) (v : ℤ) : List Char :=
  if spec.specifier.signed = false then []
  else if v < 0 then ['-']
  else if spec.plus then ['+']
  else if spec.space then [' ']
  else []

/-- The digits of the number, at least as many as the precision, which is `1` if it is not given. A
zero has none of its own. -/
def magnitude (spec : Spec) (n : ℕ) : List Char :=
  let digits := if n = 0 then [] else numeral spec.specifier.uppercase spec.specifier.base n
  List.replicate (spec.precision.getD 1 - digits.length) '0' ++ digits

/-- The alternate form of `o` is a zero in front, if there is none already. -/
def digits (spec : Spec) (n : ℕ) : List Char :=
  if spec.hash = true ∧ spec.specifier = .o ∧ (spec.magnitude n).head? ≠ some '0' then
    '0' :: spec.magnitude n
  else spec.magnitude n

/-- The alternate form of `x` and `X` is a prefix, but not of zero. -/
def altPrefix (spec : Spec) (n : ℕ) : List Char :=
  if spec.hash = true ∧ n ≠ 0 then
    match spec.specifier with
    | .x => ['0', 'x']
    | .X => ['0', 'X']
    | _ => []
  else []

/-- **The text of an integer**, in its field. The `-` flag overrides the `0` flag, and so does a
precision. -/
def text (spec : Spec) (v : ℤ) : List Char :=
  let front := spec.sign v ++ spec.altPrefix v.natAbs
  let digits := spec.digits v.natAbs
  let pad := spec.width - (front ++ digits).length
  if spec.left then front ++ digits ++ List.replicate pad ' '
  else if spec.zero = true ∧ spec.precision = none then front ++ (List.replicate pad '0' ++ digits)
  else List.replicate pad ' ' ++ (front ++ digits)

/-! ### When the code gives it -/

/-- The number of digits: a zero with a precision has none. -/
def length (spec : Spec) (v : ℤ) : ℕ :=
  if v = 0 ∧ spec.precision.isSome = true then 0
  else (numeral spec.specifier.uppercase spec.specifier.base v.natAbs).length

/-- The prefix of the alternate form of a number that is not zero. -/
def altLength (spec : Spec) (v : ℤ) : ℕ :=
  if spec.hash = true ∧ v ≠ 0 then
    match spec.specifier with
    | .x | .X => 2
    | .o => 1
    | _ => 0
  else 0

/-- **The condition** for the code to give the text of C.

* Without a precision, and without zeros for the width: unless the alternate form is asked for, and
  the digits alone fill the field.
* Without a precision, with zeros for the width: the field is not wider than the buffer, and in the
  alternate form it is narrower than the digits, or has room for them and the prefix.
* With a precision and the `-` flag: the precision asks for no zeros, but for the one of `o`.
* With a precision else: the buffer has room for the digits, the prefix and the sign; a space that
  is left out of the buffer is found in a field that is wide enough. -/
def Faithful (spec : Spec) (v : ℤ) : Prop :=
  match spec.precision with
  | none =>
    if spec.left = true ∨ spec.zero = false then
      ¬ (0 < spec.altLength v ∧ spec.width = spec.length v)
    else if 0 < spec.altLength v then
      spec.width < spec.length v ∨ spec.length v + spec.altLength v ≤ spec.width ∧ spec.width ≤ 32
    else spec.width ≤ 32
  | some p =>
    if spec.hash = true ∧ spec.specifier = .o ∧ v = 0 then spec.left = false ∧ 0 < p ∧ p ≤ 32
    else if spec.left = true then
      p ≤ spec.length v + if spec.altLength v = 1 then 1 else 0
    else if spec.altLength v = 2 then p ≤ 30
    else if spec.altLength v = 1 then p ≤ spec.length v ∨ p = 32
    else p < 32 ∨ p = 32 ∧ (spec.sign v = [] ∨ spec.sign v = [' '] ∧ 32 < spec.width)

instance (spec : Spec) (v : ℤ) : Decidable (spec.Faithful v) := by
  unfold Faithful
  split <;> infer_instance

end Spec

/-! ### Telling texts apart -/

/-- The characters of a text that are not spaces. -/
def visible (text : List Char) : ℕ := text.countP (· != ' ')

theorem visible_append (text text' : List Char) :
    visible (text ++ text') = visible text + visible text' := List.countP_append

theorem visible_spaces (n : ℕ) : visible (List.replicate n ' ') = 0 := by
  unfold visible
  rw [List.countP_replicate]
  rfl

theorem visible_zeros (n : ℕ) : visible (List.replicate n '0') = n := by
  unfold visible
  rw [List.countP_replicate]
  rfl

/-- A text without spaces is all visible. -/
theorem visible_eq_length {text : List Char} (h : ∀ c ∈ text, c ≠ ' ') :
    visible text = text.length :=
  List.countP_eq_length.mpr fun c hmem => bne_iff_ne.mpr (h c hmem)

/-- A text in a field of spaces. -/
def field (left : Bool) (width : ℕ) (body : List Char) : List Char :=
  if left then body ++ List.replicate (width - body.length) ' '
  else List.replicate (width - body.length) ' ' ++ body

theorem visible_field (left : Bool) (width : ℕ) (body : List Char) :
    visible (field left width body) = visible body := by
  cases left <;> simp [field, visible_append, visible_spaces]

theorem length_field (left : Bool) (width : ℕ) (body : List Char) :
    (field left width body).length = max width body.length := by
  cases left <;> simp [field] <;> omega

/-- Fields whose texts have not the same visible characters are different. -/
theorem field_ne {left : Bool} {width : ℕ} {body body' : List Char}
    (h : visible body ≠ visible body') : field left width body ≠ field left width body' := by
  intro heq
  have hvisible := congrArg visible heq
  rw [visible_field, visible_field] at hvisible
  exact h hvisible

/-- In a field, zeros in front of the digits are seen. -/
theorem field_zeros_iff {left : Bool} {width n : ℕ} {front digits : List Char} :
    field left width (front ++ digits) =
      field left width (front ++ (List.replicate n '0' ++ digits)) ↔ n = 0 := by
  constructor
  · intro heq
    by_contra hne
    refine field_ne ?_ heq
    rw [visible_append, visible_append, visible_append, visible_zeros]
    omega
  · rintro rfl
    rfl

/-- In a field, a space in front is seen when the field is not wider than the text. -/
theorem field_space_iff {width : ℕ} {body : List Char} :
    field false width body = field false width (' ' :: body) ↔ body.length < width := by
  constructor
  · intro heq
    have hlength := congrArg List.length heq
    rw [length_field, length_field, List.length_cons] at hlength
    omega
  · intro hlt
    obtain ⟨n, rfl⟩ : ∃ n, width = body.length + n + 1 := ⟨width - body.length - 1, by omega⟩
    have hwide : body.length + n + 1 - body.length = n + 1 := by omega
    have hnarrow : body.length + n + 1 - (body.length + 1) = n := by omega
    simp only [field, Bool.false_eq_true, if_false, List.length_cons, hwide, hnarrow]
    rw [List.replicate_succ', List.append_assoc, List.singleton_append]

/-! ### The digits of a number -/

theorem numeral_spec {uppercase : Bool} {base : ℕ} (hpos : 1 < base) (hbase : base ≤ 16) :
    ∀ n : ℕ, (∀ c ∈ numeral uppercase base n, c ≠ ' ') ∧
      (n ≠ 0 → (numeral uppercase base n).head? ≠ some '0') := by
  have hspace : ∀ digit < 16, digitChar uppercase digit ≠ ' ' := by cases uppercase <;> decide
  have hzero : ∀ digit < 16, digit ≠ 0 → digitChar uppercase digit ≠ '0' := by
    cases uppercase <;> decide
  intro n
  induction n using Nat.strong_induction_on with
  | _ n ih =>
    by_cases hlt : n < base
    · have hsmall : n < 16 := lt_of_lt_of_le hlt hbase
      rw [numeral_of_lt hbase hlt]
      refine ⟨fun c hmem => ?_, fun hne heq => hzero n hsmall hne (Option.some.inj heq)⟩
      rw [List.mem_singleton.mp hmem]
      exact hspace n hsmall
    · have hle := not_lt.mp hlt
      obtain ⟨hspaces, hhead⟩ := ih (n / base) (Nat.div_lt_self (by omega) hpos)
      rw [numeral_of_le hpos hbase hle]
      constructor
      · intro c hmem
        cases List.mem_append.mp hmem with
        | inl hfirst => exact hspaces c hfirst
        | inr hlast =>
          rw [List.mem_singleton.mp hlast]
          exact hspace _ (lt_of_lt_of_le (Nat.mod_lt _ (by omega)) hbase)
      · intro _
        rw [List.head?_append_of_ne_nil _ (numeral_ne_nil _ _ _)]
        exact hhead (Nat.div_pos hle (by omega)).ne'

/-- A number of `64` bits has at most `22` digits. -/
theorem length_numeral_le {uppercase : Bool} {base n : ℕ} (hbase : 8 ≤ base)
    (hn : n < 0x10000000000000000) : (numeral uppercase base n).length ≤ 22 := by
  unfold numeral
  rw [List.length_map, Nat.length_toDigits_le_iff (by omega) (by decide)]
  calc n < 8 ^ 22 := lt_of_lt_of_le hn (by decide)
    _ ≤ base ^ 22 := Nat.pow_le_pow_left hbase 22

/-! ### The parts of the code's text -/

variable {flags : Flags} {buf : List Char} {negative : Bool} {prec width : ℕ}

theorem fillZeros_zero (buf : List Char) : fillZeros 0 buf = buf := by
  unfold fillZeros
  rw [Nat.zero_min, Nat.zero_sub]
  rfl

/-- The sign is put in front if there is room. -/
theorem withSign_eq (buf : List Char) (negative : Bool) (flags : Flags) :
    withSign buf negative flags =
      if buf.length < bufferSize then (signOf negative flags).toList ++ buf else buf := by
  unfold withSign
  cases signOf negative flags with
  | none => simp
  | some c => rfl

theorem inField_eq (h : flags.left = true ∨ flags.zeropad = false) (buf : List Char) (width : ℕ) :
    inField buf width flags = field flags.left width buf := by
  unfold inField field
  cases hleft : flags.left with
  | true => rfl
  | false =>
    rw [hleft] at h
    rw [h.resolve_left Bool.false_ne_true]
    rfl

theorem zeroWidth_eq (h : flags.left = true ∨ flags.zeropad = false) (negative : Bool)
    (width : ℕ) : zeroWidth negative width flags = width := by
  unfold zeroWidth
  rw [if_neg]
  rintro ⟨hleft, -, hzero, -⟩
  rw [hleft, hzero] at h
  simp at h

/-- The width for zeros leaves out the sign. -/
theorem zeroWidth_zeros (hleft : flags.left = false) (hzero : flags.zeropad = true)
    (negative : Bool) (width : ℕ) :
    zeroWidth negative width flags = width - (signOf negative flags).toList.length := by
  unfold zeroWidth signOf
  rw [hleft, hzero]
  cases negative <;> cases flags.plus <;> cases flags.space <;>
    simp only [Bool.or_true, Bool.or_false, Bool.false_eq_true, if_true, if_false, true_and,
      and_true, and_false, Option.toList_some, Option.toList_none, List.length_singleton,
      List.length_nil, Nat.sub_zero, ite_not] <;> split <;> omega

theorem length_sign_le (negative : Bool) (flags : Flags) :
    (signOf negative flags).toList.length ≤ 1 := by
  cases signOf negative flags <;> simp

/-- Whether digits are dropped for the alternate form. -/
def Drops (buf : List Char) (prec width : ℕ) (flags : Flags) : Prop :=
  flags.precision = false ∧ buf ≠ [] ∧ (buf.length = prec ∨ buf.length = width)

instance (buf : List Char) (prec width : ℕ) (flags : Flags) :
    Decidable (Drops buf prec width flags) := by
  unfold Drops
  infer_instance

/-- The alternate form of base `16`, when there is room for it. -/
theorem withHash_hex {rest : List Char}
    (hrest : (if Drops buf prec width flags then buf.drop 2 else buf) = rest)
    (hroom : rest.length ≤ 30) :
    withHash buf 16 prec width flags =
      ['0', if flags.uppercase then 'X' else 'x'] ++ rest := by
  unfold withHash
  unfold Drops at hrest
  simp only [if_true, hrest]
  unfold room bufferSize
  rw [if_pos (show rest.length < 32 by omega), if_pos (by rw [List.length_cons]; omega)]
  rfl

/-- The alternate form of base `8`, when there is room for it. -/
theorem withHash_oct {rest : List Char}
    (hrest : (if Drops buf prec width flags then buf.drop 1 else buf) = rest)
    (hroom : rest.length ≤ 31) :
    withHash buf 8 prec width flags = ['0'] ++ rest := by
  unfold withHash
  unfold Drops at hrest
  simp only [show ¬ (8 = 16) by decide, show ¬ (8 = 2) by decide, if_false, hrest]
  unfold room bufferSize
  rw [if_pos (Nat.lt_succ_of_le hroom)]
  rfl

/-- A full buffer of which nothing is dropped has no room for an alternate form. -/
theorem withHash_full {base : ℕ} (hdrops : ¬ Drops buf prec width flags)
    (hfull : buf.length = 32) : withHash buf base prec width flags = buf := by
  have hroom : ∀ c, room buf c = buf := fun c => if_neg (by rw [hfull]; decide)
  unfold Drops at hdrops
  unfold withHash
  simp only [if_neg hdrops, hroom, ite_self]

theorem Fits.withHash (h : Fits buf) (base prec width : ℕ) (flags : Flags) :
    Fits (withHash buf base prec width flags) := by
  unfold GuestPrintf.withHash
  refine Fits.room ?_ _
  have hdrop : ∀ n, Fits (if flags.precision = false ∧ buf ≠ [] ∧
      (buf.length = prec ∨ buf.length = width) then buf.drop n else buf) := by
    intro n
    split
    · exact le_trans (List.length_drop ▸ Nat.sub_le ..) h
    · exact h
  split
  · exact (hdrop _).room _
  · split
    · exact (hdrop _).room _
    · exact hdrop _

theorem Fits.withSign (h : Fits buf) (negative : Bool) (flags : Flags) :
    Fits (withSign buf negative flags) := by
  unfold GuestPrintf.withSign
  split
  · exact h.room _
  · exact h

theorem visible_le (text : List Char) : visible text ≤ text.length := List.countP_le_length

theorem Fits.withZeros (h : Fits buf) (negative : Bool) (prec width : ℕ) (flags : Flags) :
    Fits (withZeros buf negative prec width flags) := by
  unfold GuestPrintf.withZeros
  split
  · exact h
  · split
    · exact (h.fillZeros _).fillZeros _
    · exact h.fillZeros _

/-- What is put out is not longer than the buffer, or than the field. -/
theorem length_sized_le (h : Fits buf) (negative : Bool) (base prec width : ℕ) (flags : Flags) :
    (sized buf negative base prec width flags).length ≤ max width 32 := by
  have hzeros := h.withZeros negative prec width flags
  have hhash := hzeros.withHash base prec (zeroWidth negative width flags) flags
  have hwidth : zeroWidth negative width flags ≤ width := by
    unfold zeroWidth
    split <;> omega
  have hfield : ∀ {buf}, Fits buf → (inField buf (zeroWidth negative width flags) flags).length ≤
      max width 32 := by
    intro buf hfits
    unfold Fits bufferSize at hfits
    unfold inField
    split_ifs
    · rw [List.length_append, List.length_replicate]
      omega
    · omega
    · rw [List.length_append, List.length_replicate]
      omega
  unfold sized
  refine hfield (Fits.withSign ?_ ..)
  split
  · exact hhash
  · exact hzeros

end Prosperismo.GuestPrintf
