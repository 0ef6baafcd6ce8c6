import Prosperismo.GuestPrintf.Model

/-!
# The conversion buffers

What the loops over a conversion buffer leave in it, in closed form, and that they never write past
its end: every write is behind a test of the length, and `Fits` is kept by all of them. An integer
is put out as `sized`: digits, zeros, the alternate form and the sign, as far as there is room.
-/

namespace Prosperismo.GuestPrintf

/-- The buffer has at most its size. -/
def Fits (buf : List Char) : Prop := buf.length ≤ bufferSize

theorem fits_nil : Fits [] := Nat.zero_le _

/-! ### Output -/

/-- What is put out is behind what was, and counted. -/
def State.emit (state : State) (text : List Char) : State where
  buffer := state.buffer ++ text
  idx := state.idx + text.length
  reads := state.reads

theorem out_eq (state : State) (c : Char) : out state c = state.emit [c] := rfl

theorem emit_nil (state : State) : state.emit [] = state := by
  unfold State.emit
  rw [List.append_nil, List.length_nil, Nat.add_zero]

theorem emit_emit (state : State) (text text' : List Char) :
    (state.emit text).emit text' = state.emit (text ++ text') := by
  unfold State.emit
  rw [List.append_assoc, List.length_append, Nat.add_assoc]

theorem outAll_eq (state : State) (text : List Char) : outAll state text = state.emit text := by
  induction text generalizing state with
  | nil => exact (emit_nil state).symm
  | cons c text ih =>
    change outAll (out state c) text = _
    rw [ih, out_eq, emit_emit, List.singleton_append]

theorem outSpaces_eq (state : State) (n : ℕ) :
    outSpaces state n = state.emit (List.replicate n ' ') := outAll_eq ..

/-- The text of a buffer in its field: spaces before it, or after it with the `-` flag, or none with
the `0` flag. -/
def inField (buf : List Char) (width : ℕ) (flags : Flags) : List Char :=
  if flags.left then buf ++ List.replicate (width - buf.length) ' '
  else if flags.zeropad then buf
  else List.replicate (width - buf.length) ' ' ++ buf

theorem outRev_eq (state : State) (buf : List Char) (width : ℕ) (flags : Flags) :
    outRev state buf width flags = state.emit (inField buf width flags) := by
  unfold outRev inField
  cases flags.left with
  | true =>
    simp only [Bool.not_true, Bool.false_and, Bool.false_eq_true, if_false, if_true, outAll_eq,
      outSpaces_eq, emit_emit]
    have hidx : (state.emit buf).idx - state.idx = buf.length := Nat.add_sub_cancel_left ..
    rw [hidx]
  | false =>
    cases flags.zeropad with
    | true =>
      simp only [Bool.not_true, Bool.not_false, Bool.true_and, Bool.false_eq_true, if_false,
        if_true, outAll_eq]
    | false =>
      simp only [Bool.not_false, Bool.and_self, Bool.false_eq_true, if_false, if_true, outAll_eq,
        outSpaces_eq, emit_emit]

/-! ### Writes -/

theorem put_eq {buf : List Char} (h : buf.length < bufferSize) (c : Char) :
    put buf c = some (c :: buf) := if_pos h

/-- A character is put into the buffer if there is room. -/
def room (buf : List Char) (c : Char) : List Char :=
  if buf.length < bufferSize then c :: buf else buf

theorem putIfRoom_eq (buf : List Char) (c : Char) : putIfRoom buf c = some (room buf c) := by
  unfold putIfRoom room
  by_cases h : buf.length < bufferSize
  · rw [if_pos h, if_pos h, put_eq h]
  · rw [if_neg h, if_neg h]

theorem Fits.room {buf : List Char} (h : Fits buf) (c : Char) : Fits (room buf c) := by
  unfold Fits GuestPrintf.room at *
  split
  · next hlt => exact hlt
  · exact h

/-- A buffer filled up with zeros, as far as there is room. -/
def fillZeros (bound : ℕ) (buf : List Char) : List Char :=
  List.replicate (min bound bufferSize - buf.length) '0' ++ buf

theorem length_fillZeros {bound : ℕ} {buf : List Char} :
    (fillZeros bound buf).length = max (min bound bufferSize) buf.length := by
  unfold fillZeros
  rw [List.length_append, List.length_replicate]
  omega

theorem Fits.fillZeros {buf : List Char} (h : Fits buf) (bound : ℕ) :
    Fits (fillZeros bound buf) := by
  unfold Fits at *
  rw [length_fillZeros]
  exact max_le (min_le_right ..) h

/-- **The loop that pads with zeros.** Its fuel is more than there is room. -/
theorem zerosLoop_eq (bound : ℕ) : ∀ (fuel : ℕ) (buf : List Char), Fits buf →
    bufferSize < buf.length + fuel → zerosLoop bound fuel buf = some (fillZeros bound buf)
  | 0, buf, h, hfuel => absurd h (not_le.mpr hfuel)
  | fuel + 1, buf, h, hfuel => by
    rw [zerosLoop]
    by_cases hmore : buf.length < bound ∧ buf.length < bufferSize
    · rw [if_pos hmore, put_eq hmore.2, Option.bind_eq_bind, Option.bind_some,
        zerosLoop_eq bound fuel ('0' :: buf) hmore.2 (by rw [List.length_cons]; omega)]
      -- the zero is one of those that are missing
      obtain ⟨k, hk⟩ : ∃ k, min bound bufferSize - buf.length = k + 1 :=
        ⟨min bound bufferSize - buf.length - 1, by omega⟩
      unfold fillZeros
      rw [List.length_cons, hk, show min bound bufferSize - (buf.length + 1) = k by omega,
        List.replicate_succ', List.append_assoc, List.singleton_append]
    · rw [if_neg hmore]
      have hzero : min bound bufferSize - buf.length = 0 := by
        unfold Fits at h
        omega
      rw [fillZeros, hzero]
      rfl

/-! ### Integers -/

/-- The digits of a number, the first one first, with letters of the case. -/
def numeral (uppercase : Bool) (base n : ℕ) : List Char :=
  (Nat.toDigits base n).map fun c => if uppercase then c.toUpper else c

theorem numeral_ne_nil (uppercase : Bool) (base n : ℕ) : numeral uppercase base n ≠ [] := by
  unfold numeral
  rw [ne_eq, List.map_eq_nil_iff]
  exact Nat.toDigits_ne_nil

theorem digitChar_eq (uppercase : Bool) : ∀ digit < 16,
    digitChar uppercase digit =
      if uppercase then (Nat.digitChar digit).toUpper else Nat.digitChar digit := by
  cases uppercase <;> decide

theorem numeral_of_lt {uppercase : Bool} {base n : ℕ} (hbase : base ≤ 16) (h : n < base) :
    numeral uppercase base n = [digitChar uppercase n] := by
  unfold numeral
  rw [Nat.toDigits_of_lt_base h, digitChar_eq uppercase n (lt_of_lt_of_le h hbase)]
  rfl

theorem numeral_of_le {uppercase : Bool} {base n : ℕ} (hpos : 1 < base) (hbase : base ≤ 16)
    (h : base ≤ n) : numeral uppercase base n =
      numeral uppercase base (n / base) ++ [digitChar uppercase (n % base)] := by
  unfold numeral
  have hdigit : n % base < 16 := lt_of_lt_of_le (Nat.mod_lt _ (by omega)) hbase
  rw [Nat.toDigits_of_base_le hpos h, List.map_append, digitChar_eq uppercase _ hdigit]
  rfl

/-- **The loop over the digits** of a number that has room. -/
theorem digitsLoop_eq {uppercase : Bool} {base : ℕ} (hpos : 1 < base) (hbase : base ≤ 16) :
    ∀ (fuel n : ℕ) (buf : List Char), (numeral uppercase base n).length ≤ fuel →
    buf.length + (numeral uppercase base n).length ≤ bufferSize →
    digitsLoop uppercase base fuel n buf = some (numeral uppercase base n ++ buf)
  | 0, n, buf, hfuel, _ =>
    absurd (List.length_eq_zero_iff.mp (Nat.le_zero.mp hfuel)) (numeral_ne_nil _ _ _)
  | fuel + 1, n, buf, hfuel, hroom => by
    have hnonempty := List.length_pos_iff.mpr (numeral_ne_nil uppercase base n)
    rw [digitsLoop, put_eq (by omega), Option.bind_eq_bind, Option.bind_some]
    by_cases hlt : n < base
    · rw [if_neg (fun hmore => hmore.1 (Nat.div_eq_of_lt hlt)), Nat.mod_eq_of_lt hlt,
        numeral_of_lt hbase hlt]
      rfl
    · have hle := not_lt.mp hlt
      rw [numeral_of_le hpos hbase hle, List.length_append, List.length_singleton] at hfuel hroom
      have hfirst := List.length_pos_iff.mpr (numeral_ne_nil uppercase base (n / base))
      have hdiv : n / base ≠ 0 := (Nat.div_pos hle (by omega)).ne'
      rw [if_pos ⟨hdiv, by rw [List.length_cons]; omega⟩,
        digitsLoop_eq hpos hbase fuel (n / base) _ (by omega) (by rw [List.length_cons]; omega),
        numeral_of_le hpos hbase hle, List.append_assoc, List.singleton_append]

/-- The loop over the digits never writes past the end, whatever the number. -/
theorem digitsLoop_fits (uppercase : Bool) (base : ℕ) : ∀ (fuel value : ℕ) (buf : List Char),
    buf.length < bufferSize → bufferSize ≤ buf.length + fuel →
    ∃ buf', digitsLoop uppercase base fuel value buf = some buf' ∧ Fits buf'
  | 0, _, _, hlt, hfuel => absurd hlt (not_lt.mpr hfuel)
  | fuel + 1, value, buf, hlt, hfuel => by
    rw [digitsLoop, put_eq hlt, Option.bind_eq_bind, Option.bind_some]
    split
    · next hmore =>
      exact digitsLoop_fits uppercase base fuel _ _ hmore.2 (by rw [List.length_cons]; omega)
    · exact ⟨_, rfl, hlt⟩

/-- The buffer with the alternate form: a digit or two are dropped if the number fills its field, or
its precision, and the prefix is put in front. -/
def withHash (buf : List Char) (base prec width : ℕ) (flags : Flags) : List Char :=
  let buf :=
    if flags.precision = false ∧ buf ≠ [] ∧ (buf.length = prec ∨ buf.length = width) then
      buf.drop (if base = 16 then 2 else 1)
    else buf
  let buf :=
    if base = 16 then room buf (if flags.uppercase then 'X' else 'x')
    else if base = 2 then room buf 'b'
    else buf
  room buf '0'

theorem putHash_eq (buf : List Char) (base prec width : ℕ) (flags : Flags) :
    putHash buf base prec width flags = some (withHash buf base prec width flags) := by
  have hdrop : (if buf.tail ≠ [] ∧ base = 16 then buf.tail.tail else buf.tail) =
      buf.drop (if base = 16 then 2 else 1) := by
    by_cases hbase : base = 16
    · rw [if_pos hbase]
      match buf with
      | [] => rfl
      | [_] => rfl
      | _ :: _ :: _ => exact if_pos ⟨List.cons_ne_nil _ _, hbase⟩
    · rw [if_neg (fun h => hbase h.2), if_neg hbase, List.drop_one]
  unfold putHash withHash
  simp only [hdrop, putIfRoom_eq]
  by_cases hbase : base = 16
  · simp only [if_pos hbase, Option.bind_eq_bind, Option.bind_some]
  · by_cases htwo : base = 2
    · simp only [if_neg hbase, if_pos htwo, Option.bind_eq_bind, Option.bind_some]
    · simp only [if_neg hbase, if_neg htwo, Option.bind_eq_bind, Option.bind_some]

/-- The sign of a number. -/
def signOf (negative : Bool) (flags : Flags) : Option Char :=
  if negative then some '-' else if flags.plus then some '+' else if flags.space then some ' '
  else none

/-- The buffer with the sign, if there is one and room for it. -/
def withSign (buf : List Char) (negative : Bool) (flags : Flags) : List Char :=
  match signOf negative flags with
  | some c => room buf c
  | none => buf

theorem putSign_eq (buf : List Char) (negative : Bool) (flags : Flags) :
    putSign buf negative flags = some (withSign buf negative flags) := by
  unfold putSign withSign signOf
  cases negative <;> cases flags.plus <;> cases flags.space <;> simp [putIfRoom_eq]

/-- The width without the place of the sign, if zeros are to fill it. -/
def zeroWidth (negative : Bool) (width : ℕ) (flags : Flags) : ℕ :=
  if flags.left = false ∧ width ≠ 0 ∧ flags.zeropad = true ∧
      (negative || flags.plus || flags.space) = true then width - 1
  else width

/-- The digits of a number with the zeros of precision and width. -/
def withZeros (buf : List Char) (negative : Bool) (prec width : ℕ) (flags : Flags) : List Char :=
  if flags.left then buf
  else if flags.zeropad then fillZeros (zeroWidth negative width flags) (fillZeros prec buf)
  else fillZeros prec buf

/-- What `_ntoa_format` puts out. -/
def sized (buf : List Char) (negative : Bool) (base prec width : ℕ) (flags : Flags) : List Char :=
  let buf := withZeros buf negative prec width flags
  let buf := if flags.hash then withHash buf base prec (zeroWidth negative width flags) flags else buf
  inField (withSign buf negative flags) (zeroWidth negative width flags) flags

/-- **`_ntoa_format`.** -/
theorem ntoaFormat_eq (state : State) {buf : List Char} (h : Fits buf) (negative : Bool)
    (base prec width : ℕ) (flags : Flags) :
    ntoaFormat state buf negative base prec width flags =
      some (state.emit (sized buf negative base prec width flags)) := by
  have hprec : ∀ bound, zerosLoop bound (bufferSize + 1) buf = some (fillZeros bound buf) :=
    fun bound => zerosLoop_eq bound _ _ h (by omega)
  have hwidth : ∀ bound bound', zerosLoop bound (bufferSize + 1) (fillZeros bound' buf) =
      some (fillZeros bound (fillZeros bound' buf)) :=
    fun bound bound' => zerosLoop_eq bound _ _ (h.fillZeros bound') (by omega)
  unfold ntoaFormat sized withZeros zeroWidth
  cases hleft : flags.left <;> cases hzero : flags.zeropad <;> cases hhash : flags.hash <;>
    simp only [hprec, hwidth, putHash_eq, putSign_eq, outRev_eq, Option.bind_eq_bind,
      Option.bind_some, Bool.false_eq_true, if_false, if_true]

/-- An integer, when its digits are in the buffer. -/
theorem ntoa_of_digits (state : State) {value base : ℕ} {flags : Flags} {buf : List Char}
    (h : Fits buf) (hsome : flags.precision = false ∨ value ≠ 0 →
      digitsLoop flags.uppercase base bufferSize value [] = some buf)
    (hnone : ¬ (flags.precision = false ∨ value ≠ 0) → buf = []) (negative : Bool)
    (prec width : ℕ) :
    ntoa state value negative base prec width flags =
      some (state.emit (sized buf negative base prec width
        (if value = 0 then { flags with hash := false } else flags))) := by
  have hflags : (if value = 0 then { flags with hash := false } else flags).precision =
      flags.precision ∧ (if value = 0 then { flags with hash := false } else flags).uppercase =
      flags.uppercase := by
    split <;> exact ⟨rfl, rfl⟩
  have hformat := ntoaFormat_eq state h negative base prec width
    (if value = 0 then { flags with hash := false } else flags)
  unfold ntoa
  dsimp only
  rw [hflags.1, hflags.2]
  by_cases hdigits : flags.precision = false ∨ value ≠ 0
  · rw [if_pos hdigits, hsome hdigits]
    exact hformat
  · rw [hnone hdigits] at hformat ⊢
    rw [if_neg hdigits]
    exact hformat

/-- The digits in the buffer: none for a zero with a precision. -/
def digitsOf (uppercase precision : Bool) (base value : ℕ) : List Char :=
  if precision = false ∨ value ≠ 0 then numeral uppercase base value else []

/-- **An integer whose digits have room** is put out with its zeros, its prefix and its sign. -/
theorem ntoa_eq (state : State) {value base : ℕ} (hpos : 1 < base) (hbase : base ≤ 16)
    {flags : Flags} (hroom : (numeral flags.uppercase base value).length ≤ bufferSize)
    (negative : Bool) (prec width : ℕ) :
    ntoa state value negative base prec width flags =
      some (state.emit (sized (digitsOf flags.uppercase flags.precision base value) negative base
        prec width (if value = 0 then { flags with hash := false } else flags))) := by
  unfold digitsOf
  refine ntoa_of_digits state ?_ (fun hdigits => ?_) (fun hdigits => if_neg hdigits) _ _ _
  · split
    · exact hroom
    · exact fits_nil
  · rw [if_pos hdigits, digitsLoop_eq hpos hbase _ _ _ hroom (by rwa [List.length_nil,
      Nat.zero_add]), List.append_nil]

end Prosperismo.GuestPrintf
