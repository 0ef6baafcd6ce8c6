import Prosperismo.GuestPrintf.Ntoa

/-!
# Directives of integers

A directive as it is written in a format, `Conversion`, what C reads in it and in the arguments
(`spec` and `value`), and what the code reads (`read`). The code reads numbers with the wrap of
`unsigned int`, and takes a negative precision for a precision of zero, where C ignores it.
-/

namespace Prosperismo.GuestPrintf

/-! ### As they are written -/

/-- The flags. -/
inductive Flag
  | zero
  | minus
  | plus
  | space
  | hash
deriving DecidableEq

/-- The character of a flag. -/
def Flag.char : Flag → Char
  | zero => '0'
  | minus => '-'
  | plus => '+'
  | space => ' '
  | hash => '#'

/-- The number of a width or of a precision: its digits, which may be none, or an argument. -/
inductive Amount
  | number (digits : List (Fin 10))
  | star
deriving DecidableEq

namespace Amount

/-- How the number is written. -/
def text : Amount → List Char
  | number digits => digits.map fun digit : Fin 10 => Nat.digitChar digit
  | star => ['*']

/-- The value of digits. -/
def ofDigits (i : ℕ) (digits : List (Fin 10)) : ℕ := digits.foldl (fun i digit => 10 * i + digit) i

/-- The value of the number, and the arguments that are left. -/
def value (args : VaList) : Amount → ℤ × VaList
  | number digits => (ofDigits 0 digits, args)
  | star => (args.int.1.toInt, args.int.2)

end Amount

/-- The length modifiers. -/
inductive Length
  | int
  | hh
  | h
  | l
  | ll
  | j
  | z
  | t
deriving DecidableEq

namespace Length

/-- How the modifier is written. -/
def text : Length → List Char
  | int => []
  | hh => ['h', 'h']
  | h => ['h']
  | l => ['l']
  | ll => ['l', 'l']
  | j => ['j']
  | z => ['z']
  | t => ['t']

/-- The width of the type. -/
def bits : Length → ℕ
  | int => 32
  | hh => 8
  | h => 16
  | _ => 64

end Length

/-- The character of a specifier. -/
def Specifier.char : Specifier → Char
  | d => 'd'
  | i => 'i'
  | u => 'u'
  | x => 'x'
  | X => 'X'
  | o => 'o'

/-- A directive of an integer. A zero in front of the width is a flag. -/
structure Conversion where
  flags : List Flag
  width : Amount
  precision : Option Amount
  length : Length
  specifier : Specifier
  noZero : ∀ digits, width ≠ .number (0 :: digits)

namespace Conversion

variable (c : Conversion) (args : VaList)

/-- The precision with its point. -/
def precisionText : List Char :=
  match c.precision with
  | none => []
  | some amount => '.' :: amount.text

/-- The directive as it is written. -/
def text : List Char :=
  '%' :: (c.flags.map Flag.char ++ (c.width.text ++ (c.precisionText ++
    (c.length.text ++ [c.specifier.char]))))

/-! ### As C reads them -/

/-- The width as it is given, and the arguments behind it. -/
def widthValue : ℤ × VaList := c.width.value args

/-- The precision as it is given, if it is, and the arguments behind it. -/
def precisionValue : Option ℤ × VaList :=
  match c.precision with
  | none => (none, (c.widthValue args).2)
  | some amount => (some (amount.value (c.widthValue args).2).1, (amount.value (c.widthValue args).2).2)

/-- What C reads: a negative width is the `-` flag and a width, a negative precision is none. -/
def spec : Spec where
  zero := decide (.zero ∈ c.flags)
  left := decide (.minus ∈ c.flags) || decide ((c.widthValue args).1 < 0)
  plus := decide (.plus ∈ c.flags)
  space := decide (.space ∈ c.flags)
  hash := decide (.hash ∈ c.flags)
  width := (c.widthValue args).1.natAbs
  precision := ((c.precisionValue args).1.filter (0 ≤ ·)).map Int.toNat
  specifier := c.specifier

/-- The integer: the argument converted to the type of the directive. -/
def value : ℤ :=
  let arg := (c.precisionValue args).2.nextGp.1.setWidth c.length.bits
  if c.specifier.signed then arg.toInt else arg.toNat

/-- The arguments behind those of the directive. -/
def rest : VaList := (c.precisionValue args).2.nextGp.2

/-! ### As the code reads them -/

/-- What the code reads. -/
def read : Spec :=
  { c.spec args with
    width := (c.widthValue args).1.natAbs % 0x100000000
    precision := (c.precisionValue args).1.map fun p => p.toNat % 0x100000000 }

/-- Whether the precision is a negative argument. -/
def ignoresPrecision : Bool := (c.precisionValue args).1.any (· < 0)

/-- **The condition**: the width is an `unsigned int`, and the text of C is given by what is
written. A negative precision must make no difference: the number is not zero, and zeros for the
width are not asked for, overridden, or not needed. -/
def Faithful : Prop :=
  (c.spec args).width < 0x100000000 ∧
    if c.ignoresPrecision args then
      c.value args ≠ 0 ∧ ((c.spec args).left = true ∨ (c.spec args).zero = false ∨
        (c.spec args).width ≤ ((c.spec args).sign (c.value args) ++
          (c.spec args).altPrefix (c.value args).natAbs ++
          (c.spec args).digits (c.value args).natAbs).length)
    else (c.spec args).Faithful (c.value args)

instance : Decidable (c.Faithful args) := by
  unfold Faithful
  infer_instance

end Conversion

/-! ### Reading -/

/-- The flag in the flags of the code. -/
def Flag.add (flags : Flags) : Flag → Flags
  | zero => { flags with zeropad := true }
  | minus => { flags with left := true }
  | plus => { flags with plus := true }
  | space => { flags with space := true }
  | hash => { flags with hash := true }

theorem readFlags_append (written : List Flag) (flags : Flags) {c : Char} (format : List Char)
    (h : ∀ flag : Flag, c ≠ flag.char) :
    readFlags flags (written.map Flag.char ++ c :: format) =
      some (written.foldl Flag.add flags, c :: format) := by
  induction written generalizing flags with
  | nil =>
    simp only [List.map_nil, List.nil_append, List.foldl_nil]
    unfold readFlags
    split
    · next heq => cases heq
    · next heq => exact absurd (List.cons.inj heq).1 (h .zero)
    · next heq => exact absurd (List.cons.inj heq).1 (h .minus)
    · next heq => exact absurd (List.cons.inj heq).1 (h .plus)
    · next heq => exact absurd (List.cons.inj heq).1 (h .space)
    · next heq => exact absurd (List.cons.inj heq).1 (h .hash)
    · rfl
  | cons flag written ih =>
    rw [List.map_cons, List.cons_append, List.foldl_cons, ← ih]
    cases flag <;> rfl

/-- The flags that are read are those that are written. -/
theorem foldl_add (written : List Flag) (flags : Flags) :
    written.foldl Flag.add flags =
      { flags with
        zeropad := flags.zeropad || decide (.zero ∈ written)
        left := flags.left || decide (.minus ∈ written)
        plus := flags.plus || decide (.plus ∈ written)
        space := flags.space || decide (.space ∈ written)
        hash := flags.hash || decide (.hash ∈ written) } := by
  induction written generalizing flags with
  | nil => simp
  | cons flag written ih =>
    rw [List.foldl_cons, ih]
    cases flag <;> simp [Flag.add]

theorem isDigit_digitChar (digit : Fin 10) : (Nat.digitChar digit).isDigit = true := by
  revert digit
  decide

theorem toNat_digitChar (digit : Fin 10) : (Nat.digitChar digit).toNat - '0'.toNat = digit := by
  revert digit
  decide

theorem atoi_append (digits : List (Fin 10)) (i : ℕ) {c : Char} (format : List Char)
    (h : c.isDigit = false) :
    atoi (i % 0x100000000) (digits.map (fun digit : Fin 10 => Nat.digitChar digit) ++ c :: format) =
      some (Amount.ofDigits i digits % 0x100000000, c :: format) := by
  induction digits generalizing i with
  | nil =>
    simp only [List.map_nil, List.nil_append]
    rw [atoi, h]
    rfl
  | cons digit digits ih =>
    rw [List.map_cons, List.cons_append, atoi, isDigit_digitChar, if_pos rfl, toNat_digitChar]
    have hstep : (10 * (i % 0x100000000) + digit) % 0x100000000 =
        (10 * i + digit) % 0x100000000 := by omega
    rw [hstep, ih]
    rfl

/-- An `int` is in range. -/
theorem int_bounds (args : VaList) : args.int.1.toInt.natAbs ≤ 0x80000000 := by
  have hlt := BitVec.toInt_lt (x := args.int.1)
  have hle := BitVec.le_toInt (x := args.int.1)
  omega

/-- A character behind a number is no digit, and no argument. -/
def Ends (c : Char) : Prop := c.isDigit = false ∧ c ≠ '*'

theorem readWidth_append (flags : Flags) (precision : ℕ) (args : VaList) (amount : Amount)
    {c : Char} (format : List Char) (h : Ends c) :
    readWidth ⟨flags, 0, precision, args⟩ (amount.text ++ c :: format) =
      some (⟨{ flags with left := flags.left || decide ((amount.value args).1 < 0) },
        (amount.value args).1.natAbs % 0x100000000, precision, (amount.value args).2⟩,
        c :: format) := by
  cases amount with
  | star =>
    have hsmall := int_bounds args
    have hmod : args.int.1.toInt.natAbs % 0x100000000 = args.int.1.toInt.natAbs :=
      Nat.mod_eq_of_lt (by omega)
    change readWidth ⟨flags, 0, precision, args⟩ ('*' :: c :: format) = _
    rw [Amount.value, hmod]
    rfl
  | number digits =>
    have hflags : { flags with
        left := flags.left || decide (((Amount.number digits).value args).1 < 0) } = flags := by
      have hnot : ¬ ((Amount.ofDigits 0 digits : ℕ) : ℤ) < 0 := by omega
      simp [Amount.value, hnot]
    rw [hflags]
    cases digits with
    | nil =>
      change readWidth ⟨flags, 0, precision, args⟩ (c :: format) = _
      rw [readWidth, h.1, if_neg Bool.false_ne_true, if_neg h.2]
      rfl
    | cons digit digits =>
      have hatoi := atoi_append (digit :: digits) 0 format h.1
      change readWidth ⟨flags, 0, precision, args⟩
        (Nat.digitChar digit :: (digits.map _ ++ c :: format)) = _
      rw [readWidth, isDigit_digitChar, if_pos rfl]
      change (atoi 0 _).bind _ = _
      rw [show atoi 0 (Nat.digitChar digit :: (digits.map _ ++ c :: format)) = _ from hatoi]
      rfl

theorem readPrecisionDigits_append (flags : Flags) (width : ℕ) (args : VaList) (amount : Amount)
    {c : Char} (format : List Char) (h : Ends c) :
    readPrecisionDigits ⟨flags, width, 0, args⟩ (amount.text ++ c :: format) =
      some (⟨flags, width, (amount.value args).1.toNat % 0x100000000, (amount.value args).2⟩,
        c :: format) := by
  cases amount with
  | star =>
    have hsmall := int_bounds args
    have hmod : args.int.1.toInt.toNat % 0x100000000 = args.int.1.toInt.toNat :=
      Nat.mod_eq_of_lt (by omega)
    change readPrecisionDigits ⟨flags, width, 0, args⟩ ('*' :: c :: format) = _
    rw [Amount.value, hmod]
    rfl
  | number digits =>
    cases digits with
    | nil =>
      change readPrecisionDigits ⟨flags, width, 0, args⟩ (c :: format) = _
      rw [readPrecisionDigits, h.1, if_neg Bool.false_ne_true, if_neg h.2]
      rfl
    | cons digit digits =>
      have hatoi := atoi_append (digit :: digits) 0 format h.1
      change readPrecisionDigits ⟨flags, width, 0, args⟩
        (Nat.digitChar digit :: (digits.map _ ++ c :: format)) = _
      rw [readPrecisionDigits, isDigit_digitChar, if_pos rfl]
      change (atoi 0 _).bind _ = _
      rw [show atoi 0 (Nat.digitChar digit :: (digits.map _ ++ c :: format)) = _ from hatoi]
      rfl

/-- The length modifier in the flags of the code. -/
def Length.add (flags : Flags) : Length → Flags
  | int => flags
  | hh => { flags with short := true, char := true }
  | h => { flags with short := true }
  | l => { flags with long := true }
  | ll => { flags with long := true, longLong := true }
  | j | z | t => { flags with longLong := true }

theorem readLength_append (flags : Flags) (length : Length) (specifier : Specifier)
    (format : List Char) :
    readLength flags (length.text ++ specifier.char :: format) =
      some (length.add flags, specifier.char :: format) := by
  cases length <;> cases specifier <;> rfl

namespace Conversion

variable (c : Conversion) (args : VaList)

theorem readPrecision_append (flags : Flags) (width : ℕ) (hflag : flags.precision = false)
    {ch : Char} (format : List Char) (h : Ends ch) (hpoint : ch ≠ '.') :
    readPrecision ⟨flags, width, 0, (c.widthValue args).2⟩ (c.precisionText ++ ch :: format) =
      some (⟨{ flags with precision := c.precision.isSome }, width,
        ((c.read args).precision.getD 0), (c.precisionValue args).2⟩, ch :: format) := by
  unfold precisionText read precisionValue
  cases hprec : c.precision with
  | none =>
    rw [Option.isSome_none, ← hflag]
    dsimp only [List.nil_append]
    unfold readPrecision
    split
    · next heq => cases heq
    · next heq => exact absurd (List.cons.inj heq).1 hpoint
    · rfl
  | some amount =>
    change readPrecisionDigits _ (amount.text ++ ch :: format) = _
    rw [readPrecisionDigits_append _ _ _ _ _ h]
    rfl

/-- What is behind the precision begins with a letter. -/
theorem length_text_cons (format : List Char) :
    ∃ ch format', c.length.text ++ (c.specifier.char :: format) = ch :: format' ∧
      ch ∈ ['h', 'l', 'j', 'z', 't', 'd', 'i', 'u', 'x', 'X', 'o'] := by
  cases c.length <;> first
    | exact ⟨_, _, rfl, by decide⟩
    | exact ⟨c.specifier.char, _, rfl, by cases c.specifier <;> decide⟩

/-- What is behind the width begins with a point or a letter. -/
theorem precisionText_cons (format : List Char) :
    ∃ ch format', c.precisionText ++ (c.length.text ++ (c.specifier.char :: format)) =
      ch :: format' ∧ ch ∈ ['.', 'h', 'l', 'j', 'z', 't', 'd', 'i', 'u', 'x', 'X', 'o'] := by
  unfold precisionText
  cases c.precision with
  | none =>
    obtain ⟨ch, format', heq, hmem⟩ := c.length_text_cons format
    exact ⟨ch, format', heq, List.mem_cons_of_mem _ hmem⟩
  | some amount => exact ⟨'.', _, rfl, List.mem_cons_self ..⟩

/-- What is behind the flags begins with a digit other than zero, a star, a point or a letter. -/
theorem width_text_cons (format : List Char) :
    ∃ ch format', c.width.text ++ (c.precisionText ++ (c.length.text ++
      (c.specifier.char :: format))) = ch :: format' ∧ ∀ flag : Flag, ch ≠ flag.char := by
  cases hwidth : c.width with
  | star => exact ⟨'*', _, rfl, fun flag => by cases flag <;> decide⟩
  | number digits =>
    cases digits with
    | nil =>
      obtain ⟨ch, format', heq, hmem⟩ := c.precisionText_cons format
      refine ⟨ch, format', heq, fun flag hflag => ?_⟩
      rw [hflag] at hmem
      revert hmem
      cases flag <;> decide
    | cons digit digits =>
      refine ⟨Nat.digitChar digit, _, rfl, fun flag hflag => ?_⟩
      have hzero : digit ≠ 0 := by
        rintro rfl
        exact c.noZero digits hwidth
      clear hwidth
      revert digit
      cases flag <;> decide

/-- The flags of the code behind a directive. -/
def codeFlags : Flags :=
  c.length.add { (c.flags.foldl Flag.add {}) with
    left := decide (.minus ∈ c.flags) || decide ((c.widthValue args).1 < 0)
    precision := c.precision.isSome }

/-- **A directive is read** up to its specifier. -/
theorem readDirective_append (format : List Char) :
    readDirective args (c.flags.map Flag.char ++ (c.width.text ++ (c.precisionText ++
        (c.length.text ++ (c.specifier.char :: format))))) =
      some (⟨c.codeFlags args, (c.read args).width, (c.read args).precision.getD 0,
        (c.precisionValue args).2⟩, c.specifier.char :: format) := by
  obtain ⟨ch, format₁, hlength, hletter⟩ := c.length_text_cons format
  obtain ⟨ch₁, format₂, hprec, hpoint⟩ := c.precisionText_cons format
  obtain ⟨ch₂, format₃, hwidth, hflag⟩ := c.width_text_cons format
  have hends : ∀ ch ∈ ['.', 'h', 'l', 'j', 'z', 't', 'd', 'i', 'u', 'x', 'X', 'o'], Ends ch := by
    simp only [List.forall_mem_cons, List.not_mem_nil, false_implies, implies_true, and_true]
    unfold Ends
    refine ⟨?_, ?_, ?_, ?_, ?_, ?_, ?_, ?_, ?_, ?_, ?_, ?_⟩ <;> decide
  have hnoprec : (c.flags.foldl Flag.add {}).precision = false := by rw [foldl_add]
  have hleft : (c.flags.foldl Flag.add {}).left = decide (.minus ∈ c.flags) := by
    rw [foldl_add]
    exact Bool.false_or _
  -- the fields, one after the other
  have hfirst := readFlags_append c.flags {} format₃ hflag
  have hsecond := readWidth_append (c.flags.foldl Flag.add {}) 0 args c.width format₂
    (hends _ hpoint)
  have hthird := c.readPrecision_append args { (c.flags.foldl Flag.add {}) with
      left := decide (.minus ∈ c.flags) || decide ((c.widthValue args).1 < 0) }
    ((c.widthValue args).1.natAbs % 0x100000000) hnoprec format₁
    (hends _ (List.mem_cons_of_mem _ hletter)) (by rintro rfl; revert hletter; decide)
  rw [← hwidth, hprec] at hfirst
  rw [← hprec, hlength, hleft] at hsecond
  rw [← hlength] at hthird
  unfold readDirective
  rw [hprec, hfirst, ← hprec, hlength]
  change (readWidth ⟨_, 0, 0, args⟩ _).bind _ = _
  rw [hsecond]
  change (readPrecision ⟨_, (c.widthValue args).1.natAbs % 0x100000000, 0, _⟩ _).bind _ = _
  rw [← hlength]
  refine (congrArg (Option.bind · _) hthird).trans ?_
  change (readLength _ _).bind _ = _
  rw [readLength_append]
  rfl

theorem codeFlags_eq : c.codeFlags args =
    { zeropad := decide (.zero ∈ c.flags)
      left := decide (.minus ∈ c.flags) || decide ((c.widthValue args).1 < 0)
      plus := decide (.plus ∈ c.flags)
      space := decide (.space ∈ c.flags)
      hash := decide (.hash ∈ c.flags)
      char := c.length = .hh
      short := c.length = .hh ∨ c.length = .h
      long := c.length = .l ∨ c.length = .ll
      longLong := c.length = .ll ∨ c.length = .j ∨ c.length = .z ∨ c.length = .t
      precision := c.precision.isSome } := by
  unfold codeFlags
  rw [foldl_add]
  cases c.length <;> simp [Length.add]

theorem isNone_precision : (c.read args).precision.isNone = !c.precision.isSome := by
  unfold read precisionValue
  cases c.precision <;> rfl

theorem isSome_precision : (c.read args).precision.isSome = c.precision.isSome := by
  unfold read precisionValue
  cases c.precision <;> rfl

/-- The type of the value, for the flags of the length modifier. -/
theorem value_of_length {α : Type} (length : Length) (long short char other : α) :
    (if decide (length = .ll ∨ length = .j ∨ length = .z ∨ length = .t) ||
        decide (length = .l ∨ length = .ll) then long
      else if decide (length = .hh) then char
      else if decide (length = .hh ∨ length = .h) then short
      else other) =
    match length with
    | .int => other
    | .hh => char
    | .h => short
    | _ => long := by
  cases length <;> simp

/-- What the code computes from a specifier. -/
theorem specifier_char (s : Specifier) :
    (if s.char = 'x' ∨ s.char = 'X' then 16 else if s.char = 'o' then 8
      else if s.char = 'b' then 2 else 10) = s.base ∧
    (s.char = 'i' ∨ s.char = 'd' ↔ s.signed = true) ∧ decide (s.char = 'X') = s.uppercase := by
  cases s <;> decide

/-- An integer is handed on as C converts it, with flags that agree with what is read. -/
theorem printInteger_eq (width precision : ℕ) :
    ∃ flags, FlagsOf (c.read args) flags ∧ ∀ state,
      printInteger state c.specifier.char
          ⟨c.codeFlags args, width, precision, (c.precisionValue args).2⟩
          (c.precisionValue args).2.nextGp.1 =
        ntoa state (c.value args).natAbs (decide (c.value args < 0)) c.specifier.base precision
          width flags := by
  have hnone := c.isNone_precision args
  have hsome := c.isSome_precision args
  unfold printInteger value
  generalize (c.precisionValue args).2.nextGp.1 = arg
  rw [codeFlags_eq]
  dsimp only
  rw [value_of_length, value_of_length]
  obtain ⟨hbase, hsigned, hupper⟩ := specifier_char c.specifier
  have hflags : ∀ signed, signed = c.specifier.signed → FlagsOf (c.read args)
      { zeropad := decide (.zero ∈ c.flags) && !c.precision.isSome
        left := decide (.minus ∈ c.flags) || decide ((c.widthValue args).1 < 0)
        plus := decide (.plus ∈ c.flags) && signed
        space := decide (.space ∈ c.flags) && signed
        hash := decide (.hash ∈ c.flags) && c.specifier.base != 10
        uppercase := false || decide (c.specifier.char = 'X')
        char := c.length = .hh
        short := c.length = .hh ∨ c.length = .h
        long := c.length = .l ∨ c.length = .ll
        longLong := c.length = .ll ∨ c.length = .j ∨ c.length = .z ∨ c.length = .t
        precision := c.precision.isSome } := fun signed heq =>
    { left := rfl
      zeropad := by rw [hnone]; rfl
      precision := hsome.symm
      plus := by rw [heq]; rfl
      space := by rw [heq]; rfl
      hash := rfl
      uppercase := hupper }
  simp only [hbase, hsigned]
  cases hs : c.specifier.signed with
  | true =>
    refine ⟨_, hflags true hs.symm, fun state => ?_⟩
    cases c.length <;> simp [Length.bits]
  | false =>
    refine ⟨_, hflags false hs.symm, fun state => ?_⟩
    have hpos (n : ℕ) : decide ((n : ℤ) < 0) = false := decide_eq_false (by omega)
    simp only [Bool.false_eq_true, if_false, Int.natAbs_natCast, hpos]
    cases c.length <;> simp [Length.bits]

/-- A value has at most `64` bits, and is not negative when it is unsigned. -/
theorem value_bounds : (c.value args).natAbs < 0x10000000000000000 ∧
    (c.specifier.signed = false → 0 ≤ c.value args) := by
  unfold value
  have hbits : c.length.bits ≤ 64 := by cases c.length <;> decide
  generalize (c.precisionValue args).2.nextGp.1.setWidth c.length.bits = arg
  have hwidth : 2 ^ c.length.bits ≤ 0x10000000000000000 :=
    le_trans (Nat.pow_le_pow_right Nat.two_pos hbits) (by decide)
  have hlt := arg.isLt
  cases c.specifier.signed with
  | false => simp only [Bool.false_eq_true, if_false]; omega
  | true =>
    have habs : arg.toInt.natAbs < 2 ^ c.length.bits := by
      rw [BitVec.toInt_eq_toNat_cond]
      split <;> omega
    simp only [if_true]
    exact ⟨by omega, by simp⟩

/-- **What the code prints for a directive**, wherever it stands in a format. -/
theorem formatLoop_append (ops : FloatOps) (memory : BitVec 64 → List Char) :
    ∃ flags, FlagsOf (c.read args) flags ∧ ∀ fuel state format,
      formatLoop ops memory (fuel + 1) state args (c.text ++ format) =
        formatLoop ops memory fuel (state.emit (printed (c.read args) (c.value args) flags))
          (c.rest args) format := by
  obtain ⟨flags, hflags, hprint⟩ :=
    c.printInteger_eq args (c.read args).width ((c.read args).precision.getD 0)
  refine ⟨flags, hflags, fun fuel state format => ?_⟩
  have hwritten : c.text ++ format = '%' :: (c.flags.map Flag.char ++ (c.width.text ++
      (c.precisionText ++ (c.length.text ++ c.specifier.char :: format)))) := by
    simp [Conversion.text]
  have hcase : c.specifier.char ∈ ['d', 'i', 'u', 'x', 'X', 'o', 'b'] := by
    cases c.specifier <;> decide
  rw [hwritten, formatLoop, if_neg (by decide), if_neg (by decide), c.readDirective_append args]
  simp only [Option.bind_eq_bind, Option.bind_some]
  rw [printDirective, if_pos hcase, hprint, show c.specifier = (c.read args).specifier from rfl,
    ntoa_printed state hflags (c.value_bounds args).1]
  rfl

/-! ### What is read, and what C reads -/

/-- A text in its field is not narrower. -/
theorem width_le_text (spec : Spec) (v : ℤ) : spec.width ≤ (spec.text v).length := by
  unfold Spec.text
  dsimp only
  split_ifs <;> simp only [List.length_append, List.length_replicate] <;> omega

theorem precision_le_text {spec : Spec} {p : ℕ} (h : spec.precision = some p) (v : ℤ) :
    p ≤ (spec.text v).length := by
  have hmagnitude : p ≤ (spec.magnitude v.natAbs).length := by
    unfold Spec.magnitude
    rw [h, List.length_append, List.length_replicate, Option.getD_some]
    omega
  have hdigits : p ≤ (spec.digits v.natAbs).length := by
    unfold Spec.digits
    split
    · rw [List.length_cons]
      omega
    · exact hmagnitude
  unfold Spec.text
  dsimp only
  split_ifs <;> simp only [List.length_append, List.length_replicate] <;> omega

end Conversion

end Prosperismo.GuestPrintf
