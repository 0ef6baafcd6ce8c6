import Prosperismo.GuestPrintf.Integers

/-!
# When an integer is printed as C prescribes

`_ntoa_format` and the text of C, form by form: without an alternate form, with the prefix of `x`
and `X`, with the zero of `o`. -/

namespace Prosperismo.GuestPrintf

variable {flags : Flags} {buf : List Char}

/-! ### Directive and flags -/

/-- What the directive and the flags of the code have in common, and the digits of the number. -/
structure Agrees (spec : Spec) (v : ℤ) (flags : Flags) (digits : List Char) : Prop where
  left : flags.left = spec.left
  zeropad : flags.zeropad = (spec.zero && spec.precision.isNone)
  precision : flags.precision = spec.precision.isSome
  sign : (signOf (decide (v < 0)) flags).toList = spec.sign v
  length : digits.length = spec.length v
  short : digits.length ≤ 22
  seen : visible digits = digits.length

variable {spec : Spec} {v : ℤ} {digits : List Char}

/-- The text of C in a field of spaces. -/
theorem Spec.text_eq_field (h : spec.left = true ∨ spec.zero = false ∨ spec.precision ≠ none) :
    spec.text v = field spec.left spec.width
      (spec.sign v ++ spec.altPrefix v.natAbs ++ spec.digits v.natAbs) := by
  unfold Spec.text field
  cases hleft : spec.left with
  | true => rfl
  | false =>
    rw [hleft] at h
    simp only [Bool.false_eq_true, if_false, false_or] at h ⊢
    rw [if_neg]
    rintro ⟨hzero, hnone⟩
    exact h.elim (fun hfalse => by rw [hfalse] at hzero; cases hzero) fun hsome => hsome hnone

/-- The text of C with zeros. -/
theorem Spec.text_eq_zeros (hleft : spec.left = false) (hzero : spec.zero = true)
    (hnone : spec.precision = none) :
    spec.text v = spec.sign v ++ spec.altPrefix v.natAbs ++
      (List.replicate (spec.width -
        (spec.sign v ++ spec.altPrefix v.natAbs ++ spec.digits v.natAbs).length) '0' ++
        spec.digits v.natAbs) := by
  unfold Spec.text
  rw [hleft, hzero, hnone]
  rfl

/-- The text of the code in a field of spaces, before the alternate form and the sign. -/
theorem Agrees.sized_eq_field (h : Agrees spec v flags digits) {base : ℕ}
    (hfield : spec.left = true ∨ spec.zero = false ∨ spec.precision ≠ none) :
    sized digits (decide (v < 0)) base (spec.precision.getD 0) spec.width flags =
      field spec.left spec.width (withSign
        (if flags.hash then withHash (if spec.left then digits
            else fillZeros (spec.precision.getD 0) digits) base (spec.precision.getD 0) spec.width
            flags
          else if spec.left then digits else fillZeros (spec.precision.getD 0) digits)
        (decide (v < 0)) flags) := by
  have hflags : flags.left = true ∨ flags.zeropad = false := by
    rw [h.left, h.zeropad]
    cases hprec : spec.precision <;> simp_all
  have hzeros : withZeros digits (decide (v < 0)) (spec.precision.getD 0) spec.width flags =
      if spec.left then digits else fillZeros (spec.precision.getD 0) digits := by
    unfold withZeros
    rw [h.left]
    cases hleft : spec.left with
    | true => rfl
    | false =>
      rw [h.left, hleft] at hflags
      rw [hflags.resolve_left Bool.false_ne_true]
      rfl
  unfold sized
  simp only [hzeros, zeroWidth_eq hflags, inField_eq hflags, h.left]

/-- The text of the code with zeros. -/
theorem Agrees.sized_eq_zeros (h : Agrees spec v flags digits) {base : ℕ}
    (hleft : spec.left = false) (hzero : spec.zero = true) (hnone : spec.precision = none) :
    sized digits (decide (v < 0)) base (spec.precision.getD 0) spec.width flags =
      withSign (if flags.hash then
          withHash (fillZeros (spec.width - (spec.sign v).length) digits) base 0
            (spec.width - (spec.sign v).length) flags
        else fillZeros (spec.width - (spec.sign v).length) digits) (decide (v < 0)) flags := by
  have hleft' : flags.left = false := h.left.trans hleft
  have hzero' : flags.zeropad = true := by rw [h.zeropad, hzero, hnone]; rfl
  have hwidth := zeroWidth_zeros hleft' hzero' (decide (v < 0)) spec.width
  rw [h.sign] at hwidth
  unfold sized withZeros inField
  simp only [hleft', hzero', hnone, hwidth, Bool.false_eq_true, if_false, if_true,
    Option.getD_none, fillZeros_zero]

/-- The condition without an alternate form. -/
def PlainFaithful (spec : Spec) (v : ℤ) : Prop :=
  match spec.precision with
  | none => (spec.left = true ∨ spec.zero = false) ∨ spec.width ≤ 32
  | some p =>
    if spec.left = true then p ≤ spec.length v
    else p < 32 ∨ p = 32 ∧ (spec.sign v = [] ∨ spec.sign v = [' '] ∧ 32 < spec.width)

/-- Digits with the zeros of a precision of the buffer's size. -/
theorem length_fillZeros_full (hshort : digits.length ≤ 22) {n : ℕ} (h : 32 ≤ n) :
    (fillZeros n digits).length = 32 := by
  rw [length_fillZeros]
  unfold bufferSize
  omega

theorem fillZeros_of_le {n : ℕ} (h : n ≤ 32) (digits : List Char) :
    fillZeros n digits = List.replicate (n - digits.length) '0' ++ digits := by
  unfold fillZeros bufferSize
  rw [min_eq_left h]

/-- A number whose buffer is full goes without its sign. -/
theorem withSign_full (hfull : buf.length = 32) (negative : Bool) (flags : Flags) :
    withSign buf negative flags = buf := by
  rw [withSign_eq, if_neg (by rw [hfull]; decide)]

/-- A sign that is not a space is seen. -/
theorem Spec.sign_cases (spec : Spec) (v : ℤ) :
    spec.sign v = [] ∨ spec.sign v = [' '] ∨
      visible (spec.sign v) = 1 ∧ spec.sign v ≠ [] ∧ spec.sign v ≠ [' '] := by
  unfold Spec.sign
  split_ifs <;> simp [visible]

/-- A number that fills the buffer goes without its sign, which is right when there is none, or when
it is a space among others. -/
theorem field_sign_iff {zeros : List Char} (hfull : zeros.length = 32) :
    field false width zeros = field false width (spec.sign v ++ zeros) ↔
      spec.sign v = [] ∨ spec.sign v = [' '] ∧ 32 < width := by
  obtain hnone | hspace | ⟨hseen, hsome, hnospace⟩ := spec.sign_cases v
  · rw [hnone]
    exact iff_of_true rfl (.inl rfl)
  · rw [hspace, List.singleton_append, field_space_iff, hfull]
    simp
  · refine iff_of_false (field_ne ?_) (by tauto)
    rw [visible_append, hseen]
    omega

/-- **Without an alternate form.** -/
theorem Agrees.plain (h : Agrees spec v flags digits) {base : ℕ} (hhash : flags.hash = false)
    (haltPrefix : spec.altPrefix v.natAbs = [])
    (hdigits : spec.digits v.natAbs =
      List.replicate (spec.precision.getD 0 - digits.length) '0' ++ digits) :
    sized digits (decide (v < 0)) base (spec.precision.getD 0) spec.width flags = spec.text v ↔
      PlainFaithful spec v := by
  have hshort := h.short
  have hone : (spec.sign v).length ≤ 1 := h.sign ▸ length_sign_le ..
  have hsigned : ∀ buf : List Char, buf.length < 32 →
      withSign buf (decide (v < 0)) flags = spec.sign v ++ buf := fun buf hlt => by
    rw [withSign_eq, if_pos (show buf.length < bufferSize from hlt), h.sign]
  unfold PlainFaithful
  cases hprec : spec.precision with
  | none =>
    dsimp only
    by_cases hfield : spec.left = true ∨ spec.zero = false
    · -- nothing is filled up with zeros
      refine iff_of_true ?_ (.inl hfield)
      rw [← hprec, h.sized_eq_field (by tauto), Spec.text_eq_field (by tauto), hhash, haltPrefix,
        hdigits, hprec]
      simp only [Option.getD_none, fillZeros_zero, Bool.false_eq_true, if_false, ite_self,
        Nat.zero_sub, List.replicate_zero, List.nil_append, List.append_nil]
      rw [hsigned digits (by omega)]
    · obtain ⟨hleft, hzero⟩ := not_or.mp hfield
      rw [Bool.not_eq_true] at hleft
      rw [Bool.not_eq_false] at hzero
      have htext := Spec.text_eq_zeros (v := v) hleft hzero hprec
      rw [haltPrefix, hdigits, hprec, List.append_nil, Option.getD_none, Nat.zero_sub,
        List.replicate_zero, List.nil_append, List.length_append] at htext
      rw [← hprec, h.sized_eq_zeros hleft hzero hprec, hhash, htext]
      simp only [Bool.false_eq_true, if_false]
      constructor
      · intro heq
        right
        by_contra hwide
        have hfull := length_fillZeros_full hshort
          (show 32 ≤ spec.width - (spec.sign v).length by omega)
        rw [withSign_full hfull] at heq
        have hlength := congrArg List.length heq
        rw [hfull] at hlength
        simp only [List.length_append, List.length_replicate] at hlength
        omega
      · intro hnarrow
        have hnarrow := hnarrow.resolve_left hfield
        rw [fillZeros_of_le (by omega)]
        by_cases hroom : (spec.sign v).length = 0
        · rw [List.length_eq_zero_iff.mp hroom, withSign_eq, h.sign,
            List.length_eq_zero_iff.mp hroom]
          simp only [List.nil_append, List.length_nil, Nat.sub_zero, Nat.zero_add, ite_self]
        · rw [hsigned _ (by simp only [List.length_append, List.length_replicate]; omega),
            Nat.sub_sub]
  | some p =>
    dsimp only
    have hsome : spec.precision ≠ none := by rw [hprec]; simp
    rw [← hprec, h.sized_eq_field (.inr (.inr hsome)), Spec.text_eq_field (.inr (.inr hsome)), hhash,
      haltPrefix, hdigits, hprec, List.append_nil, Option.getD_some]
    simp only [Bool.false_eq_true, if_false]
    cases hleft : spec.left with
    | true =>
      simp only [if_true]
      rw [hsigned digits (by omega), field_zeros_iff, h.length]
      omega
    | false =>
      simp only [Bool.false_eq_true, if_false]
      by_cases hlt : p < 32
      · refine iff_of_true ?_ (.inl hlt)
        rw [fillZeros_of_le hlt.le, hsigned _ (by
          simp only [List.length_append, List.length_replicate]; omega)]
      · have hfull := length_fillZeros_full hshort (not_lt.mp hlt)
        rw [withSign_full hfull]
        by_cases heq : p = 32
        · subst heq
          rw [fillZeros_of_le le_rfl] at hfull ⊢
          rw [field_sign_iff hfull]
          simp
        · -- the zeros do not fit into the buffer
          refine iff_of_false (field_ne ?_) (by omega)
          have hle := visible_le (fillZeros p digits)
          rw [visible_append, visible_append, visible_zeros, h.seen]
          omega

/-- Without a sign the buffer is what is put out. -/
theorem Agrees.withSign_eq (h : Agrees spec v flags digits) (hsign : spec.sign v = [])
    (buf : List Char) : withSign buf (decide (v < 0)) flags = buf := by
  rw [GuestPrintf.withSign_eq, h.sign, hsign, List.nil_append, ite_self]

/-- The condition for an alternate form of `k` characters, without a precision. -/
def AltFaithful (spec : Spec) (v : ℤ) (k : ℕ) : Prop :=
  if spec.left = true ∨ spec.zero = false then spec.width ≠ spec.length v
  else spec.width < spec.length v ∨ spec.length v + k ≤ spec.width ∧ spec.width ≤ 32

/-- **With an alternate form, and without a precision.** The form is `front`, and takes the place of
as many digits if the number fills its field. -/
theorem Agrees.alternate (h : Agrees spec v flags digits) (hhash : flags.hash = true)
    (hsign : spec.sign v = []) (hne : digits ≠ []) (hprec : spec.precision = none) {base k : ℕ}
    {front : List Char} (hfront : front.length = k) (hseen : visible front = k) (hpos : 0 < k)
    (hle : k ≤ 2)
    (hform : ∀ buf rest, (if Drops buf 0 spec.width flags then buf.drop k else buf) = rest →
      rest.length ≤ 32 - k → withHash buf base 0 spec.width flags = front ++ rest)
    (htext : ∀ m, spec.altPrefix v.natAbs ++ (List.replicate m '0' ++ spec.digits v.natAbs) =
      front ++ (List.replicate m '0' ++ digits)) :
    sized digits (decide (v < 0)) base (spec.precision.getD 0) spec.width flags = spec.text v ↔
      AltFaithful spec v k := by
  have hshort := h.short
  have hlong := List.length_pos_iff.mpr hne
  have hnoprec : flags.precision = false := by rw [h.precision, hprec]; rfl
  have hbody : spec.altPrefix v.natAbs ++ spec.digits v.natAbs = front ++ digits := htext 0
  unfold AltFaithful
  by_cases hfield : spec.left = true ∨ spec.zero = false
  · rw [if_pos hfield, h.sized_eq_field (by tauto), Spec.text_eq_field (by tauto), hhash, hsign,
      hprec, List.nil_append, hbody]
    simp only [Option.getD_none, fillZeros_zero, ite_self, if_true, h.withSign_eq hsign]
    by_cases hfills : spec.width = spec.length v
    · -- digits of the number are dropped
      refine iff_of_false (field_ne ?_) (not_not.mpr hfills)
      rw [hform _ _ (if_pos ⟨hnoprec, hne, .inr (h.length.trans hfills.symm)⟩)
        (by rw [List.length_drop]; omega), visible_append, visible_append, h.seen]
      have hdropped := visible_le (digits.drop k)
      rw [List.length_drop] at hdropped
      omega
    · have hkept : ¬ Drops digits 0 spec.width flags := by
        rintro ⟨-, -, hzero | hwidth⟩
        · omega
        · exact hfills (hwidth.symm.trans h.length)
      rw [hform _ _ (if_neg hkept) (by omega)]
      exact iff_of_true rfl hfills
  · rw [if_neg hfield]
    obtain ⟨hleft, hzero⟩ := not_or.mp hfield
    rw [Bool.not_eq_true] at hleft
    rw [Bool.not_eq_false] at hzero
    rw [h.sized_eq_zeros hleft hzero hprec, Spec.text_eq_zeros hleft hzero hprec, hhash, hsign,
      ← h.length, List.nil_append, htext, hbody]
    simp only [if_true, List.length_nil, Nat.sub_zero, h.withSign_eq hsign, List.length_append,
      hfront]
    by_cases hless : spec.width < digits.length
    · -- nothing is filled up, and nothing is dropped
      refine iff_of_true ?_ (.inl hless)
      rw [fillZeros_of_le (by omega), Nat.sub_eq_zero_of_le hless.le, List.replicate_zero,
        List.nil_append, Nat.sub_eq_zero_of_le (by omega), List.replicate_zero, List.nil_append]
      refine hform _ _ (if_neg ?_) (by omega)
      rintro ⟨-, -, hzero | hwidth⟩ <;> omega
    by_cases hwide : spec.width ≤ 32
    · rw [fillZeros_of_le hwide]
      have hdrops : Drops (List.replicate (spec.width - digits.length) '0' ++ digits) 0
          spec.width flags := by
        refine ⟨hnoprec, List.append_ne_nil_of_right_ne_nil _ hne, .inr ?_⟩
        rw [List.length_append, List.length_replicate]
        omega
      rw [hform _ _ (if_pos hdrops)
        (by rw [List.length_drop, List.length_append, List.length_replicate]; omega)]
      by_cases hroom : digits.length + k ≤ spec.width
      · -- what is dropped are some of the zeros
        refine iff_of_true ?_ (.inr ⟨hroom, hwide⟩)
        rw [List.drop_append_of_le_length (by rw [List.length_replicate]; omega),
          List.drop_replicate, Nat.sub_sub, Nat.add_comm digits.length]
      · refine iff_of_false (fun heq => ?_) (by omega)
        have hlength := congrArg List.length heq
        simp only [List.length_append, List.length_drop, List.length_replicate, hfront] at hlength
        omega
    · refine iff_of_false (fun heq => ?_) (by omega)
      have hfull := length_fillZeros_full hshort (show 32 ≤ spec.width by omega)
      have hkept : ¬ Drops (fillZeros spec.width digits) 0 spec.width flags := by
        rintro ⟨-, -, hzero | hwidth⟩ <;> omega
      rw [withHash_full hkept hfull] at heq
      have hlength := congrArg List.length heq
      simp only [hfull, List.length_append, List.length_replicate, hfront] at hlength
      omega

/-- Nothing is dropped of a number with a precision. -/
theorem Agrees.not_drops (h : Agrees spec v flags digits) (hsome : spec.precision ≠ none)
    (buf : List Char) (prec width : ℕ) : ¬ Drops buf prec width flags := by
  rintro ⟨hnoprec, -⟩
  rw [h.precision, Option.isSome_eq_false_iff, Option.isNone_iff_eq_none] at hnoprec
  exact hsome hnoprec

/-- The condition for the prefix of `x` and `X`. -/
def HexFaithful (spec : Spec) (v : ℤ) : Prop :=
  match spec.precision with
  | none => AltFaithful spec v 2
  | some p => if spec.left = true then p ≤ spec.length v else p ≤ 30

/-- **With the prefix of `x` and `X`.** -/
theorem Agrees.hex (h : Agrees spec v flags digits) (hhash : flags.hash = true)
    (hsign : spec.sign v = []) (hne : digits ≠ [])
    (haltPrefix : spec.altPrefix v.natAbs = ['0', if flags.uppercase then 'X' else 'x'])
    (hdigits : spec.digits v.natAbs =
      List.replicate (spec.precision.getD 0 - digits.length) '0' ++ digits) :
    sized digits (decide (v < 0)) 16 (spec.precision.getD 0) spec.width flags = spec.text v ↔
      HexFaithful spec v := by
  have hshort := h.short
  have hseen : visible ['0', if flags.uppercase then 'X' else 'x'] = 2 := by
    cases flags.uppercase <;> rfl
  unfold HexFaithful
  cases hprec : spec.precision with
  | none =>
    dsimp only
    rw [← hprec]
    refine h.alternate hhash hsign hne hprec rfl hseen Nat.two_pos le_rfl
      (fun buf rest => withHash_hex) fun m => ?_
    rw [haltPrefix, hdigits, hprec, Option.getD_none, Nat.zero_sub, List.replicate_zero,
      List.nil_append]
  | some p =>
    dsimp only
    have hsome : spec.precision ≠ none := by rw [hprec]; simp
    rw [← hprec, h.sized_eq_field (.inr (.inr hsome)), Spec.text_eq_field (.inr (.inr hsome)), hhash,
      haltPrefix, hdigits, hsign, hprec, Option.getD_some]
    simp only [if_true, List.nil_append, h.withSign_eq hsign]
    cases hleft : spec.left with
    | true =>
      simp only [if_true]
      rw [withHash_hex (if_neg (h.not_drops hsome _ _ _)) (by omega), field_zeros_iff, h.length]
      omega
    | false =>
      simp only [Bool.false_eq_true, if_false]
      by_cases hroom : p ≤ 30
      · refine iff_of_true ?_ hroom
        rw [fillZeros_of_le (by omega), withHash_hex (if_neg (h.not_drops hsome _ _ _))
          (by rw [List.length_append, List.length_replicate]; omega)]
      · -- the prefix, or some of the zeros, do not fit into the buffer
        refine iff_of_false (field_ne ?_) hroom
        have hfits : Fits digits := le_trans hshort (by decide)
        have hle := le_trans (visible_le _) ((hfits.fillZeros p).withHash 16 p spec.width flags)
        unfold bufferSize at hle
        rw [visible_append, visible_append, visible_zeros, hseen, h.seen]
        omega

/-- The condition for the zero of `o` in front of a number that is not zero. -/
def OctFaithful (spec : Spec) (v : ℤ) : Prop :=
  match spec.precision with
  | none => AltFaithful spec v 1
  | some p => if spec.left = true then p ≤ spec.length v + 1 else p ≤ spec.length v ∨ p = 32

/-- **With the zero of `o`** in front of a number that is not zero. -/
theorem Agrees.oct (h : Agrees spec v flags digits) (hhash : flags.hash = true)
    (hsign : spec.sign v = []) (hne : digits ≠ []) (haltPrefix : spec.altPrefix v.natAbs = [])
    (hdigits : spec.digits v.natAbs =
      List.replicate (max (spec.precision.getD 0 - digits.length) 1) '0' ++ digits) :
    sized digits (decide (v < 0)) 8 (spec.precision.getD 0) spec.width flags = spec.text v ↔
      OctFaithful spec v := by
  have hshort := h.short
  have hseen : visible ['0'] = 1 := rfl
  unfold OctFaithful
  cases hprec : spec.precision with
  | none =>
    dsimp only
    rw [← hprec]
    refine h.alternate hhash hsign hne hprec rfl hseen Nat.one_pos (by decide)
      (fun buf rest => withHash_oct) fun m => ?_
    -- the zero in front is one more of those that fill the field
    rw [haltPrefix, hdigits, hprec, Option.getD_none, Nat.zero_sub, max_eq_right (Nat.zero_le _),
      List.nil_append, ← List.append_assoc, ← List.append_assoc, ← List.replicate_add,
      List.singleton_append, ← List.replicate_succ]
  | some p =>
    dsimp only
    have hsome : spec.precision ≠ none := by rw [hprec]; simp
    rw [← hprec, h.sized_eq_field (.inr (.inr hsome)), Spec.text_eq_field (.inr (.inr hsome)), hhash,
      haltPrefix, hdigits, hsign, hprec, Option.getD_some]
    simp only [if_true, List.nil_append, h.withSign_eq hsign]
    cases hleft : spec.left with
    | true =>
      simp only [if_true]
      rw [withHash_oct (if_neg (h.not_drops hsome _ _ _)) (by omega)]
      by_cases hroom : p ≤ spec.length v + 1
      · refine iff_of_true ?_ hroom
        rw [show max (p - digits.length) 1 = 1 by rw [h.length]; omega, List.replicate_one]
      · refine iff_of_false (field_ne ?_) hroom
        rw [visible_append, visible_append, visible_zeros, hseen, h.length]
        omega
    | false =>
      simp only [Bool.false_eq_true, if_false, ← h.length]
      by_cases hroom : p ≤ digits.length
      · refine iff_of_true ?_ (.inl hroom)
        rw [fillZeros_of_le (by omega), Nat.sub_eq_zero_of_le hroom, List.replicate_zero,
          List.nil_append, withHash_oct (if_neg (h.not_drops hsome _ _ _)) (by omega)]
        rfl
      · rw [show max (p - digits.length) 1 = p - digits.length by omega]
        by_cases hlt : p < 32
        · -- there is one zero more than the precision asks for
          refine iff_of_false (field_ne ?_) (by omega)
          rw [fillZeros_of_le hlt.le, withHash_oct (if_neg (h.not_drops hsome _ _ _))
            (by rw [List.length_append, List.length_replicate]; omega), visible_append, hseen]
          omega
        · have hfull := length_fillZeros_full hshort (not_lt.mp hlt)
          rw [withHash_full (h.not_drops hsome _ _ _) hfull]
          by_cases heq : p = 32
          · refine iff_of_true ?_ (.inr heq)
            rw [fillZeros_of_le heq.le]
          · refine iff_of_false (field_ne ?_) (by omega)
            have hle := visible_le (fillZeros p digits)
            rw [visible_append, visible_zeros, h.seen]
            omega

/-- **The zero of `o` alone**, with a precision: no digits, and no alternate form in the code. -/
theorem Agrees.oct_zero (h : Agrees spec v flags []) {base p : ℕ} (hhash : flags.hash = false)
    (hsign : spec.sign v = []) (haltPrefix : spec.altPrefix v.natAbs = [])
    (hprec : spec.precision = some p)
    (hdigits : spec.digits v.natAbs = List.replicate (max p 1) '0') :
    sized [] (decide (v < 0)) base (spec.precision.getD 0) spec.width flags = spec.text v ↔
      spec.left = false ∧ 0 < p ∧ p ≤ 32 := by
  have hsome : spec.precision ≠ none := by rw [hprec]; simp
  rw [h.sized_eq_field (.inr (.inr hsome)), Spec.text_eq_field (.inr (.inr hsome)), hhash, haltPrefix,
    hdigits, hsign, hprec, Option.getD_some]
  simp only [Bool.false_eq_true, if_false, List.nil_append, h.withSign_eq hsign]
  cases hleft : spec.left with
  | true =>
    refine iff_of_false (field_ne ?_) (by simp)
    rw [if_pos rfl, visible_zeros]
    unfold visible
    rw [List.countP_nil]
    omega
  | false =>
    simp only [Bool.false_eq_true, if_false, true_and]
    by_cases hroom : 0 < p ∧ p ≤ 32
    · refine iff_of_true ?_ hroom
      rw [fillZeros_of_le hroom.2, List.append_nil, List.length_nil, Nat.sub_zero,
        max_eq_left hroom.1]
    · refine iff_of_false (field_ne ?_) hroom
      unfold fillZeros bufferSize
      rw [List.append_nil, visible_zeros, visible_zeros, List.length_nil]
      omega

end Prosperismo.GuestPrintf
