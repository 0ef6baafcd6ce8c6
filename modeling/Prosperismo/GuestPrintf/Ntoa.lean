import Prosperismo.GuestPrintf.Exact

/-!
# `_ntoa_long` and the text of C

The flags the integers are printed with agree with the directive, and so `_ntoa_long` gives the text
of C exactly under `Spec.Faithful` (`printed_exact`).
-/

namespace Prosperismo.GuestPrintf

/-- The flags `printInteger` hands on, for a directive. -/
structure FlagsOf (spec : Spec) (flags : Flags) : Prop where
  left : flags.left = spec.left
  zeropad : flags.zeropad = (spec.zero && spec.precision.isNone)
  precision : flags.precision = spec.precision.isSome
  plus : flags.plus = (spec.plus && spec.specifier.signed)
  space : flags.space = (spec.space && spec.specifier.signed)
  hash : flags.hash = (spec.hash && spec.specifier.base != 10)
  uppercase : flags.uppercase = spec.specifier.uppercase

namespace Spec

variable {spec : Spec} {v : ℤ}

/-- The digits of the number as the code writes them. -/
def own (spec : Spec) (v : ℤ) : List Char :=
  digitsOf spec.specifier.uppercase spec.precision.isSome spec.specifier.base v.natAbs

theorem base_bounds (s : Specifier) : 8 ≤ s.base ∧ s.base ≤ 16 := by cases s <;> decide

theorem own_of_ne (h : v ≠ 0) :
    spec.own v = numeral spec.specifier.uppercase spec.specifier.base v.natAbs :=
  if_pos (.inr (Int.natAbs_ne_zero.mpr h))

theorem own_ne_nil (h : v ≠ 0) : spec.own v ≠ [] := by
  rw [own_of_ne h]
  exact numeral_ne_nil _ _ _

theorem length_own : (spec.own v).length = spec.length v := by
  unfold own digitsOf length
  by_cases hzero : v = 0
  · cases hprec : spec.precision <;> simp [hzero]
  · rw [if_pos (.inr (Int.natAbs_ne_zero.mpr hzero)), if_neg (fun h => hzero h.1)]

/-- The digits of the number with the zeros of the precision. -/
theorem magnitude_eq : spec.magnitude v.natAbs =
    List.replicate (spec.precision.getD 0 - (spec.own v).length) '0' ++ spec.own v := by
  unfold magnitude
  by_cases hzero : v = 0
  · subst hzero
    unfold own digitsOf
    cases hprec : spec.precision with
    | none =>
      have hbase := base_bounds spec.specifier
      have hdigit : digitChar spec.specifier.uppercase 0 = '0' := by
        cases spec.specifier.uppercase <;> rfl
      simp only [Int.natAbs_zero, if_true, Option.isSome_none, true_or, Option.getD_none,
        List.length_nil, List.append_nil]
      rw [numeral_of_lt hbase.2 (by omega), hdigit]
      rfl
    | some p => simp
  · rw [if_neg (Int.natAbs_ne_zero.mpr hzero), own_of_ne hzero]
    -- the one digit that is asked for without a precision is there
    have hlong := List.length_pos_iff.mpr
      (numeral_ne_nil spec.specifier.uppercase spec.specifier.base v.natAbs)
    cases hprec : spec.precision with
    | none =>
      dsimp only [Option.getD_none]
      rw [Nat.sub_eq_zero_of_le hlong, Nat.zero_sub]
    | some p => rfl

/-- Without the alternate form of `o` the digits are those. -/
theorem digits_plain (h : ¬ (spec.hash = true ∧ spec.specifier = .o)) :
    spec.digits v.natAbs = List.replicate (spec.precision.getD 0 - (spec.own v).length) '0' ++
      spec.own v := by
  unfold digits
  rw [if_neg fun hform => h ⟨hform.1, hform.2.1⟩, magnitude_eq]

/-- The alternate form of `o` asks for one zero at least in front of a number that is not zero. -/
theorem digits_oct (hhash : spec.hash = true) (hoct : spec.specifier = .o) (h : v ≠ 0) :
    spec.digits v.natAbs =
      List.replicate (max (spec.precision.getD 0 - (spec.own v).length) 1) '0' ++ spec.own v := by
  have hbase := base_bounds spec.specifier
  have hhead : (spec.own v).head? ≠ some '0' := by
    rw [own_of_ne h]
    exact (numeral_spec (by omega) hbase.2 _).2 (Int.natAbs_ne_zero.mpr h)
  unfold digits
  rw [magnitude_eq]
  generalize spec.precision.getD 0 - (spec.own v).length = n
  cases n with
  | zero =>
    rw [if_pos ⟨hhash, hoct, hhead⟩]
    rfl
  | succ n =>
    rw [if_neg (fun hform => hform.2.2 rfl), max_eq_left (Nat.succ_le_succ (Nat.zero_le n))]

/-- A zero without a precision is the zero of `o`. -/
theorem digits_zero_none (hprec : spec.precision = none) :
    spec.digits (0 : ℤ).natAbs =
      List.replicate (spec.precision.getD 0 - (spec.own 0).length) '0' ++ spec.own 0 := by
  have hmagnitude : spec.magnitude 0 = ['0'] := by
    unfold magnitude
    rw [hprec]
    rfl
  unfold digits
  rw [← magnitude_eq, Int.natAbs_zero, hmagnitude, if_neg]
  rintro ⟨-, -, hhead⟩
  exact hhead rfl

/-- A zero with a precision has the zeros of it, and of `o` at least one. -/
theorem digits_zero_some (hhash : spec.hash = true) (hoct : spec.specifier = .o) {p : ℕ}
    (hprec : spec.precision = some p) :
    spec.digits (0 : ℤ).natAbs = List.replicate (max p 1) '0' := by
  have hmagnitude : spec.magnitude 0 = List.replicate p '0' := by
    unfold magnitude
    rw [hprec]
    simp
  unfold digits
  rw [Int.natAbs_zero, hmagnitude]
  cases p with
  | zero => exact if_pos ⟨hhash, hoct, Option.some_ne_none _ |>.symm⟩
  | succ p =>
    rw [if_neg (fun hform => hform.2.2 rfl), max_eq_left (Nat.succ_le_succ (Nat.zero_le p))]

end Spec

variable {spec : Spec} {v : ℤ} {flags : Flags}

/-- The flags agree with the directive, whether the alternate form is left out or not. -/
theorem FlagsOf.agrees (h : FlagsOf spec flags) (hbits : v.natAbs < 0x10000000000000000)
    (hsigned : spec.specifier.signed = false → 0 ≤ v) (hash : Bool) :
    Agrees spec v { flags with hash := hash } (spec.own v) where
  left := h.left
  zeropad := h.zeropad
  precision := h.precision
  sign := by
    unfold signOf Spec.sign
    rw [h.plus, h.space]
    cases hspec : spec.specifier.signed with
    | false =>
      rw [decide_eq_false (not_lt.mpr (hsigned hspec))]
      simp
    | true =>
      by_cases hneg : v < 0
      · simp [hneg]
      · cases spec.plus <;> cases spec.space <;> simp [hneg]
  length := Spec.length_own
  short := by
    unfold Spec.own digitsOf
    split
    · exact length_numeral_le (Spec.base_bounds _).1 hbits
    · exact Nat.zero_le _
  seen := by
    unfold Spec.own digitsOf
    have hbase := Spec.base_bounds spec.specifier
    split
    · exact visible_eq_length (numeral_spec (by omega) hbase.2 _).1
    · rfl

/-- Decimal numbers only are signed. -/
theorem Specifier.unsigned_of_base {s : Specifier} (h : s.base ≠ 10) : s.signed = false := by
  cases s <;> first | rfl | exact absurd rfl h

/-- The prefix of `x` and `X`. -/
theorem Spec.alternate_hex (hhash : spec.hash = true) (hbase : spec.specifier.base = 16)
    (h : v ≠ 0) :
    spec.altPrefix v.natAbs = ['0', if spec.specifier.uppercase then 'X' else 'x'] ∧
      spec.altLength v = 2 := by
  unfold altPrefix altLength
  refine ⟨(if_pos ⟨hhash, Int.natAbs_ne_zero.mpr h⟩).trans ?_, (if_pos ⟨hhash, h⟩).trans ?_⟩ <;>
    revert hbase <;> cases spec.specifier <;> decide

/-- The zero of `o` is no prefix. -/
theorem Spec.alternate_oct (hhash : spec.hash = true) (hoct : spec.specifier = .o) (h : v ≠ 0) :
    spec.altPrefix v.natAbs = [] ∧ spec.altLength v = 1 := by
  unfold altPrefix altLength
  rw [hoct]
  exact ⟨if_pos ⟨hhash, Int.natAbs_ne_zero.mpr h⟩, if_pos ⟨hhash, h⟩⟩

/-- Unsigned numbers have no sign. -/
theorem Spec.sign_unsigned (h : spec.specifier.signed = false) : spec.sign v = [] := if_pos h

/-- Without an alternate form. -/
theorem Spec.faithful_plain (hlength : spec.altLength v = 0)
    (h : ¬ (spec.hash = true ∧ spec.specifier = .o ∧ v = 0) ∨ spec.precision = none) :
    spec.Faithful v ↔ PlainFaithful spec v := by
  unfold Faithful PlainFaithful
  rw [hlength]
  cases hprec : spec.precision with
  | none =>
    by_cases hfield : spec.left = true ∨ spec.zero = false <;> simp [hfield]
  | some p =>
    have hnot : ¬ (spec.hash = true ∧ spec.specifier = .o ∧ v = 0) :=
      h.resolve_right (by rw [hprec]; exact Option.some_ne_none p)
    simp [hnot]

/-- With the prefix of `x` and `X`, or the zero of `o`. -/
theorem Spec.faithful_alternate (h : v ≠ 0) :
    (spec.altLength v = 2 → (HexFaithful spec v ↔ spec.Faithful v)) ∧
      (spec.altLength v = 1 → (OctFaithful spec v ↔ spec.Faithful v)) := by
  have hnot : ¬ (spec.hash = true ∧ spec.specifier = .o ∧ v = 0) := fun hform => h hform.2.2
  constructor <;> intro hlength <;> unfold Faithful <;> rw [hlength]
  · unfold HexFaithful AltFaithful
    cases spec.precision with
    | none => simp
    | some p => simp [hnot]
  · unfold OctFaithful AltFaithful
    cases spec.precision with
    | none => simp
    | some p => simp [hnot]

/-- What the code puts out for an integer. -/
def printed (spec : Spec) (v : ℤ) (flags : Flags) : List Char :=
  sized (spec.own v) (decide (v < 0)) spec.specifier.base (spec.precision.getD 0) spec.width
    (if v.natAbs = 0 then { flags with hash := false } else flags)

theorem ntoa_printed (state : State) (h : FlagsOf spec flags)
    (hbits : v.natAbs < 0x10000000000000000) :
    ntoa state v.natAbs (decide (v < 0)) spec.specifier.base (spec.precision.getD 0) spec.width
      flags = some (state.emit (printed spec v flags)) := by
  have hbase := Spec.base_bounds spec.specifier
  have hroom : (numeral flags.uppercase spec.specifier.base v.natAbs).length ≤ 22 :=
    length_numeral_le hbase.1 hbits
  have hown : digitsOf flags.uppercase flags.precision spec.specifier.base v.natAbs = spec.own v := by
    rw [h.uppercase, h.precision]
    rfl
  rw [ntoa_eq state (by omega) hbase.2 (le_trans hroom (by decide)), hown]
  rfl

/-- What is put out is not longer than the buffer, or than the field. -/
theorem length_printed_le (hbits : v.natAbs < 0x10000000000000000) :
    (printed spec v flags).length ≤ max spec.width 32 := by
  refine length_sized_le ?_ ..
  unfold Spec.own digitsOf
  split
  · exact le_trans (length_numeral_le (Spec.base_bounds _).1 hbits) (by decide)
  · exact fits_nil

/-- **An integer is printed as C prescribes exactly under the condition.** -/
theorem printed_exact (h : FlagsOf spec flags) (hbits : v.natAbs < 0x10000000000000000)
    (hsigned : spec.specifier.signed = false → 0 ≤ v) :
    printed spec v flags = spec.text v ↔ spec.Faithful v := by
  unfold printed
  by_cases hzero : v = 0
  · -- the alternate form is left out
    subst hzero
    have hagrees := h.agrees (v := 0) hbits hsigned false
    have haltPrefix : spec.altPrefix (0 : ℤ).natAbs = [] := if_neg fun hform => hform.2 rfl
    have hlength : spec.altLength 0 = 0 := if_neg fun hform => hform.2 rfl
    rw [if_pos Int.natAbs_zero]
    by_cases hoct : spec.hash = true ∧ spec.specifier = .o
    · cases hprec : spec.precision with
      | none =>
        rw [Spec.faithful_plain hlength (.inr hprec), ← hprec]
        exact hagrees.plain rfl haltPrefix (Spec.digits_zero_none hprec)
      | some p =>
        have hnil : spec.own 0 = [] := by
          unfold Spec.own digitsOf
          rw [hprec, if_neg (by simp)]
        rw [hnil] at hagrees ⊢
        rw [← hprec]
        refine (hagrees.oct_zero rfl (Spec.sign_unsigned (by rw [hoct.2]; rfl)) haltPrefix hprec
          (Spec.digits_zero_some hoct.1 hoct.2 hprec)).trans (iff_of_eq ?_)
        unfold Spec.Faithful
        rw [hprec]
        exact (if_pos ⟨hoct.1, hoct.2, rfl⟩).symm
    · rw [Spec.faithful_plain hlength (.inl fun hform => hoct ⟨hform.1, hform.2.1⟩)]
      exact hagrees.plain rfl haltPrefix (Spec.digits_plain hoct)
  · rw [if_neg (Int.natAbs_ne_zero.mpr hzero)]
    have hagrees : Agrees spec v flags (spec.own v) := h.agrees hbits hsigned flags.hash
    have hnot : ¬ (spec.hash = true ∧ spec.specifier = .o ∧ v = 0) := fun hform => hzero hform.2.2
    cases hhash : flags.hash with
    | false =>
      have hform : spec.hash = false ∨ spec.specifier.base = 10 := by
        have hboth := h.hash.symm.trans hhash
        cases hspec : spec.hash with
        | false => exact .inl rfl
        | true =>
          rw [hspec, Bool.true_and, bne_eq_false_iff_eq] at hboth
          exact .inr hboth
      have haltPrefix : spec.altPrefix v.natAbs = [] := by
        unfold Spec.altPrefix
        cases hspec : spec.specifier <;> rw [hspec] at hform <;> simp_all [Specifier.base]
      have hlength : spec.altLength v = 0 := by
        unfold Spec.altLength
        cases hspec : spec.specifier <;> rw [hspec] at hform <;> simp_all [Specifier.base]
      have hoct : ¬ (spec.hash = true ∧ spec.specifier = .o) := by
        rintro ⟨htrue, hspec⟩
        rw [htrue, hspec] at hform
        exact hform.elim (by decide) (by decide)
      rw [Spec.faithful_plain hlength (.inl hnot)]
      exact hagrees.plain hhash haltPrefix (Spec.digits_plain hoct)
    | true =>
      have hboth := h.hash.symm.trans hhash
      rw [Bool.and_eq_true] at hboth
      obtain ⟨hspec, hnotten⟩ := hboth
      obtain ⟨hhex, hoct⟩ := @Spec.faithful_alternate spec v hzero
      have hown : spec.own v ≠ [] := Spec.own_ne_nil hzero
      obtain hs | hs : spec.specifier.base = 16 ∨ spec.specifier = .o := by
        cases hs : spec.specifier <;> rw [hs] at hnotten <;> revert hnotten <;> decide
      · obtain ⟨haltPrefix, hlength⟩ := Spec.alternate_hex hspec hs hzero
        rw [← h.uppercase] at haltPrefix
        rw [hs]
        exact (hagrees.hex hhash (Spec.sign_unsigned (Specifier.unsigned_of_base (by omega))) hown
          haltPrefix (Spec.digits_plain (by rintro ⟨-, hoct⟩; rw [hoct] at hs; cases hs))).trans
          (hhex hlength)
      · obtain ⟨haltPrefix, hlength⟩ := Spec.alternate_oct hspec hs hzero
        rw [show spec.specifier.base = 8 by rw [hs]; rfl]
        exact (hagrees.oct hhash (Spec.sign_unsigned (by rw [hs]; rfl)) hown haltPrefix
          (Spec.digits_oct hspec hs hzero)).trans (hoct hlength)

end Prosperismo.GuestPrintf
