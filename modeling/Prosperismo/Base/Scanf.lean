import Mathlib.Algebra.Order.Ring.Int
import Mathlib.Data.List.Basic
import Mathlib.Data.Nat.Notation

/-!
# Decimal numbers in and out of text

What `scanf` and `printf` of the C library do with decimal numbers. A text is what the memory holds
from its first character on, and a read past the last is `none`; the functions stop at a terminator,
which is neither a space nor a digit (`scanf_of_terminated`).

`Matches` says what it is that a format reads from a text, and `Matches.of_scanf` that `scanf` reads
only that. `scanf_number` and `scanf_literal` say what it reads where a number has only digits, as
those that `padded` writes.
-/

namespace Prosperismo

open Nat (ofDigitChars)

/-! ### Writing -/

/-- `%0wu`: the decimal digits, with zeros in front of them up to the width. -/
def padded (width n : ℕ) : List Char :=
  List.replicate (width - (Nat.toDigits 10 n).length) '0' ++ Nat.toDigits 10 n

theorem padded_ne_nil (width n : ℕ) : padded width n ≠ [] := by
  unfold padded
  exact List.append_ne_nil_of_right_ne_nil _ Nat.toDigits_ne_nil

theorem isDigit_of_mem_padded {width n : ℕ} {c : Char} (h : c ∈ padded width n) :
    c.isDigit = true := by
  unfold padded at h
  cases List.mem_append.mp h with
  | inl hzero =>
    rw [List.eq_of_mem_replicate hzero]
    decide
  | inr hdigit => exact Nat.isDigit_of_mem_toDigits (by decide) (by decide) hdigit

/-- The number is the value of its digits. -/
theorem ofDigitChars_padded (width n : ℕ) : ofDigitChars 10 (padded width n) 0 = n := by
  unfold padded
  rw [Nat.ofDigitChars_append, Nat.ofDigitChars_replicate_zero, Nat.mul_zero,
    Nat.ofDigitChars_ten_toDigits]

theorem length_padded {width n : ℕ} (hpos : 0 < width) (h : n < 10 ^ width) :
    (padded width n).length = width := by
  unfold padded
  rw [List.length_append, List.length_replicate]
  exact Nat.sub_add_cancel ((Nat.length_toDigits_le_iff (by decide) hpos).mpr h)

/-! ### Reading -/

/-- `isspace`. -/
def isSpace (c : Char) : Bool := c == ' ' || ('\t' ≤ c && c ≤ '\r')

/-- What a format is made of: decimal numbers, with a maximal width or none, and characters that
have to be there. -/
inductive Directive
  | number (width : Option ℕ)
  | literal (c : Char)
deriving DecidableEq

/-- The spaces in front of a number are skipped. -/
def skipSpaces : List Char → Option (List Char)
  | [] => none
  | c :: text => if isSpace c then skipSpaces text else some (c :: text)

/-- Digits are read as long as the width allows; the value of those before them is `value`. -/
def scanDigits (width : Option ℕ) (value : ℕ) : List Char → Option (ℕ × List Char)
  | [] => if width = some 0 then some (value, []) else none
  | c :: text =>
    if width = some 0 ∨ c.isDigit = false then some (value, c :: text)
    else scanDigits (width.map (· - 1)) (10 * value + (c.toNat - '0'.toNat)) text

/-- The digits of a number, of which there has to be one. -/
def scanMagnitude (width : Option ℕ) : List Char → Option (Option (ℕ × List Char))
  | [] => none
  | c :: text =>
    if width = some 0 ∨ c.isDigit = false then some none
    else (scanDigits width 0 (c :: text)).map some

/-- The sign of a number, if it has one, and what comes after it. -/
def takeSign : List Char → List Char × List Char
  | '-' :: text => (['-'], text)
  | '+' :: text => (['+'], text)
  | text => ([], text)

/-- A magnitude with its sign. -/
def signed (sign : List Char) (n : ℕ) : ℤ := if sign = ['-'] then -n else n

/-- A number: spaces, a sign, which counts for the width, and digits. -/
def scanNumber (width : Option ℕ) (text : List Char) : Option (Option (ℤ × List Char)) := do
  let text ← skipSpaces text
  let sign := takeSign text
  let found ← scanMagnitude (width.map (· - sign.1.length)) sign.2
  some (found.map fun read => (signed sign.1 read.1, read.2))

/-- `scanf`: the numbers that are read, and the rest of the text if all of the format was there. -/
def scanf : List Directive → List Char → Option (List ℤ × Option (List Char))
  | [], text => some ([], some text)
  | .literal _ :: _, [] => none
  | .literal c :: format, c' :: text => if c' = c then scanf format text else some ([], none)
  | .number width :: format, text => do
    match ← scanNumber width text with
    | none => some ([], none)
    | some (value, text) =>
      let (values, rest) ← scanf format text
      some (value :: values, rest)

/-! ### What is read -/

/-- Characters that are a number: spaces, at most one sign, and digits, as many as the width has. -/
def IsNumber (width : Option ℕ) (chars : List Char) (value : ℤ) : Prop :=
  ∃ spaces sign digits : List Char, chars = spaces ++ (sign ++ digits) ∧
    (∀ c ∈ spaces, isSpace c = true) ∧ sign ∈ [[], ['+'], ['-']] ∧
    (digits ≠ [] ∧ (∀ c ∈ digits, c.isDigit = true) ∧
      ∀ n, width = some n → sign.length + digits.length ≤ n) ∧
    value = signed sign (ofDigitChars 10 digits 0)

theorem ofDigitChars_lt : ∀ {digits : List Char}, (∀ c ∈ digits, c.isDigit = true) →
    ofDigitChars 10 digits 0 < 10 ^ digits.length
  | [], _ => by decide
  | c :: digits, h => by
    obtain ⟨hc, hdigits⟩ := List.forall_mem_cons.mp h
    have hhigh : c.toNat ≤ 57 := (Char.isDigit_iff_toNat.mp hc).2
    have hdigit : c.toNat - '0'.toNat ≤ 9 := Nat.sub_le_of_le_add hhigh
    rw [Nat.ofDigitChars_cons, Nat.ofDigitChars_eq_ofDigitChars_zero]
    calc 10 ^ digits.length * (10 * 0 + (c.toNat - '0'.toNat)) + ofDigitChars 10 digits 0
        < 10 ^ digits.length * 9 + 10 ^ digits.length := by
          rw [Nat.mul_zero, Nat.zero_add]
          exact Nat.add_lt_add_of_le_of_lt (Nat.mul_le_mul_left _ hdigit)
            (ofDigitChars_lt hdigits)
      _ = 10 ^ (c :: digits).length := by rw [List.length_cons, pow_succ]; omega

/-- A number with a width is not longer than it. -/
theorem IsNumber.abs_lt {n : ℕ} {chars : List Char} {value : ℤ}
    (h : IsNumber (some n) chars value) : value.natAbs < 10 ^ n := by
  obtain ⟨spaces, sign, digits, -, -, -, ⟨-, hdigits, hlength⟩, rfl⟩ := h
  have hlt := ofDigitChars_lt hdigits
  have hle : 10 ^ digits.length ≤ 10 ^ n :=
    Nat.pow_le_pow_right (by decide) (le_trans (Nat.le_add_left ..) (hlength n rfl))
  unfold signed
  split <;> omega

/-- `Matches format text values rest`: the text is what the format says, with these numbers, and the
rest. -/
inductive Matches : List Directive → List Char → List ℤ → List Char → Prop
  | nil (rest : List Char) : Matches [] rest [] rest
  | literal {format : List Directive} {text rest : List Char} {values : List ℤ} (c : Char) :
      Matches format text values rest → Matches (.literal c :: format) (c :: text) values rest
  | number {format : List Directive} {chars text rest : List Char} {value : ℤ} {values : List ℤ}
      {width : Option ℕ} : IsNumber width chars value → Matches format text values rest →
      Matches (.number width :: format) (chars ++ text) (value :: values) rest

variable {text rest : List Char} {width : Option ℕ}

theorem skipSpaces_spec : ∀ {text text' : List Char}, skipSpaces text = some text' →
    ∃ spaces, text = spaces ++ text' ∧ ∀ c ∈ spaces, isSpace c = true
  | c :: text, text', h => by
    unfold skipSpaces at h
    split at h
    · next hspace =>
      obtain ⟨spaces, htext, hspaces⟩ := skipSpaces_spec h
      refine ⟨c :: spaces, by rw [htext, List.cons_append], ?_⟩
      exact List.forall_mem_cons.mpr ⟨hspace, hspaces⟩
    · obtain rfl := Option.some.inj h
      exact ⟨[], rfl, fun _ hmem => (nomatch hmem)⟩

theorem takeSign_spec (text : List Char) :
    text = (takeSign text).1 ++ (takeSign text).2 ∧ (takeSign text).1 ∈ [[], ['+'], ['-']] := by
  unfold takeSign
  split <;> simp

theorem scanDigits_spec : ∀ {text : List Char} {width : Option ℕ} {value value' : ℕ},
    scanDigits width value text = some (value', rest) →
    ∃ digits, text = digits ++ rest ∧ ((∀ c ∈ digits, c.isDigit = true) ∧
      ∀ n, width = some n → digits.length ≤ n) ∧ value' = ofDigitChars 10 digits value
  | [], width, value, value', h => by
    unfold scanDigits at h
    split at h
    · obtain ⟨rfl, rfl⟩ := Prod.mk.inj (Option.some.inj h)
      exact ⟨[], rfl, ⟨fun _ hmem => (nomatch hmem), fun _ _ => Nat.zero_le _⟩,
        Nat.ofDigitChars_nil.symm⟩
    · cases h
  | c :: text, width, value, value', h => by
    unfold scanDigits at h
    split at h
    · obtain ⟨rfl, rfl⟩ := Prod.mk.inj (Option.some.inj h)
      exact ⟨[], rfl, ⟨fun _ hmem => (nomatch hmem), fun _ _ => Nat.zero_le _⟩,
        Nat.ofDigitChars_nil.symm⟩
    · next hdigit =>
      obtain ⟨hwidth, hdigit⟩ := not_or.mp hdigit
      obtain ⟨digits, htext, ⟨hdigits, hlength⟩, hvalue⟩ := scanDigits_spec h
      refine ⟨c :: digits, by rw [htext, List.cons_append], ⟨?_, ?_⟩, ?_⟩
      · exact List.forall_mem_cons.mpr ⟨by simpa using hdigit, hdigits⟩
      · rintro n rfl
        have hpos : n ≠ 0 := fun heq => hwidth (by rw [heq])
        have hle := hlength (n - 1) rfl
        rw [List.length_cons]
        omega
      · rw [hvalue, Nat.ofDigitChars_cons]

theorem scanMagnitude_spec {n : ℕ} (h : scanMagnitude width text = some (some (n, rest))) :
    ∃ digits, text = digits ++ rest ∧ (digits ≠ [] ∧ (∀ c ∈ digits, c.isDigit = true) ∧
      ∀ n, width = some n → digits.length ≤ n) ∧ n = ofDigitChars 10 digits 0 := by
  cases text with
  | nil => cases h
  | cons c text =>
    unfold scanMagnitude at h
    by_cases hdigit : width = some 0 ∨ c.isDigit = false
    · simp only [if_pos hdigit, Option.some.injEq, reduceCtorEq] at h
    · simp only [if_neg hdigit] at h
      obtain ⟨found, hscan, hfound⟩ := Option.map_eq_some_iff.mp h
      obtain rfl := Option.some.inj hfound
      obtain ⟨digits, htext, hdigits, hvalue⟩ := scanDigits_spec hscan
      refine ⟨digits, htext, ⟨?_, hdigits⟩, hvalue⟩
      -- the first character is a digit, and was read
      rintro rfl
      unfold scanDigits at hscan
      rw [if_neg hdigit] at hscan
      obtain ⟨digits', htext', -⟩ := scanDigits_spec hscan
      have hlength := congrArg List.length htext
      have hlength' := congrArg List.length htext'
      simp only [List.nil_append, List.length_cons, List.length_append] at hlength hlength'
      omega

theorem scanNumber_spec {value : ℤ} (h : scanNumber width text = some (some (value, rest))) :
    ∃ chars, text = chars ++ rest ∧ IsNumber width chars value := by
  unfold scanNumber at h
  obtain ⟨text', hskip, h⟩ := Option.bind_eq_some_iff.mp h
  obtain ⟨found, hscan, h⟩ := Option.bind_eq_some_iff.mp h
  obtain ⟨⟨n, rest'⟩, hfound, heq⟩ := Option.map_eq_some_iff.mp (Option.some.inj h)
  obtain ⟨hvalue, rfl⟩ := Prod.mk.inj heq
  subst hfound
  obtain ⟨spaces, htext, hspaces⟩ := skipSpaces_spec hskip
  obtain ⟨hsign, hsigns⟩ := takeSign_spec text'
  obtain ⟨digits, hrest, ⟨hne, hdigits, hlength⟩, hn⟩ := scanMagnitude_spec hscan
  refine ⟨spaces ++ ((takeSign text').1 ++ digits), ?_, spaces, (takeSign text').1, digits, rfl,
    hspaces, hsigns, ⟨hne, hdigits, ?_⟩, ?_⟩
  · calc text = spaces ++ text' := htext
      _ = spaces ++ ((takeSign text').1 ++ (takeSign text').2) := by rw [← hsign]
      _ = spaces ++ ((takeSign text').1 ++ (digits ++ rest')) := by rw [← hrest]
      _ = spaces ++ ((takeSign text').1 ++ digits) ++ rest' := by simp only [List.append_assoc]
  · rintro n rfl
    have hle : digits.length ≤ n - (takeSign text').1.length := hlength _ rfl
    have hpos := List.length_pos_iff.mpr hne
    omega
  · rw [← hvalue, hn]

/-- **What `scanf` reads is what the format says.** By induction over the format. -/
theorem Matches.of_scanf : ∀ {format : List Directive} {text : List Char} {values : List ℤ},
    scanf format text = some (values, some rest) → Matches format text values rest
  | [], text, values, h => by
    obtain ⟨rfl, hrest⟩ := Prod.mk.inj (Option.some.inj h)
    obtain rfl := Option.some.inj hrest
    exact .nil text
  | .literal c :: format, [], values, h => nomatch h
  | .literal c :: format, c' :: text, values, h => by
    unfold scanf at h
    split at h
    · next heq => exact heq ▸ .literal c' (.of_scanf h)
    · cases h
  | .number width :: format, text, values, h => by
    unfold scanf at h
    obtain ⟨found, hnumber, h⟩ := Option.bind_eq_some_iff.mp h
    cases found with
    | none => cases h
    | some found =>
      obtain ⟨⟨values', rest'⟩, hscan, h⟩ := Option.bind_eq_some_iff.mp h
      obtain ⟨rfl, rfl⟩ := Prod.mk.inj (Option.some.inj h)
      obtain ⟨chars, htext, hchars⟩ := scanNumber_spec hnumber
      rw [htext]
      exact .number hchars (.of_scanf hscan)

/-- The numbers of a format. -/
def numbers : List Directive → ℕ
  | [] => 0
  | .literal _ :: format => numbers format
  | .number _ :: format => numbers format + 1

theorem numbers_pos : ∀ {format : List Directive}, format ≠ [] →
    (∀ c, format.getLast? ≠ some (.literal c)) → 0 < numbers format
  | .number _ :: _, _, _ => Nat.succ_pos _
  | [.literal c], _, hlast => absurd rfl (hlast c)
  | .literal _ :: d :: format, _, hlast => by
    refine @numbers_pos (d :: format) (List.cons_ne_nil _ _) fun c heq => hlast c ?_
    rw [List.getLast?_cons_cons, heq]

/-- Where the format ends with a number, all of it was there if all its numbers were read. -/
theorem length_lt_of_scanf_none : ∀ {format : List Directive} {text : List Char} {values : List ℤ},
    (∀ c, format.getLast? ≠ some (.literal c)) → scanf format text = some (values, none) →
    values.length < numbers format
  | [], text, values, _, h => by
    simp only [scanf, Option.some.injEq, Prod.mk.injEq, reduceCtorEq, and_false] at h
  | .literal c :: format, [], values, _, h => nomatch h
  | .literal c :: format, c' :: text, values, hlast, h => by
    unfold scanf at h
    cases format with
    | nil => exact absurd rfl (hlast c)
    | cons d format =>
      have hlast' : ∀ c, (d :: format).getLast? ≠ some (.literal c) := fun c heq =>
        hlast c (by rw [List.getLast?_cons_cons, heq])
      split at h
      · exact @length_lt_of_scanf_none (d :: format) text values hlast' h
      · obtain ⟨rfl, -⟩ := Prod.mk.inj (Option.some.inj h)
        exact numbers_pos (List.cons_ne_nil _ _) hlast'
  | .number width :: format, text, values, hlast, h => by
    unfold scanf at h
    obtain ⟨found, hnumber, h⟩ := Option.bind_eq_some_iff.mp h
    cases found with
    | none =>
      obtain ⟨rfl, -⟩ := Prod.mk.inj (Option.some.inj h)
      exact Nat.succ_pos _
    | some found =>
      obtain ⟨⟨values', rest'⟩, hscan, h⟩ := Option.bind_eq_some_iff.mp h
      obtain ⟨rfl, rfl⟩ := Prod.mk.inj (Option.some.inj h)
      refine Nat.succ_lt_succ (length_lt_of_scanf_none (fun c heq => ?_) hscan)
      cases format with
      | nil => cases heq
      | cons d format => exact hlast c (by rw [List.getLast?_cons_cons, heq])

/-! ### The terminator -/

/-- A terminator is ahead. -/
def Terminated (text : List Char) : Prop := '\x00' ∈ text

theorem Terminated.of_cons {c : Char} (h : Terminated (c :: text)) (hne : c ≠ '\x00') :
    Terminated text :=
  (List.mem_cons.mp h).resolve_left hne.symm

theorem skipSpaces_terminated : ∀ {text : List Char}, Terminated text →
    ∃ text', skipSpaces text = some text' ∧ Terminated text'
  | c :: text, h => by
    unfold skipSpaces
    split
    · next hspace =>
      refine skipSpaces_terminated (h.of_cons ?_)
      rintro rfl
      revert hspace
      decide
    · exact ⟨_, rfl, h⟩

theorem takeSign_terminated (h : Terminated text) : Terminated (takeSign text).2 := by
  unfold takeSign
  split
  · exact h.of_cons (by decide)
  · exact h.of_cons (by decide)
  · exact h

theorem scanDigits_terminated : ∀ {text : List Char} (width : Option ℕ) (value : ℕ),
    Terminated text → ∃ value' text', scanDigits width value text = some (value', text') ∧
      Terminated text'
  | c :: text, width, value, h => by
    unfold scanDigits
    split
    · exact ⟨_, _, rfl, h⟩
    · next hdigit =>
      refine scanDigits_terminated _ _ (h.of_cons ?_)
      rintro rfl
      exact hdigit (.inr (by decide))

theorem scanMagnitude_terminated (width : Option ℕ) (h : Terminated text) :
    ∃ found, scanMagnitude width text = some found ∧ ∀ read ∈ found, Terminated read.2 := by
  cases text with
  | nil => cases h
  | cons c text =>
    unfold scanMagnitude
    by_cases hdigit : width = some 0 ∨ c.isDigit = false
    · simp only [if_pos hdigit]
      exact ⟨none, rfl, fun _ hread => (nomatch hread)⟩
    · obtain ⟨value, rest, hscan, hrest⟩ := scanDigits_terminated width 0 h
      simp only [if_neg hdigit, hscan]
      exact ⟨some (value, rest), rfl, fun read hread => Option.some.inj hread ▸ hrest⟩

theorem scanNumber_terminated (width : Option ℕ) (h : Terminated text) :
    ∃ found, scanNumber width text = some found ∧ ∀ read ∈ found, Terminated read.2 := by
  obtain ⟨text', hskip, htext'⟩ := skipSpaces_terminated h
  obtain ⟨found, hscan, hfound⟩ := scanMagnitude_terminated
    (width.map (· - (takeSign text').1.length)) (takeSign_terminated htext')
  unfold scanNumber
  simp only [hskip, hscan, Option.bind_eq_bind, Option.bind_some]
  refine ⟨_, rfl, fun read hread => ?_⟩
  obtain ⟨read', hread', rfl⟩ := Option.map_eq_some_iff.mp hread
  exact hfound read' hread'

/-- **`scanf` does not read past a terminator**, and does not get past one either. -/
theorem scanf_terminated : ∀ (format : List Directive), Directive.literal '\x00' ∉ format →
    ∀ {text : List Char}, Terminated text →
    ∃ values rest, scanf format text = some (values, rest) ∧ ∀ text' ∈ rest, Terminated text'
  | [], _, text, h => ⟨[], some text, rfl, fun _ hmem => Option.some.inj hmem ▸ h⟩
  | .literal c :: format, hformat, c' :: text, h => by
    obtain ⟨hc, hformat⟩ := not_or.mp (mt List.mem_cons.mpr hformat)
    unfold scanf
    split
    · next heq =>
      refine scanf_terminated format hformat (h.of_cons ?_)
      rintro rfl
      exact hc (by rw [heq])
    · exact ⟨[], none, rfl, fun _ hmem => (nomatch hmem)⟩
  | .number width :: format, hformat, text, h => by
    obtain ⟨-, hformat⟩ := not_or.mp (mt List.mem_cons.mpr hformat)
    obtain ⟨found, hnumber, hfound⟩ := scanNumber_terminated width h
    unfold scanf
    rw [hnumber, Option.bind_eq_bind, Option.bind_some]
    cases found with
    | none => exact ⟨[], none, rfl, fun _ hmem => (nomatch hmem)⟩
    | some read =>
      obtain ⟨values, rest, hscan, hrest⟩ :=
        scanf_terminated format hformat (hfound read rfl)
      refine ⟨read.1 :: values, rest, ?_, hrest⟩
      dsimp only
      rw [hscan]
      rfl

/-! ### Numbers without a sign -/

/-- No digit is next. -/
def Stops (text : List Char) : Prop := ∃ c rest, text = c :: rest ∧ c.isDigit = false

theorem Stops.cons {c : Char} (h : c.isDigit = false) : Stops (c :: text) := ⟨c, text, rfl, h⟩

/-- A text with a terminator starts with digits, perhaps none, up to something else. -/
theorem Terminated.exists_digits : ∀ {text : List Char}, Terminated text →
    ∃ digits rest, text = digits ++ rest ∧ (∀ c ∈ digits, c.isDigit = true) ∧ Stops rest ∧
      Terminated rest
  | c :: text, h => by
    cases hc : c.isDigit with
    | false => exact ⟨[], c :: text, rfl, fun _ hmem => (nomatch hmem), .cons hc, h⟩
    | true =>
      have hne : c ≠ '\x00' := by
        rintro rfl
        revert hc
        decide
      obtain ⟨digits, rest, rfl, hdigits, hstops, hrest⟩ := (h.of_cons hne).exists_digits
      exact ⟨c :: digits, rest, rfl, List.forall_mem_cons.mpr ⟨hc, hdigits⟩, hstops, hrest⟩

/-- Digits up to something else are read to their end, if there is no width. -/
theorem scanDigits_stops : ∀ {digits : List Char}, (∀ c ∈ digits, c.isDigit = true) →
    ∀ (value : ℕ), Stops rest →
    scanDigits none value (digits ++ rest) = some (ofDigitChars 10 digits value, rest)
  | [], _, value, hstops => by
    obtain ⟨c, rest', rfl, hc⟩ := hstops
    rw [List.nil_append, scanDigits, if_pos (.inr hc), Nat.ofDigitChars_nil]
  | c :: digits, hdigits, value, hstops => by
    obtain ⟨hc, hdigits⟩ := List.forall_mem_cons.mp hdigits
    rw [List.cons_append, scanDigits, if_neg (by simp [hc]), Option.map_none,
      scanDigits_stops hdigits _ hstops, Nat.ofDigitChars_cons]

/-- As many digits as the width are read, whatever comes next. -/
theorem scanDigits_width : ∀ {digits : List Char}, (∀ c ∈ digits, c.isDigit = true) →
    ∀ (value : ℕ),
    scanDigits (some digits.length) value (digits ++ rest) =
      some (ofDigitChars 10 digits value, rest)
  | [], _, value => by
    cases rest <;> simp [scanDigits]
  | c :: digits, hdigits, value => by
    obtain ⟨hc, hdigits⟩ := List.forall_mem_cons.mp hdigits
    rw [List.cons_append, scanDigits, if_neg (by simp [hc]), Option.map_some, List.length_cons,
      Nat.add_sub_cancel, scanDigits_width hdigits, Nat.ofDigitChars_cons]

/-- A digit is neither a space nor a sign. -/
theorem not_isSpace_of_isDigit {c : Char} (h : c.isDigit = true) :
    isSpace c = false ∧ c ≠ '-' ∧ c ≠ '+' := by
  rw [Char.isDigit_iff_toNat] at h
  have hlow : 48 ≤ c.toNat := h.1
  refine ⟨?_, ?_, ?_⟩
  · by_contra hspace
    rw [Bool.not_eq_false, isSpace, Bool.or_eq_true, Bool.and_eq_true, beq_iff_eq,
      decide_eq_true_eq, decide_eq_true_eq] at hspace
    obtain rfl | ⟨-, hhigh⟩ := hspace
    · exact absurd hlow (by decide)
    · have hhigh : c.toNat ≤ 13 := hhigh
      omega
  · rintro rfl
    exact absurd hlow (by decide)
  · rintro rfl
    exact absurd hlow (by decide)

/-- **A number that has only digits** is read up to its end, if a width, if there is one, says so,
and else if no digit comes after it. -/
theorem scanNumber_eq {digits : List Char} (hne : digits ≠ [])
    (hdigits : ∀ c ∈ digits, c.isDigit = true)
    (hwidth : width = some digits.length ∨ width = none ∧ Stops rest) :
    scanNumber width (digits ++ rest) = some (some ((ofDigitChars 10 digits 0 : ℤ), rest)) := by
  obtain ⟨c, digits, rfl⟩ := List.exists_cons_of_ne_nil hne
  obtain ⟨hspace, hminus, hplus⟩ := not_isSpace_of_isDigit (hdigits c List.mem_cons_self)
  have hskip : skipSpaces (c :: digits ++ rest) = some (c :: digits ++ rest) := by
    rw [List.cons_append, skipSpaces, hspace, if_neg Bool.false_ne_true]
  have hsign : takeSign (c :: digits ++ rest) = ([], c :: digits ++ rest) := by
    unfold takeSign
    split
    · next heq => exact absurd (List.cons.inj heq).1 hminus
    · next heq => exact absurd (List.cons.inj heq).1 hplus
    · rfl
  have hscan : scanDigits width 0 (c :: digits ++ rest) =
      some (ofDigitChars 10 (c :: digits) 0, rest) := by
    obtain rfl | ⟨rfl, hstops⟩ := hwidth
    · exact scanDigits_width hdigits 0
    · exact scanDigits_stops hdigits 0 hstops
  have hmore : ¬ (width = some 0 ∨ c.isDigit = false) := by
    rw [hdigits c List.mem_cons_self]
    rintro (rfl | hfalse)
    · obtain heq | ⟨heq, -⟩ := hwidth
      · cases heq
      · cases heq
    · cases hfalse
  have hmagnitude : scanMagnitude width (c :: digits ++ rest) =
      some (some (ofDigitChars 10 (c :: digits) 0, rest)) := by
    rw [List.cons_append, scanMagnitude, if_neg hmore, ← List.cons_append, hscan, Option.map_some]
  have hwidth' : width.map (· - ([] : List Char).length) = width := by
    simp only [List.length_nil, Nat.sub_zero, Option.map_id']
  unfold scanNumber
  simp only [hskip, hsign, hwidth', hmagnitude, Option.bind_eq_bind, Option.bind_some,
    Option.map_some, signed, List.nil_eq, List.cons_ne_nil, if_false]

/-- A format that starts with a number, on a text that starts with digits. -/
theorem scanf_number {format : List Directive} {digits : List Char} (hne : digits ≠ [])
    (hdigits : ∀ c ∈ digits, c.isDigit = true)
    (hwidth : width = some digits.length ∨ width = none ∧ Stops rest) {values : List ℤ}
    {rest' : Option (List Char)} (h : scanf format rest = some (values, rest')) :
    scanf (.number width :: format) (digits ++ rest) =
      some ((ofDigitChars 10 digits 0 : ℤ) :: values, rest') := by
  rw [scanf, scanNumber_eq hne hdigits hwidth, Option.bind_eq_bind, Option.bind_some]
  dsimp only
  rw [h]
  rfl

/-- A number that `padded` has written, up to something that is no digit or up to the width. -/
theorem scanf_padded {format : List Directive} {digits : ℕ} (n : ℕ)
    (hwidth : width = some (padded digits n).length ∨ width = none ∧ Stops rest) {values : List ℤ}
    {rest' : Option (List Char)} (h : scanf format rest = some (values, rest')) :
    scanf (.number width :: format) (padded digits n ++ rest) =
      some ((n : ℤ) :: values, rest') := by
  rw [scanf_number (padded_ne_nil digits n) (fun _ => isDigit_of_mem_padded) hwidth h,
    ofDigitChars_padded]

/-- A format that starts with a character, on a text that does. -/
theorem scanf_literal {format : List Directive} (c : Char) :
    scanf (.literal c :: format) (c :: text) = scanf format text := by
  rw [scanf, if_pos rfl]

end Prosperismo
