import Prosperismo.GuestPrintf.Conversions

/-!
# Integer directives and C

What the code prints for a directive of an integer is the text of C exactly under
`Conversion.Faithful` (`conversion_exact`). Where the code reads what C reads this is
`printed_exact`; it reads something else for numbers from `2 ^ 32` on, which the text of C is too
long for, and for a negative precision. -/

namespace Prosperismo.GuestPrintf

variable {spec : Spec} {v : ℤ} {flags : Flags}

/-- Sign, prefix and digits are in the text. -/
theorem visible_text_ge (spec : Spec) (v : ℤ) :
    visible (spec.sign v) + visible (spec.digits v.natAbs) ≤ visible (spec.text v) := by
  unfold Spec.text
  dsimp only
  split_ifs <;> simp only [visible_append, visible_spaces, visible_zeros] <;> omega

/-- Long precisions are not faithful. -/
theorem Spec.Faithful.precision_le (h : spec.Faithful v) (hbits : v.natAbs < 0x10000000000000000)
    {p : ℕ} (hprec : spec.precision = some p) : p ≤ 32 := by
  have hshort : spec.length v ≤ 22 := by
    unfold Spec.length
    split
    · exact Nat.zero_le _
    · exact length_numeral_le (Spec.base_bounds _).1 hbits
  unfold Faithful at h
  rw [hprec] at h
  dsimp only at h
  split_ifs at h <;> omega

/-- A precision of zero adds nothing to a number that is not zero. -/
theorem Spec.text_precision_zero (hne : v ≠ 0) (hnone : spec.precision = none) :
    ({ spec with precision := some 0 } : Spec).text v = spec.text v ↔
      spec.left = true ∨ spec.zero = false ∨
        spec.width ≤ (spec.sign v ++ spec.altPrefix v.natAbs ++ spec.digits v.natAbs).length := by
  have hdigits : ({ spec with precision := some 0 } : Spec).digits v.natAbs = spec.digits v.natAbs := by
    have hmagnitude : ({ spec with precision := some 0 } : Spec).magnitude v.natAbs =
        spec.magnitude v.natAbs := by
      rw [magnitude_eq, magnitude_eq, own_of_ne hne, own_of_ne hne, hnone]
      rfl
    unfold digits
    rw [hmagnitude]
  rw [@Spec.text_eq_field { spec with precision := some 0 } v
    (.inr (.inr (Option.some_ne_none 0))), hdigits]
  by_cases hfield : spec.left = true ∨ spec.zero = false
  · refine iff_of_true ?_ (by tauto)
    rw [Spec.text_eq_field (by tauto)]
    rfl
  · obtain ⟨hleft, hzero⟩ := not_or.mp hfield
    rw [Bool.not_eq_true] at hleft
    rw [Bool.not_eq_false] at hzero
    rw [Spec.text_eq_zeros hleft hzero hnone, hleft, hzero]
    change field false spec.width (spec.sign v ++ spec.altPrefix v.natAbs ++ spec.digits v.natAbs) =
      _ ↔ _
    generalize spec.sign v ++ spec.altPrefix v.natAbs = front
    simp only [Bool.false_eq_true, Bool.true_eq_false, false_or]
    constructor
    · intro heq
      have hvisible := congrArg visible heq
      simp only [visible_field, visible_append, visible_zeros] at hvisible
      omega
    · intro hle
      rw [Nat.sub_eq_zero_of_le hle]
      unfold field
      rw [Nat.sub_eq_zero_of_le hle]
      rfl

/-- **A precision of zero where C has none.** -/
theorem printed_precision_zero (h : FlagsOf { spec with precision := some 0 } flags)
    (hnone : spec.precision = none) (hbits : v.natAbs < 0x10000000000000000)
    (hsigned : spec.specifier.signed = false → 0 ≤ v) :
    printed { spec with precision := some 0 } v flags = spec.text v ↔
      v ≠ 0 ∧ (spec.left = true ∨ spec.zero = false ∨
        spec.width ≤ (spec.sign v ++ spec.altPrefix v.natAbs ++ spec.digits v.natAbs).length) := by
  by_cases hzero : v = 0
  · -- the code prints no digit, and C prints a zero
    subst hzero
    refine iff_of_false (fun heq => ?_) (fun hne => hne.1 rfl)
    have hplain : FlagsOf { spec with precision := some 0, hash := false }
        { flags with hash := false } := { h with hash := rfl }
    have hprinted := (printed_exact (v := 0) hplain hbits hsigned).mpr (by
      unfold Spec.Faithful Spec.altLength
      simp)
    have hsame : printed { spec with precision := some 0 } 0 flags =
        printed { spec with precision := some 0, hash := false } 0 { flags with hash := false } := rfl
    rw [hsame, hprinted, Spec.text_eq_field (.inr (.inr (Option.some_ne_none 0)))] at heq
    have hvisible := congrArg visible heq
    have hdigits : spec.digits (0 : ℤ).natAbs = ['0'] := by
      rw [Spec.digits_zero_none hnone, ← Spec.magnitude_eq]
      unfold Spec.magnitude
      rw [hnone]
      rfl
    have hge := visible_text_ge spec 0
    rw [hdigits, ← hvisible, visible_field] at hge
    have hbody : Spec.sign { spec with precision := some 0, hash := false } 0 ++
        Spec.altPrefix { spec with precision := some 0, hash := false } (0 : ℤ).natAbs ++
        Spec.digits { spec with precision := some 0, hash := false } (0 : ℤ).natAbs =
        spec.sign 0 := by
      unfold Spec.altPrefix Spec.digits Spec.magnitude
      simp
      rfl
    rw [hbody] at hge
    exact absurd hge (by simp [visible])
  · rw [← Spec.text_precision_zero hzero hnone]
    have hprinted := (printed_exact h hbits hsigned).mpr (by
      unfold Spec.Faithful
      simp [hzero])
    rw [hprinted]
    exact ⟨fun heq => ⟨hzero, heq⟩, fun heq => heq.2⟩

namespace Conversion

variable (c : Conversion) (args : VaList)

/-- **What is printed, and the text of C.** -/
theorem printed_eq_text_iff (h : FlagsOf (c.read args) flags) :
    printed (c.read args) (c.value args) flags = (c.spec args).text (c.value args) ↔
      c.Faithful args := by
  obtain ⟨hbits, hsigned⟩ := c.value_bounds args
  have hlength : (printed (c.read args) (c.value args) flags).length ≤ max (c.read args).width 32 :=
    length_printed_le hbits
  have hwidth := width_le_text (c.spec args) (c.value args)
  have hread : (c.read args).width = (c.spec args).width % 0x100000000 := rfl
  unfold Faithful
  by_cases hsmall : (c.spec args).width < 0x100000000
  swap
  · -- the field is longer than what is printed
    refine iff_of_false (fun heq => ?_) (fun hfaithful => hsmall hfaithful.1)
    rw [heq] at hlength
    omega
  rw [Nat.mod_eq_of_lt hsmall] at hread
  rw [and_iff_right hsmall]
  have hcode : c.read args = { c.spec args with
      width := (c.read args).width
      precision := (c.read args).precision } := rfl
  rw [hread] at hcode
  cases hgiven : (c.precisionValue args).1 with
  | none =>
    have hnone : (c.read args).precision = (c.spec args).precision := by
      unfold read spec
      rw [hgiven]
      rfl
    have hignores : c.ignoresPrecision args = false := by
      unfold ignoresPrecision
      rw [hgiven]
      rfl
    rw [hnone] at hcode
    rw [hcode] at h ⊢
    rw [hignores]
    exact printed_exact h hbits hsigned
  | some p =>
    have hprec : (c.read args).precision = some (p.toNat % 0x100000000) := by
      unfold read
      rw [hgiven]
      rfl
    by_cases hneg : p < 0
    · have hzero : p.toNat % 0x100000000 = 0 := by rw [Int.toNat_of_nonpos hneg.le]
      have hnone : (c.spec args).precision = none := by
        unfold spec
        rw [hgiven]
        simp [hneg]
      have hignores : c.ignoresPrecision args = true := by
        unfold ignoresPrecision
        rw [hgiven]
        simp [hneg]
      rw [hprec, hzero] at hcode
      rw [hcode] at h ⊢
      rw [hignores]
      exact printed_precision_zero h hnone hbits hsigned
    · have hsome : (c.spec args).precision = some p.toNat := by
        unfold spec
        rw [hgiven]
        simp [not_lt.mp hneg]
      have hignores : c.ignoresPrecision args = false := by
        unfold ignoresPrecision
        rw [hgiven]
        simp [not_lt.mp hneg]
      rw [hignores]
      by_cases hlt : p.toNat < 0x100000000
      · rw [hprec, Nat.mod_eq_of_lt hlt, ← hsome] at hcode
        rw [hcode] at h ⊢
        exact printed_exact h hbits hsigned
      · -- and so are the digits
        refine iff_of_false (fun heq => ?_) (fun hfaithful => ?_)
        · have hdigits := precision_le_text hsome (c.value args)
          rw [heq] at hlength
          omega
        · have hle := hfaithful.precision_le hbits hsome
          omega

theorem two_le_length_text : 2 ≤ c.text.length := by
  unfold Conversion.text
  simp only [List.length_cons, List.length_append, List.length_nil]
  omega

/-- **The text of an integer, exactly.** A directive is put out as one text, wherever it stands in a
format, and alone it is all that is printed. The text is what C prescribes exactly under the
condition. -/
theorem conversion_exact (ops : FloatOps) (memory : BitVec 64 → List Char) :
    ∃ text, (∀ fuel state format,
        formatLoop ops memory (fuel + 1) state args (c.text ++ format) =
          formatLoop ops memory fuel (state.emit text) (c.rest args) format) ∧
      (kytyPrintf ops memory (c.text ++ ['\x00']) args).map Printed.text = some text ∧
      (text = (c.spec args).text (c.value args) ↔ c.Faithful args) := by
  obtain ⟨flags, hflags, hloop⟩ := c.formatLoop_append args ops memory
  refine ⟨_, hloop, ?_, c.printed_eq_text_iff args hflags⟩
  -- one round for the directive, and one for the terminator
  obtain ⟨n, hn⟩ := Nat.exists_eq_add_of_le' c.two_le_length_text
  have hfuel : (c.text ++ ['\x00']).length = n + 1 + 1 + 1 := by
    rw [List.length_append, hn]
    rfl
  unfold kytyPrintf
  rw [hfuel, hloop, formatLoop, if_pos rfl]
  rfl

end Conversion

/-- `%#2x` of `31`: the digits fill the field, and are dropped for the prefix. -/
theorem conversion_inexact :
    ¬ ∀ (c : Conversion) (args : VaList),
      (kytyPrintf noFloats (fun _ => []) (c.text ++ ['\x00']) args).map Printed.text =
        some ((c.spec args).text (c.value args)) := by
  intro h
  have hprinted := h ⟨[.hash], .number [2], none, .int, .x, by simp⟩ ⟨[31], [], fun _ => 0⟩
  revert hprinted
  decide +kernel

/-- The zeros of the precision with the `-` flag, the sign of a number in a field that is wider than
the buffer, and the prefix of a number that fills its field. -/
example :
    let printed (format : String) (arg : BitVec 64) :=
      (kytyPrintf noFloats (fun _ => []) (format.toList ++ ['\x00']) ⟨[arg], [], fun _ => 0⟩).map
        fun p => String.ofList p.text
    printed "%-5.3d" 5 = some "5    " ∧
      printed "%+040d" (-5) = some "00000000000000000000000000000005" ∧
      printed "%#2x" 31 = some "0x" := by
  decide +kernel

end Prosperismo.GuestPrintf
