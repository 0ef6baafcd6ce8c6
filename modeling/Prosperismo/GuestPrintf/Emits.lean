import Prosperismo.GuestPrintf.Buffers

/-!
# What a directive puts out

Every directive puts out a text that does not depend on what was put out before, and none but a
string reads memory. The loops over the digits of a number of type `double` are as safe as those of
integers: each round is behind a test of the length. -/

namespace Prosperismo.GuestPrintf

/-! ### Floating point -/

/-- The loop over the digits of the fraction never writes past the end. -/
theorem fracLoop_fits : ∀ (fuel count frac : ℕ) (buf : List Char), Fits buf →
    bufferSize < buf.length + fuel →
    ∃ count' buf', fracLoop fuel count frac buf = some (count', buf') ∧ Fits buf'
  | 0, _, _, _, h, hfuel => absurd h (not_le.mpr hfuel)
  | fuel + 1, count, frac, buf, h, hfuel => by
    rw [fracLoop]
    by_cases hlt : buf.length < bufferSize
    · rw [if_pos hlt, put_eq hlt, Option.bind_eq_bind, Option.bind_some]
      split
      · exact ⟨_, _, rfl, hlt⟩
      · exact fracLoop_fits fuel _ _ _ hlt (by rw [List.length_cons]; omega)
    · rw [if_neg hlt]
      exact ⟨_, _, rfl, h⟩

/-- The loop over the digits of the whole part never writes past the end. -/
theorem wholeLoop_fits : ∀ (fuel : ℕ) (whole : ℤ) (buf : List Char), Fits buf →
    bufferSize < buf.length + fuel → ∃ buf', wholeLoop fuel whole buf = some buf' ∧ Fits buf'
  | 0, _, _, h, hfuel => absurd h (not_le.mpr hfuel)
  | fuel + 1, whole, buf, h, hfuel => by
    rw [wholeLoop]
    by_cases hlt : buf.length < bufferSize
    · rw [if_pos hlt, put_eq hlt, Option.bind_eq_bind, Option.bind_some]
      split
      · exact ⟨_, rfl, hlt⟩
      · exact wholeLoop_fits fuel _ _ hlt (by rw [List.length_cons]; omega)
    · rw [if_neg hlt]
      exact ⟨_, rfl, h⟩

/-- A function of the state that puts out a text and does nothing else. -/
def Emits (f : State → Option State) : Prop :=
  ∃ text, ∀ state, f state = some (state.emit text)

theorem emits_outRev (buf : List Char) (width : ℕ) (flags : Flags) :
    Emits fun state => some (outRev state buf width flags) :=
  ⟨_, fun state => congrArg some (outRev_eq state buf width flags)⟩

theorem emits_ntoa (value : ℕ) (negative : Bool) (base prec width : ℕ) (flags : Flags) :
    Emits fun state => ntoa state value negative base prec width flags := by
  by_cases hdigits : flags.precision = false ∨ value ≠ 0
  · obtain ⟨buf, hbuf, hfits⟩ :=
      digitsLoop_fits flags.uppercase base bufferSize value [] (by decide) (by decide)
    exact ⟨_, fun state =>
      ntoa_of_digits state hfits (fun _ => hbuf) (fun hnot => absurd hdigits hnot) ..⟩
  · exact ⟨_, fun state =>
      ntoa_of_digits state fits_nil (fun h => absurd h hdigits) (fun _ => rfl) ..⟩

/-- The part of `_ftoa` behind the digits: zeros, the sign, and the field. -/
theorem emits_field {buf : List Char} (h : Fits buf) (zeros : Bool) (negative : Bool) (width : ℕ)
    (flags : Flags) :
    Emits fun state => (do
      let buf ← if zeros then zerosLoop width (bufferSize + 1) buf else some buf
      let buf ← putSign buf negative flags
      some (outRev state buf width flags)) := by
  have hzeros := zerosLoop_eq width (bufferSize + 1) buf h (by omega)
  cases zeros <;>
    simp only [hzeros, putSign_eq, Bool.false_eq_true, if_false, if_true, Option.bind_eq_bind,
      Option.bind_some] <;>
    exact emits_outRev ..

theorem ftoaDigits_fits (ops : FloatOps) (value : BitVec 64) (prec : ℕ) (flags : Flags) :
    ∃ buf, ftoaDigits ops value prec flags = some buf ∧ Fits buf := by
  unfold ftoaDigits
  dsimp only
  generalize (if flags.precision then prec else 6) = prec
  rw [zerosLoop_eq _ _ _ fits_nil (by decide)]
  simp only [Option.bind_eq_bind, Option.bind_some]
  have hfits := fits_nil.fillZeros (prec - 9)
  generalize fillZeros (prec - 9) [] = buf at hfits ⊢
  generalize prec - buf.length = prec
  by_cases hprec : prec = 0
  · rw [if_pos hprec]
    exact wholeLoop_fits _ _ _ hfits (by omega)
  · obtain ⟨count, digits, hfrac, hdigits⟩ :=
      fracLoop_fits (bufferSize + 1) prec (ops.split value prec).2 buf hfits
        (by omega)
    have hzeros := zerosLoop_eq (digits.length + count) (bufferSize + 1) digits hdigits (by omega)
    rw [if_neg hprec, hfrac]
    simp only [Option.bind_some, hzeros, putIfRoom_eq]
    exact wholeLoop_fits _ _ _ ((hdigits.fillZeros _).room _) (by omega)

theorem emits_ftoaSmall (ops : FloatOps) (value : BitVec 64) (prec width : ℕ) (flags : Flags) :
    Emits fun state => ftoaSmall ops state value prec width flags := by
  obtain ⟨buf, hbuf, hfits⟩ := ftoaDigits_fits ops value prec flags
  unfold ftoaSmall
  cases ops.classify value with
  | nan => exact emits_outRev ..
  | low => exact emits_outRev ..
  | high => exact emits_outRev ..
  | large =>
    simp only [hbuf, Option.bind_eq_bind, Option.bind_some]
    exact emits_field hfits ..
  | other =>
    simp only [hbuf, Option.bind_eq_bind, Option.bind_some]
    exact emits_field hfits ..

/-- One text after the other. -/
theorem Emits.bind {f g : State → Option State} (hf : Emits f) (hg : Emits g) :
    Emits fun state => (f state).bind g := by
  obtain ⟨text, hf⟩ := hf
  obtain ⟨text', hg⟩ := hg
  refine ⟨text ++ text', fun state => ?_⟩
  dsimp only
  rw [hf, Option.bind_some, hg, emit_emit]

theorem emits_out (c : Char) : Emits fun state => some (out state c) := ⟨[c], fun _ => rfl⟩

/-- Spaces up to a width, behind what a function puts out. -/
theorem Emits.spaces {f : State → Option State} (hf : Emits f) (left : Bool) (width : ℕ) :
    Emits fun state => (f state).map fun state' =>
      if left then outSpaces state' (width - (state'.idx - state.idx)) else state' := by
  obtain ⟨text, hf⟩ := hf
  cases left with
  | false => exact ⟨text, fun state => by simp [hf]⟩
  | true =>
    refine ⟨text ++ List.replicate (width - text.length) ' ', fun state => ?_⟩
    have hidx : (state.emit text).idx - state.idx = text.length := Nat.add_sub_cancel_left ..
    simp only [hf, Option.map_some, if_true, hidx, outSpaces_eq, emit_emit]

theorem emits_etoa (ops : FloatOps) (value : BitVec 64) (prec width : ℕ) (flags : Flags) :
    Emits fun state => etoa ops state value prec width flags := by
  unfold etoa
  have hexponent : ∀ (value : BitVec 64) (prec fwidth minwidth : ℕ) (flags' : Flags) (expval : ℤ),
      Emits fun state => (ftoaSmall ops state value prec fwidth flags').bind fun state' =>
        if minwidth = 0 then some state'
        else (ntoa (out state' (if flags.uppercase then 'E' else 'e')) expval.natAbs
          (decide (expval < 0)) 10 0 (minwidth - 1) { zeropad := true, plus := true }).bind
            fun state'' => some (if flags.left then
              outSpaces state'' (width - (state''.idx - state.idx)) else state'') := by
    intro value prec fwidth minwidth flags' expval
    by_cases hmin : minwidth = 0
    · simp only [if_pos hmin]
      exact (emits_ftoaSmall ops value prec fwidth flags').bind ⟨[], fun state => by rw [emit_nil]⟩
    · simp only [if_neg hmin]
      have hdigits := (emits_ftoaSmall ops value prec fwidth flags').bind
        ((emits_out (if flags.uppercase then 'E' else 'e')).bind
          (emits_ntoa expval.natAbs (decide (expval < 0)) 10 0 (minwidth - 1)
            { zeropad := true, plus := true }))
      obtain ⟨text, htext⟩ := hdigits.spaces flags.left width
      refine ⟨text, fun state => ?_⟩
      rw [← htext]
      simp [Option.map_eq_bind, Option.bind_assoc, Function.comp_def]
  cases ops.classify value with
  | nan => exact emits_ftoaSmall ..
  | low => exact emits_ftoaSmall ..
  | high => exact emits_ftoaSmall ..
  | large => exact hexponent ..
  | other => exact hexponent ..

theorem emits_ftoa (ops : FloatOps) (value : BitVec 64) (prec width : ℕ) (flags : Flags) :
    Emits fun state => ftoa ops state value prec width flags := by
  unfold ftoa
  cases ops.classify value with
  | large => exact emits_etoa ..
  | _ => exact emits_ftoaSmall ..

end Prosperismo.GuestPrintf
