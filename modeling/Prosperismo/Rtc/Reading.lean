import Prosperismo.Rtc.Dates
import Prosperismo.Rtc.Text

/-!
# What `RtcParseRFC3339` reads

A text is read as six numbers with characters between them, an optional fraction and an optional
zone: `ReadsTime` and `ReadsZone` say this of a text, without the code. `rtcParse_cases` is what the
call does with any text that has a terminator: either the text has such a time, which is a date of
the calendar, and then the zone decides, or the call is an error and `*utc` is as it was.
-/

namespace Prosperismo.Rtc

open Nat (ofDigitChars)

variable {libc : ℤ → ℕ} {text pos rest : List Char}

/-! ### Fractions -/

/-- The microseconds of the digits of a fraction, rounded down. -/
def fractionMicros (digits : List Char) : ℕ :=
  ofDigitChars 10 digits 0 * 1000000 / 10 ^ digits.length

theorem dateFormat_last (c : Char) : dateFormat.getLast? ≠ some (.literal c) := nofun

theorem zoneFormat_last (c : Char) : zoneFormat.getLast? ≠ some (.literal c) := nofun

/-- The fraction of a second, if there is one, and what comes after it. -/
inductive ReadsFraction : List Char → ℕ → List Char → Prop
  | absent {pos : List Char} : pos.head? ≠ some '.' → ReadsFraction pos 0 pos
  | digits {digits pos : List Char} : (∀ c ∈ digits, c.isDigit = true) → Stops pos →
      ReadsFraction ('.' :: (digits ++ pos)) (fractionMicros digits) pos

theorem fractionLoop_eq : ∀ {digits : List Char}, (∀ c ∈ digits, c.isDigit = true) →
    ∀ (microsecond n : ℕ), Stops pos →
    fractionLoop microsecond n (digits ++ pos) =
      some (ofDigitChars 10 (digits.take (6 - n)) microsecond, n + digits.length, pos)
  | [], _, microsecond, n, hstops => by
    obtain ⟨c, rest, rfl, hc⟩ := hstops
    rw [List.nil_append, fractionLoop, hc, if_neg Bool.false_ne_true, List.take_nil,
      Nat.ofDigitChars_nil, List.length_nil, Nat.add_zero]
  | c :: digits, hdigits, microsecond, n, hstops => by
    obtain ⟨hc, hdigits⟩ := List.forall_mem_cons.mp hdigits
    rw [List.cons_append, fractionLoop, if_pos hc, fractionLoop_eq hdigits _ _ hstops,
      List.length_cons, Nat.add_right_comm, Nat.add_assoc]
    by_cases hmore : n < 6
    · obtain ⟨k, hk⟩ : ∃ k, 6 - n = k + 1 := ⟨5 - n, by omega⟩
      rw [if_pos hmore, hk, List.take_succ_cons, Nat.ofDigitChars_cons,
        show 6 - (n + 1) = k by omega, Nat.mul_comm]
    · rw [if_neg hmore, show 6 - n = 0 by omega, show 6 - (n + 1) = 0 by omega]
      rfl

theorem fillLoop_eq (microsecond : ℕ) : ∀ missing : ℕ,
    fillLoop microsecond missing = microsecond * 10 ^ missing
  | 0 => (Nat.mul_one _).symm
  | missing + 1 => by
    rw [fillLoop, fillLoop_eq, Nat.mul_assoc, ← Nat.pow_succ']

/-- **The two loops** give the microseconds of the digits. -/
theorem fillLoop_take {digits : List Char} (h : ∀ c ∈ digits, c.isDigit = true) :
    fillLoop (ofDigitChars 10 (digits.take 6) 0)
      (if 0 < digits.length then 6 - digits.length else 0) = fractionMicros digits := by
  rw [fillLoop_eq]
  unfold fractionMicros
  by_cases hshort : digits.length ≤ 6
  · rw [List.take_of_length_le hshort]
    by_cases hpos : 0 < digits.length
    · rw [if_pos hpos, show 1000000 = 10 ^ (6 - digits.length) * 10 ^ digits.length by
        rw [← pow_add, Nat.sub_add_cancel hshort]; rfl, ← Nat.mul_assoc,
        Nat.mul_div_cancel _ (Nat.pow_pos (by decide))]
    · obtain rfl := List.length_eq_zero_iff.mp (Nat.eq_zero_of_not_pos hpos)
      rfl
  · -- the digits after the sixth are lost in the division
    obtain ⟨k, hk⟩ : ∃ k, digits.length = 6 + k := ⟨digits.length - 6, by omega⟩
    have hdrop : (digits.drop 6).length = k := by rw [List.length_drop, hk]; omega
    have hlow : ofDigitChars 10 (digits.drop 6) 0 < 10 ^ k := by
      rw [← hdrop]
      exact ofDigitChars_lt fun c hmem => h c (List.mem_of_mem_drop hmem)
    have hvalue : ofDigitChars 10 digits 0 =
        10 ^ k * ofDigitChars 10 (digits.take 6) 0 + ofDigitChars 10 (digits.drop 6) 0 := by
      rw [← hdrop, ← Nat.ofDigitChars_eq_ofDigitChars_zero, ← Nat.ofDigitChars_append,
        List.take_append_drop]
    rw [if_pos (by omega), show 6 - digits.length = 0 by omega, pow_zero, Nat.mul_one, hk, pow_add,
      Nat.mul_comm _ 1000000, show (10 : ℕ) ^ 6 = 1000000 from rfl,
      Nat.mul_div_mul_left _ _ (by decide), hvalue, Nat.mul_add_div (Nat.pow_pos (by decide)),
      Nat.div_eq_of_lt hlow, Nat.add_zero]

theorem readFraction_digits {digits : List Char} (h : ∀ c ∈ digits, c.isDigit = true)
    (hstops : Stops pos) :
    readFraction ('.' :: (digits ++ pos)) = some (fractionMicros digits, pos) := by
  rw [readFraction, if_pos rfl, fractionLoop_eq h 0 0 hstops, Option.bind_eq_bind, Option.bind_some]
  simp only [Nat.zero_add, Nat.sub_zero]
  rw [fillLoop_take h]

/-- The fraction of a text that has a terminator. -/
theorem readFraction_spec (h : Terminated text) :
    ∃ microsecond pos, readFraction text = some (microsecond, pos) ∧
      ReadsFraction text microsecond pos ∧ Terminated pos := by
  cases text with
  | nil => cases h
  | cons c text =>
    by_cases hdot : c = '.'
    · subst hdot
      obtain ⟨digits, pos, rfl, hdigits, hstops, hpos⟩ :=
        (h.of_cons (by decide)).exists_digits
      exact ⟨_, pos, readFraction_digits hdigits hstops, .digits hdigits hstops, hpos⟩
    · refine ⟨0, c :: text, ?_, .absent fun heq => hdot (Option.some.inj heq), h⟩
      rw [readFraction, if_neg hdot]

/-! ### Zones -/

/-- The zone of a text, in minutes to the east: `Z` or nothing, or a sign and two numbers. -/
inductive ReadsZone : List Char → ℤ → Prop
  | utc (pos : List Char) : ReadsZone ('Z' :: pos) 0
  | absent (pos : List Char) : ReadsZone ('\x00' :: pos) 0
  | east {pos rest : List Char} {hour minute : ℤ} : Matches zoneFormat pos [hour, minute] rest →
      ReadsZone ('+' :: pos) (hour * 60 + minute)
  | west {pos rest : List Char} {hour minute : ℤ} : Matches zoneFormat pos [hour, minute] rest →
      ReadsZone ('-' :: pos) (-(hour * 60 + minute))

/-- The numbers of a zone have at most two digits. -/
theorem abs_lt_of_matches_zone {hour minute : ℤ}
    (h : Matches zoneFormat pos [hour, minute] rest) : hour.natAbs < 100 ∧ minute.natAbs < 100 := by
  unfold zoneFormat at h
  cases h with
  | number hhour h =>
    cases h with
    | literal _ h =>
      cases h with
      | number hminute _ => exact ⟨hhour.abs_lt, hminute.abs_lt⟩

theorem ReadsZone.abs_lt {minutes : ℤ} (h : ReadsZone text minutes) : minutes.natAbs < 6100 := by
  cases h with
  | utc => decide
  | absent => decide
  | east h =>
    obtain ⟨hhour, hminute⟩ := abs_lt_of_matches_zone h
    omega
  | west h =>
    obtain ⟨hhour, hminute⟩ := abs_lt_of_matches_zone h
    omega

/-- All dates have small ticks. -/
theorem RtcDateTime.Valid.ticks_lt {time : RtcDateTime} (h : time.Valid) :
    time.ticks < 0x800000000000000 := by
  have hyear := (h.date.year_le_iff 9999).mp h.year
  rw [Calendar.daysBeforeYear_eq] at hyear
  have husec := h.usec_lt
  unfold RtcDateTime.ticks
  unfold dayTicks at *
  omega

/-- The tick in a zone is computed without a wrap. -/
theorem toUnsigned_sub {utc : ℕ} (hutc : utc < 0x800000000000000) {minutes : ℤ}
    (hminutes : minutes.natAbs < 6100) (hle : minuteTicks minutes ≤ utc) :
    toUnsigned (utc - minuteTicks minutes) = (utc - minuteTicks minutes).toNat := by
  unfold toUnsigned
  unfold minuteTicks at *
  rw [Int.emod_eq_of_lt (by omega) (by omega)]

/-- The zone of a text whose numbers are read. -/
theorem readZone_offset {utc : ℕ} {c : Char} (hc : c = '+' ∨ c = '-') {hour minute : ℤ}
    {rest : Option (List Char)} (h : scanf zoneFormat pos = some ([hour, minute], rest))
    (hutc : utc < 0x800000000000000) {minutes : ℤ} (hminutes : minutes.natAbs < 6100)
    (heq : (if c = '-' then -(hour * 60 + minute) else hour * 60 + minute) = minutes) :
    readZone utc (c :: pos) = some (if minuteTicks minutes ≤ utc then
      (ok, some (utc - minuteTicks minutes).toNat) else (errorInvalidValue, some utc)) := by
  have hutc' : ¬ (c = 'Z' ∨ c = '\x00') := by
    rcases hc with rfl | rfl <;> decide
  have hsign : ¬ (c ≠ '+' ∧ c ≠ '-') := fun hne => hc.elim hne.1 hne.2
  rw [readZone, if_neg hutc', if_neg hsign, h, Option.bind_eq_bind, Option.bind_some]
  dsimp only
  rw [heq]
  by_cases hle : minuteTicks minutes ≤ utc
  · rw [if_neg (fun hlt => absurd hle (not_le.mpr hlt.2)), if_pos hle,
      toUnsigned_sub hutc hminutes hle]
  · rw [if_pos ⟨by omega, not_le.mp hle⟩, if_neg hle]

/-- **The zone.** The call succeeds only where the text has one, and not if the instant is before
the first tick. -/
theorem readZone_spec {utc : ℕ} (hutc : utc < 0x800000000000000) (h : Terminated text) :
    ∃ code tick, readZone utc text = some (code, tick) ∧
      (code = ok → ∃ minutes, ReadsZone text minutes ∧ minuteTicks minutes ≤ utc ∧
        tick = some (utc - minuteTicks minutes).toNat) := by
  cases text with
  | nil => cases h
  | cons c pos =>
    by_cases hutc' : c = 'Z' ∨ c = '\x00'
    · refine ⟨ok, some utc, by rw [readZone, if_pos hutc'], fun _ => ⟨0, ?_, ?_, ?_⟩⟩
      · obtain rfl | rfl := hutc'
        · exact .utc pos
        · exact .absent pos
      · exact Int.natCast_nonneg utc
      · simp [minuteTicks]
    · by_cases hsign : c ≠ '+' ∧ c ≠ '-'
      · exact ⟨errorInvalidValue, some utc, by rw [readZone, if_neg hutc', if_pos hsign],
          fun hok => absurd hok (by decide)⟩
      · have hpos : Terminated pos := h.of_cons fun heq => hutc' (.inr heq)
        have hc : c = '+' ∨ c = '-' := by
          by_contra hne
          exact hsign (not_or.mp hne)
        obtain ⟨values, rest, hscan, -⟩ := scanf_terminated zoneFormat (by decide) hpos
        by_cases hvalues : ∃ hour minute, values = [hour, minute]
        · obtain ⟨hour, minute, rfl⟩ := hvalues
          cases rest with
          | none => exact absurd (length_lt_of_scanf_none zoneFormat_last hscan) (lt_irrefl 2)
          | some rest =>
            have hmatches := Matches.of_scanf hscan
            have hzone : ReadsZone (c :: pos)
                (if c = '-' then -(hour * 60 + minute) else hour * 60 + minute) := by
              obtain rfl | rfl := hc
              · exact .east hmatches
              · exact .west hmatches
            have hread := readZone_offset hc hscan hutc hzone.abs_lt rfl
            by_cases hle : minuteTicks
                (if c = '-' then -(hour * 60 + minute) else hour * 60 + minute) ≤ utc
            · rw [if_pos hle] at hread
              exact ⟨ok, _, hread, fun _ => ⟨_, hzone, hle, rfl⟩⟩
            · rw [if_neg hle] at hread
              exact ⟨errorInvalidValue, _, hread, fun hok => absurd hok (by decide)⟩
        · refine ⟨errorInvalidValue, some utc, ?_, fun hok => absurd hok (by decide)⟩
          rw [readZone, if_neg hutc', if_neg hsign, hscan, Option.bind_eq_bind, Option.bind_some]
          match values, hvalues with
          | [], _ => rfl
          | [_], _ => rfl
          | [hour, minute], hvalues => exact absurd ⟨hour, minute, rfl⟩ hvalues
          | _ :: _ :: _ :: _, _ => rfl

/-! ### Times -/

/-- The date, time and fraction of a text, and what comes after them. -/
def ReadsTime (libc : ℤ → ℕ) (text : List Char) (time : RtcDateTime) (pos : List Char) : Prop :=
  ∃ values rest microsecond, Matches dateFormat text values rest ∧
    ReadsFraction rest microsecond pos ∧
    time = { storeFields libc values with microsecond := microsecond }

theorem rtcGetTick_of_not_valid {time : RtcDateTime} (h : ¬ time.Valid) (old : ℕ) :
    rtcGetTick (some time) (some old) = (rtcCheckValid (some time), some old) ∧
      rtcCheckValid (some time) ≠ ok := by
  have hcode : rtcCheckValid (some time) ≠ ok := mt (checkValid_iff time).mp h
  refine ⟨?_, hcode⟩
  unfold rtcGetTick
  dsimp only
  rw [if_pos hcode]

theorem got_ok {got : ℤ × Option ℕ} {tick : ℕ} (h : got = (ok, some tick)) :
    (if got.1 ≠ ok then some got else readZone (got.2.getD 0) pos) = readZone tick pos := by
  subst h
  rfl

/-- What the call does with a text whose six numbers and fraction are read. -/
theorem rtcParse_eq (libc : ℤ → ℕ) {values : List ℤ} {microsecond : ℕ} (hlength : values.length = 6)
    (hscan : scanf dateFormat text = some (values, some rest))
    (hfraction : readFraction rest = some (microsecond, pos)) {time : RtcDateTime}
    (htime : time = { storeFields libc values with microsecond := microsecond }) (old : ℕ) :
    (time.Valid → rtcParseRFC3339 libc (some old) (some text) = readZone time.ticks pos) ∧
      (¬ time.Valid → ∃ code, code ≠ ok ∧
        rtcParseRFC3339 libc (some old) (some text) = some (code, some old)) := by
  have hparse : rtcParseRFC3339 libc (some old) (some text) =
      if (rtcGetTick (some time) (some old)).1 ≠ ok then some (rtcGetTick (some time) (some old))
      else readZone ((rtcGetTick (some time) (some old)).2.getD 0) pos := by
    unfold rtcParseRFC3339
    dsimp only
    rw [hscan, Option.bind_eq_bind, Option.bind_some, if_neg (not_not.mpr hlength),
      Option.getD_some, hfraction, Option.bind_eq_bind, Option.bind_some, htime]
  constructor
  · intro hvalid
    exact hparse.trans (got_ok (rtcGetTick_eq hvalid old))
  · intro hvalid
    obtain ⟨hget, hcode⟩ := rtcGetTick_of_not_valid hvalid old
    exact ⟨_, hcode, by rw [hparse, hget, if_pos hcode]⟩

/-- **A call on any text with a terminator** returns. Either the text has a time of the calendar,
and the zone decides, or the call is an error and the tick is as it was. -/
theorem rtcParse_cases (libc : ℤ → ℕ) (h : Terminated text) (old : ℕ) :
    (∃ time pos, ReadsTime libc text time pos ∧ time.Valid ∧ Terminated pos ∧
      rtcParseRFC3339 libc (some old) (some text) = readZone time.ticks pos) ∨
    ∃ code, code ≠ ok ∧ rtcParseRFC3339 libc (some old) (some text) = some (code, some old) := by
  obtain ⟨values, rest, hscan, hrest⟩ := scanf_terminated dateFormat (by decide) h
  by_cases hlength : values.length = 6
  · cases rest with
    | none =>
      have hlt : values.length < 6 := length_lt_of_scanf_none dateFormat_last hscan
      exact absurd hlength hlt.ne
    | some rest =>
      obtain ⟨microsecond, pos, hread, hfraction, hpos⟩ := readFraction_spec (hrest rest rfl)
      obtain ⟨hvalid, hinvalid⟩ := rtcParse_eq libc hlength hscan hread rfl old
      by_cases htime : ({ storeFields libc values with microsecond := microsecond } :
          RtcDateTime).Valid
      · exact .inl ⟨_, pos, ⟨values, rest, microsecond, .of_scanf hscan, hfraction, rfl⟩, htime,
          hpos, hvalid htime⟩
      · exact .inr (hinvalid htime)
  · refine .inr ⟨errorInvalidValue, by decide, ?_⟩
    unfold rtcParseRFC3339
    simp only [hscan, hlength, Option.bind_eq_bind, Option.bind_some, ne_eq, not_false_eq_true,
      if_true]

end Prosperismo.Rtc
