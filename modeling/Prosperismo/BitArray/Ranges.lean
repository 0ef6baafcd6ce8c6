import Prosperismo.BitArray.Words

/-!
# Range operations agree with an index set

The searches are scans: `FirstRangeFrom` looks upwards for a set bit and then for the
end of its run, `LastRangeFrom` downwards for the last one and then for the start. Each
loop over words has a lemma of its own, and `firstRangeFrom_scan` and
`lastRangeFrom_scan` put them together; what the first and the last run are is general.

The iterator is `FirstRangeFrom` again, each time from where the last run ended. Its
ranges are the runs of the array, each of them once (`iteration_spec`): the place a
search goes on from is never a set bit, so no run is cut in two.

`agrees_with_index_set` is the result for every operation. A range that does not end in
the array is refused: nothing changes, or nothing is copied.
-/

namespace Prosperismo.BitArray

variable {wordCount : ℕ} (a : BitArray wordCount)

/-! ### Loops over words -/

/-- A word all of whose bits are set. -/
theorem countrOne_lt {word : BitVec 64} (h : word ≠ ~~~0#64) : countrOne word < 64 := by
  obtain ⟨hle, hbelow, -⟩ := countrOne_spec word
  refine lt_of_le_of_ne hle fun heq => h (BitVec.eq_of_getLsbD_eq fun j hj => ?_)
  rw [hbelow j (heq ▸ hj), BitVec.getLsbD_not, BitVec.getLsbD_zero, decide_eq_true hj]
  rfl

theorem countlOne_lt {word : BitVec 64} (h : word ≠ ~~~0#64) : countlOne word < 64 := by
  obtain ⟨hle, hbelow, -⟩ := countlOne_spec word
  refine lt_of_le_of_ne hle fun heq => h (BitVec.eq_of_getLsbD_eq fun j hj => ?_)
  have hbit := hbelow (63 - j) (by omega)
  rw [show 63 - (63 - j) = j by omega] at hbit
  rw [hbit, BitVec.getLsbD_not, BitVec.getLsbD_zero, decide_eq_true hj]
  rfl

theorem get_of_full {w : ℕ} (hfull : a.word w = ~~~0#64) {j : ℕ} (hj : j < 64) :
    a.get (w * 64 + j) = true := by
  rw [get_word a hj, hfull, BitVec.getLsbD_not, BitVec.getLsbD_zero, decide_eq_true hj]
  rfl

/-- The first loop of `FirstRangeFrom`, by induction along it. -/
theorem firstWord_spec (wordIndex : ℕ) (word : BitVec 64) :
    match a.firstWord wordIndex word with
    | none => word = 0 ∧ ∀ w, wordIndex < w → a.word w = 0
    | some (k, x) => x ≠ 0 ∧ ((k = wordIndex ∧ x = word) ∨
        (wordIndex < k ∧ x = a.word k ∧ word = 0 ∧ ∀ w, wordIndex < w → w < k → a.word w = 0)) := by
  fun_induction firstWord a wordIndex word with
  | case1 wordIndex hlast =>
    exact ⟨rfl, fun w hw => word_of_le a (by omega)⟩
  | case2 wordIndex hnext ih =>
    split
    · rename_i hnone
      rw [hnone] at ih
      refine ⟨rfl, fun w hw => ?_⟩
      obtain rfl | hlt := Nat.eq_or_lt_of_le (Nat.succ_le_of_lt hw)
      · exact ih.1
      · exact ih.2 w hlt
    · rename_i k x hsome
      rw [hsome] at ih
      obtain ⟨hx, ⟨rfl, rfl⟩ | ⟨hlt, rfl, hnextZero, hbetween⟩⟩ := ih
      · exact ⟨hx, .inr ⟨Nat.lt_succ_self _, rfl, rfl, fun w hw hw' => by omega⟩⟩
      · refine ⟨hx, .inr ⟨by omega, rfl, rfl, fun w hw hw' => ?_⟩⟩
        obtain rfl | hlt' := Nat.eq_or_lt_of_le (Nat.succ_le_of_lt hw)
        · exact hnextZero
        · exact hbetween w hlt' hw'
  | case3 wordIndex word hne => exact ⟨hne, .inl ⟨rfl, rfl⟩⟩

/-- The second loop of `FirstRangeFrom`. -/
theorem runEnd_spec (w : ℕ) (hw : w ≤ wordCount) : w * 64 ≤ a.runEnd w ∧
    a.runEnd w ≤ size wordCount ∧ (∀ i, w * 64 ≤ i → i < a.runEnd w → a.get i = true) ∧
      a.get (a.runEnd w) = false := by
  have hsize : size wordCount = wordCount * 64 := rfl
  fun_induction runEnd a w with
  | case1 w hlt hne =>
    obtain ⟨-, hbelow, hat⟩ := countrOne_spec (a.word w)
    have hcount := countrOne_lt hne
    have hmul : w * bitsPerWord = w * 64 := rfl
    rw [hmul]
    refine ⟨by omega, by omega, fun i hlo hhi => ?_, ?_⟩
    · have hbit := hbelow (i - w * 64) (by omega)
      rw [← get_word a (by omega), show w * 64 + (i - w * 64) = i by omega] at hbit
      exact hbit
    · rw [get_word a hcount]
      exact hat hcount
  | case2 w hlt hfull ih =>
    obtain ⟨hle, hbound, hall, hend⟩ := ih hlt
    refine ⟨by omega, hbound, fun i hlo hhi => ?_, hend⟩
    by_cases hin : i < (w + 1) * 64
    · have hbit := get_of_full a (not_not.mp hfull) (show i - w * 64 < 64 by omega)
      rw [show w * 64 + (i - w * 64) = i by omega] at hbit
      exact hbit
    · exact hall i (by omega) hhi
  | case3 w hge =>
    refine ⟨by omega, le_rfl, fun i hlo hhi => by omega, ?_⟩
    exact Bool.eq_false_iff.mpr fun h => absurd (lt_of_get h) (lt_irrefl _)

/-- The first loop of `LastRangeFrom`, by induction along it. -/
theorem lastWord_spec : ∀ (wordIndex : ℕ) (word : BitVec 64),
    match a.lastWord wordIndex word with
    | none => word = 0 ∧ ∀ w, w < wordIndex → a.word w = 0
    | some (k, x) => x ≠ 0 ∧ ((k = wordIndex ∧ x = word) ∨
        (k < wordIndex ∧ x = a.word k ∧ word = 0 ∧ ∀ w, k < w → w < wordIndex → a.word w = 0))
  | 0, word => by
    rw [lastWord]
    by_cases hzero : word = 0
    · rw [if_pos hzero]
      exact ⟨hzero, fun w hw => absurd hw (Nat.not_lt_zero w)⟩
    · rw [if_neg hzero]
      exact ⟨hzero, .inl ⟨rfl, rfl⟩⟩
  | wordIndex + 1, word => by
    rw [lastWord]
    by_cases hzero : word = 0
    · rw [if_pos hzero]
      have ih := lastWord_spec wordIndex (a.word wordIndex)
      split
      · rename_i hnone
        rw [hnone] at ih
        refine ⟨hzero, fun w hw => ?_⟩
        obtain rfl | hlt := Nat.eq_or_lt_of_le (Nat.le_of_lt_succ hw)
        · exact ih.1
        · exact ih.2 w hlt
      · rename_i k x hsome
        rw [hsome] at ih
        obtain ⟨hx, ⟨rfl, rfl⟩ | ⟨hlt, rfl, hnextZero, hbetween⟩⟩ := ih
        · exact ⟨hx, .inr ⟨Nat.lt_succ_self _, rfl, hzero, fun w hw hw' => by omega⟩⟩
        · refine ⟨hx, .inr ⟨by omega, rfl, hzero, fun w hw hw' => ?_⟩⟩
          obtain rfl | hlt' := Nat.eq_or_lt_of_le (Nat.le_of_lt_succ hw')
          · exact hnextZero
          · exact hbetween w hw hlt'
    · rw [if_neg hzero]
      exact ⟨hzero, .inl ⟨rfl, rfl⟩⟩

/-- The second loop of `LastRangeFrom`. -/
theorem runStart_spec : ∀ w : ℕ, a.runStart w ≤ w * 64 ∧
    (∀ i, a.runStart w ≤ i → i < w * 64 → a.get i = true) ∧
      ∀ i, i + 1 = a.runStart w → a.get i = false
  | 0 => ⟨le_rfl, fun i _ hi => by omega, fun i hi => absurd hi (Nat.succ_ne_zero i)⟩
  | w + 1 => by
    rw [runStart]
    split
    · rename_i hne
      obtain ⟨-, hbelow, hat⟩ := countlOne_spec (a.word w)
      have hcount := countlOne_lt hne
      have hmul : (w + 1) * bitsPerWord = w * 64 + 64 := by
        show (w + 1) * 64 = _
        omega
      rw [hmul]
      refine ⟨by omega, fun i hlo hhi => ?_, fun i hi => ?_⟩
      · have hbit := hbelow (w * 64 + 63 - i) (by omega)
        rw [← get_word a (by omega), show w * 64 + (63 - (w * 64 + 63 - i)) = i by omega] at hbit
        exact hbit
      · rw [show i = w * 64 + (63 - countlOne (a.word w)) by omega, get_word a (by omega)]
        exact hat hcount
    · rename_i hfull
      obtain ⟨hle, hall, hbefore⟩ := runStart_spec w
      refine ⟨by omega, fun i hlo hhi => ?_, hbefore⟩
      by_cases hin : w * 64 ≤ i
      · have hbit := get_of_full a (not_not.mp hfull) (show i - w * 64 < 64 by omega)
        rw [show w * 64 + (i - w * 64) = i by omega] at hbit
        exact hbit
      · exact hall i hlo (by omega)

/-! ### The searches -/

theorem not_mem_of_word {i : ℕ} (h : a.word (i / 64) = 0) : i ∉ a.indices := by
  rw [mem_indices, get_eq, h]
  exact fun hbit => Bool.false_ne_true (BitVec.getLsbD_zero.symm.trans hbit)

/-- **`FirstRangeFrom`** finds no set bit, or the first one and the end of its run. -/
theorem firstRangeFrom_scan (start : ℕ) :
    (a.firstRangeFrom start = (size wordCount, size wordCount) ∧
      ∀ x, start ≤ x → x ∉ a.indices) ∨
    ∃ first last, a.firstRangeFrom start = (first, last) ∧ start ≤ first ∧ first < last ∧
      last ≤ size wordCount ∧ (∀ x, start ≤ x → x < first → x ∉ a.indices) ∧
        (∀ x, first ≤ x → x < last → x ∈ a.indices) ∧ last ∉ a.indices := by
  have hsize : size wordCount = wordCount * 64 := rfl
  unfold firstRangeFrom
  split
  · rename_i hge
    exact .inl ⟨rfl, fun x hx hmem => absurd (lt_of_get hmem) (by omega)⟩
  rename_i hlt
  dsimp only [bitsPerWord]
  -- the word of the start, without the bits before the start
  have hmasked : ∀ j, j < 64 →
      (a.word (start / 64) &&& (~~~0#64 <<< (start % 64))).getLsbD j
        = ((a.word (start / 64)).getLsbD j && decide (start % 64 ≤ j)) := fun j hj => by
    rw [BitVec.getLsbD_and]
    exact congrArg _ (getLsbD_maskFrom hj)
  generalize a.word (start / 64) &&& (~~~0#64 <<< (start % 64)) = masked at hmasked ⊢
  have hspec := firstWord_spec a (start / 64) masked
  split
  · rename_i hnone
    rw [hnone] at hspec
    refine .inl ⟨rfl, fun x hx => ?_⟩
    obtain heq | hgt := Nat.eq_or_lt_of_le (show start / 64 ≤ x / 64 by omega)
    · rw [mem_indices, get_eq, ← heq]
      have hbit := hmasked (x % 64) (by omega)
      rw [decide_eq_true (by omega), Bool.and_true, hspec.1] at hbit
      exact fun h => Bool.false_ne_true (BitVec.getLsbD_zero.symm.trans (hbit.trans h))
    · exact not_mem_of_word a (hspec.2 _ hgt)
  · rename_i k x hsome
    rw [hsome] at hspec
    obtain ⟨hne, hx⟩ := hspec
    obtain ⟨hcount, hzeros, hone⟩ := countrZero_spec x
    have hcount : countrZero x < 64 := by
      obtain ⟨j, hj, hbit⟩ := exists_getLsbD hne
      by_contra hge
      rw [hzeros j (by omega)] at hbit
      cases hbit
    have hone := hone hcount
    generalize countrZero x = c at hcount hzeros hone ⊢
    -- what the word says about the indices from the start on
    have hword : start / 64 ≤ k ∧ (∀ i, start ≤ i → i / 64 < k → i ∉ a.indices) ∧
        (∀ j, j < 64 → start ≤ k * 64 + j → x.getLsbD j = a.get (k * 64 + j)) ∧
          start ≤ k * 64 + c := by
      obtain ⟨rfl, rfl⟩ | ⟨hk, rfl, hzero, hbetween⟩ := hx
      · refine ⟨le_rfl, fun i hi hik => by omega, fun j hj hstart => ?_, ?_⟩
        · rw [hmasked j hj, decide_eq_true (by omega), Bool.and_true, get_word a hj]
        · rw [hmasked c hcount, Bool.and_eq_true, decide_eq_true_eq] at hone
          omega
      · refine ⟨hk.le, fun i hi hik => ?_, fun j hj _ => (get_word a hj).symm, by omega⟩
        obtain heq | hgt := Nat.eq_or_lt_of_le (show start / 64 ≤ i / 64 by omega)
        · rw [mem_indices, get_eq, ← heq]
          have hbit := hmasked (i % 64) (by omega)
          rw [decide_eq_true (by omega), Bool.and_true, hzero] at hbit
          exact fun h => Bool.false_ne_true (BitVec.getLsbD_zero.symm.trans (hbit.trans h))
        · exact not_mem_of_word a (hbetween _ hgt hik)
    obtain ⟨hk, hbefore, hbits, hstart⟩ := hword
    have hfirst : a.get (k * 64 + c) = true := by
      rw [← hbits c hcount hstart]
      exact hone
    have hkn : k * 64 + c < wordCount * 64 := lt_of_get hfirst
    have hnone : ∀ i, start ≤ i → i < k * 64 + c → i ∉ a.indices := by
      intro i hi hic
      by_cases hik : i / 64 < k
      · exact hbefore i hi hik
      · have hbit := hbits (i % 64) (by omega) (by omega)
        rw [hzeros _ (by omega), show k * 64 + i % 64 = i by omega] at hbit
        exact fun hmem => Bool.false_ne_true (hbit.trans hmem)
    -- the ones from the first bit on
    obtain ⟨hones, hall, hend⟩ := countrOne_spec (a.word k >>> c)
    have hshift : ∀ j, (a.word k >>> c).getLsbD j = (a.word k).getLsbD (c + j) := fun j =>
      BitVec.getLsbD_ushiftRight ..
    rw [show (k * 64 + c) % 64 = c by omega]
    generalize countrOne (a.word k >>> c) = o at hones hall hend ⊢
    have hle : c + o ≤ 64 := by
      by_contra hgt
      have hbit := hall (64 - c) (by omega)
      rw [hshift, BitVec.getLsbD_of_ge _ _ (by omega)] at hbit
      cases hbit
    have hin : ∀ i, k * 64 + c ≤ i → i < k * 64 + c + o → a.get i = true := by
      intro i hlo hhi
      have hbit := hall (i - (k * 64 + c)) (by omega)
      rw [hshift, ← get_word a (by omega),
        show k * 64 + (c + (i - (k * 64 + c))) = i by omega] at hbit
      exact hbit
    by_cases hinside : c + o < 64
    · rw [if_pos hinside]
      have hstop : a.get (k * 64 + c + o) = false := by
        have hbit := hend (by omega)
        rw [hshift, ← get_word a (by omega)] at hbit
        rw [show k * 64 + c + o = k * 64 + (c + o) by omega]
        exact hbit
      have hpos : o ≠ 0 := by
        rintro rfl
        rw [Nat.add_zero, hfirst] at hstop
        cases hstop
      refine .inr ⟨_, _, rfl, hstart, by omega, by omega, hnone, hin, fun hmem => ?_⟩
      rw [mem_indices, hstop] at hmem
      cases hmem
    · rw [if_neg hinside]
      obtain ⟨hge, hbound, hrest, hstop⟩ := runEnd_spec a (k + 1) (by omega)
      refine .inr ⟨_, _, rfl, hstart, by omega, hbound, hnone, fun i hlo hhi => ?_, fun hmem => ?_⟩
      · by_cases hi : i < (k + 1) * 64
        · exact hin i hlo (by omega)
        · exact hrest i (by omega) hhi
      · rw [mem_indices, hstop] at hmem
        cases hmem

/-- **`FirstRangeFrom`** is the first run of the rest of the array. -/
theorem firstRangeFrom_spec (start : ℕ) :
    (a.firstRangeFrom start = (size wordCount, size wordCount) ∧
      ∀ lo hi, MaximalRun a.indices lo hi → hi ≤ start) ∨
    IsFirst a.indices start (a.firstRangeFrom start) := by
  obtain ⟨hend, hnone⟩ | ⟨first, last, heq, hstart, hlt, -, hnone, hall, hlast⟩ :=
    firstRangeFrom_scan a start
  · exact .inl ⟨hend, not_run_of_scan hnone⟩
  · rw [heq]
    exact .inr (isFirst_of_scan hstart hlt hnone hall hlast)

/-- **`LastRangeFrom`** finds no set bit below the limit, or the last one and the start of its
run. -/
theorem lastRangeFrom_scan (stop : ℕ) :
    (a.lastRangeFrom stop = (0, 0) ∧ ∀ x, x < min stop (size wordCount) → x ∉ a.indices) ∨
    ∃ first last, a.lastRangeFrom stop = (first, last) ∧ last ≤ min stop (size wordCount) ∧
      first < last ∧ (∀ x, last ≤ x → x < min stop (size wordCount) → x ∉ a.indices) ∧
        (∀ x, first ≤ x → x < last → x ∈ a.indices) ∧ ∀ x, x + 1 = first → x ∉ a.indices := by
  have hsize : size wordCount = wordCount * 64 := rfl
  unfold lastRangeFrom
  split
  · rename_i hzero
    exact .inl ⟨rfl, fun x hx => by omega⟩
  rename_i hne
  have hmin : (if stop > size wordCount then size wordCount else stop)
      = min stop (size wordCount) := by
    split <;> omega
  rw [hmin]
  by_cases hempty : wordCount = 0
  · -- there is no word, and no bit
    subst hempty
    have hnone : ∀ x, x ∉ a.indices := fun x hmem => by
      have := lt_of_get hmem
      omega
    have hzero : min stop (size 0) = 0 := Nat.min_eq_right (Nat.zero_le _)
    have hword : a.word 0 &&& maskTo 0 = 0 := by
      rw [word_of_le a (Nat.zero_le _)]
      rfl
    rw [hzero]
    refine .inl ⟨?_, fun x _ => hnone x⟩
    dsimp only [bitsPerWord]
    rw [show (0 - 1) / 64 = 0 from rfl, show (0 - 1) % 64 = 0 from rfl, hword]
    rfl
  have hlimit : 0 < min stop (size wordCount) ∧ min stop (size wordCount) ≤ wordCount * 64 := by
    omega
  generalize min stop (size wordCount) = limit at hlimit ⊢
  dsimp only [bitsPerWord]
  have hmasked : ∀ j, j < 64 →
      (a.word ((limit - 1) / 64) &&& maskTo ((limit - 1) % 64)).getLsbD j
        = ((a.word ((limit - 1) / 64)).getLsbD j && decide (j ≤ (limit - 1) % 64)) := fun j hj => by
    rw [BitVec.getLsbD_and, getLsbD_maskTo (by omega) hj]
  generalize a.word ((limit - 1) / 64) &&& maskTo ((limit - 1) % 64) = masked at hmasked ⊢
  have hspec := lastWord_spec a ((limit - 1) / 64) masked
  split
  · rename_i hnone
    rw [hnone] at hspec
    refine .inl ⟨rfl, fun x hx => ?_⟩
    obtain heq | hgt := Nat.eq_or_lt_of_le (show x / 64 ≤ (limit - 1) / 64 by omega)
    · rw [mem_indices, get_eq, heq]
      have hbit := hmasked (x % 64) (by omega)
      rw [decide_eq_true (by omega), Bool.and_true, hspec.1] at hbit
      exact fun h => Bool.false_ne_true (BitVec.getLsbD_zero.symm.trans (hbit.trans h))
    · exact not_mem_of_word a (hspec.2 _ hgt)
  · rename_i k x hsome
    rw [hsome] at hspec
    obtain ⟨hxne, hx⟩ := hspec
    obtain ⟨hcount, hzeros, hone⟩ := countlZero_spec x
    have hcount : countlZero x < 64 := by
      obtain ⟨j, hj, hbit⟩ := exists_getLsbD hxne
      by_contra hge
      have hzero := hzeros (63 - j) (by omega)
      rw [show 63 - (63 - j) = j by omega, hbit] at hzero
      cases hzero
    have hone := hone hcount
    obtain ⟨hones, hall, hend⟩ := countlOne_spec (x <<< countlZero x)
    generalize countlZero x = c at hcount hzeros hone hones hall hend ⊢
    have hword : k ≤ (limit - 1) / 64 ∧ (∀ i, i < limit → k < i / 64 → i ∉ a.indices) ∧
        (∀ j, j < 64 → k * 64 + j < limit → x.getLsbD j = a.get (k * 64 + j)) ∧
          k * 64 + (63 - c) < limit := by
      obtain ⟨rfl, rfl⟩ | ⟨hk, rfl, hzero, hbetween⟩ := hx
      · refine ⟨le_rfl, fun i hi hik => by omega, fun j hj hstart => ?_, ?_⟩
        · rw [hmasked j hj, decide_eq_true (by omega), Bool.and_true, get_word a hj]
        · rw [hmasked _ (by omega), Bool.and_eq_true, decide_eq_true_eq] at hone
          omega
      · refine ⟨hk.le, fun i hi hik => ?_, fun j hj _ => (get_word a hj).symm, by omega⟩
        obtain heq | hgt := Nat.eq_or_lt_of_le (show i / 64 ≤ (limit - 1) / 64 by omega)
        · rw [mem_indices, get_eq, heq]
          have hbit := hmasked (i % 64) (by omega)
          rw [decide_eq_true (by omega), Bool.and_true, hzero] at hbit
          exact fun h => Bool.false_ne_true (BitVec.getLsbD_zero.symm.trans (hbit.trans h))
        · exact not_mem_of_word a (hbetween _ hik hgt)
    obtain ⟨hk, hbehind, hbits, hlast⟩ := hword
    have hmul : (k + 1) * 64 - c = k * 64 + (64 - c) := by omega
    rw [hmul]
    have hnone : ∀ i, k * 64 + (64 - c) ≤ i → i < limit → i ∉ a.indices := by
      intro i hi hlim
      by_cases hik : k < i / 64
      · exact hbehind i hlim hik
      · have hbit := hbits (i % 64) (by omega) (by omega)
        have hzero := hzeros (63 - i % 64) (by omega)
        rw [show 63 - (63 - i % 64) = i % 64 by omega] at hzero
        rw [hzero, show k * 64 + i % 64 = i by omega] at hbit
        exact fun hmem => Bool.false_ne_true (hbit.trans hmem)
    have hshift : ∀ j, c ≤ j → j < 64 → (x <<< c).getLsbD j = x.getLsbD (j - c) := by
      intro j hcj hj
      rw [BitVec.getLsbD_shiftLeft, decide_eq_true hj, decide_eq_false (not_lt.mpr hcj)]
      rfl
    generalize countlOne (x <<< c) = o at hones hall hend ⊢
    have hle : c + o ≤ 64 := by
      by_contra hgt
      have hbit := hall (64 - c) (by omega)
      rw [BitVec.getLsbD_shiftLeft, decide_eq_true (show 63 - (64 - c) < c by omega)] at hbit
      simp at hbit
    have hin : ∀ i, k * 64 + (64 - c) - o ≤ i → i < k * 64 + (64 - c) → a.get i = true := by
      intro i hlo hhi
      have hbit := hall (k * 64 + (63 - c) - i) (by omega)
      rw [hshift _ (by omega) (by omega), hbits _ (by omega) (by omega),
        show k * 64 + (63 - (k * 64 + (63 - c) - i) - c) = i by omega] at hbit
      exact hbit
    by_cases hinside : c + o < 64
    · rw [if_pos hinside]
      have hstop : a.get (k * 64 + (63 - c - o)) = false := by
        have hbit := hend (by omega)
        rw [hshift _ (by omega) (by omega), hbits _ (by omega) (by omega),
          show 63 - o - c = 63 - c - o by omega] at hbit
        exact hbit
      have hpos : o ≠ 0 := by
        rintro rfl
        rw [Nat.sub_zero, ← hbits _ (by omega) hlast, hone] at hstop
        cases hstop
      refine .inr ⟨_, _, rfl, by omega, by omega, hnone, hin, fun i hi hmem => ?_⟩
      rw [mem_indices, show i = k * 64 + (63 - c - o) by omega, hstop] at hmem
      cases hmem
    · rw [if_neg hinside]
      obtain ⟨hge, hrest, hbefore⟩ := runStart_spec a k
      refine .inr ⟨_, _, rfl, by omega, by omega, hnone, fun i hlo hhi => ?_, fun i hi hmem => ?_⟩
      · by_cases hi : k * 64 ≤ i
        · exact hin i (by omega) hhi
        · exact hrest i hlo (by omega)
      · rw [mem_indices, hbefore i hi] at hmem
        cases hmem

/-- **`LastRangeFrom`** is the last run of the part of the array before the limit. -/
theorem lastRangeFrom_spec (stop : ℕ) :
    (a.lastRangeFrom stop = (0, 0) ∧
      ∀ lo hi, MaximalRun a.indices lo hi → min stop (size wordCount) ≤ lo) ∨
    IsLast a.indices (min stop (size wordCount)) (a.lastRangeFrom stop) := by
  obtain ⟨hend, hnone⟩ | ⟨first, last, heq, hstop, hlt, hnone, hall, hfirst⟩ :=
    lastRangeFrom_scan a stop
  · exact .inl ⟨hend, not_start_of_scan hnone⟩
  · rw [heq]
    exact .inr (isLast_of_scan (fun x hx => lt_of_get hx) hstop hlt hnone hall hfirst)

/-! ### The iterator -/

/-- `end()`: the range of an iterator that starts behind the last index. -/
def endRange (_ : BitArray wordCount) : Range := (size wordCount, size wordCount)

theorem firstRangeFrom_size : a.firstRangeFrom (size wordCount) = a.endRange :=
  if_pos le_rfl

/-- What keeps the iterator going: a range that is not the end leads on. -/
theorem lt_of_ne_endRange {start : ℕ} (hne : a.firstRangeFrom start ≠ a.endRange) :
    start < (a.firstRangeFrom start).2 ∧ (a.firstRangeFrom start).2 ≤ size wordCount := by
  obtain ⟨hend, -⟩ | ⟨first, last, heq, hstart, hlt, hle, -⟩ := firstRangeFrom_scan a start
  · exact absurd hend hne
  · rw [heq]
    exact ⟨by omega, hle⟩

/-- The ranges that an iterator created at `start` stands at, up to `end()`. `operator++` starts
the next search at the end of the range. -/
def rangesFrom (start : ℕ) : List Range :=
  if a.firstRangeFrom start = a.firstRangeFrom (size wordCount) then []
  else a.firstRangeFrom start :: rangesFrom (a.firstRangeFrom start).2
termination_by size wordCount - start
decreasing_by
  rename_i hne
  have := a.lt_of_ne_endRange (a.firstRangeFrom_size ▸ hne)
  omega

/-- The ranges from `begin()` to `end()`. -/
def ranges : List Range := a.rangesFrom 0

/-- From a place that is not inside of a run, the iterator gives the runs behind it. -/
theorem rangesFrom_spec (start : ℕ) (hstart : start = 0 ∨ start ∉ a.indices) :
    (a.rangesFrom start).Pairwise (fun r r' => r.2 < r'.1) ∧
      ∀ r, r ∈ a.rangesFrom start ↔ start ≤ r.1 ∧ MaximalRun a.indices r.1 r.2 := by
  fun_induction rangesFrom a start with
  | case1 start hend =>
    rw [firstRangeFrom_size] at hend
    refine ⟨List.Pairwise.nil, fun r => iff_of_false List.not_mem_nil fun ⟨hle, hrun⟩ => ?_⟩
    have hlt := hrun.lt
    obtain ⟨-, hnone⟩ | hfirst := firstRangeFrom_spec a start
    · have := hnone r.1 r.2 hrun
      omega
    · -- a run that is found starts before the end
      obtain ⟨lo, hfound, hreach, hcut, -⟩ := hfirst
      rw [hend] at hfound hreach hcut
      have hlo := hfound.lt
      have hcut : size wordCount = max lo start := hcut
      change lo < size wordCount at hlo
      change start < size wordCount at hreach
      omega
  | case2 start hne ih =>
    rw [firstRangeFrom_size] at hne
    obtain ⟨hend, -⟩ | ⟨lo, hrun, hreach, hcut, hothers⟩ := firstRangeFrom_spec a start
    · exact absurd hend hne
    generalize a.firstRangeFrom start = found at hrun hreach hcut hothers ih ⊢
    obtain ⟨first, last⟩ := found
    dsimp only at hrun hreach hcut hothers ih ⊢
    -- the search did not start inside of the run
    have hfirst : first = lo := by
      by_contra hdiff
      obtain rfl | hout := hstart
      · omega
      · exact hout (hrun.subset start (by omega) hreach)
    subst hfirst
    obtain ⟨hsorted, hmem⟩ := ih (.inr hrun.after)
    refine ⟨List.Pairwise.cons (fun r hr => ?_) hsorted, fun r => ?_⟩
    · obtain ⟨hle, hnext⟩ := (hmem r).mp hr
      obtain heq | hlt := Nat.eq_or_lt_of_le hle
      · exact absurd (hnext.subset _ le_rfl hnext.lt) (heq ▸ hrun.after)
      · exact hlt
    · rw [List.mem_cons, hmem]
      constructor
      · rintro (rfl | ⟨hle, hnext⟩)
        · exact ⟨by omega, hrun⟩
        · exact ⟨by omega, hnext⟩
      · rintro ⟨hle, hnext⟩
        have hlt := hnext.lt
        obtain ⟨hlo, hhi⟩ | hbehind := hothers r.1 r.2 hnext (by omega)
        · exact .inl (Prod.ext hlo hhi)
        · exact .inr ⟨by omega, hnext⟩

/-- **The iterator** gives every run once, in ascending order. -/
theorem iteration_spec : a.ranges.Pairwise (fun r r' => r.2 < r'.1) ∧
    ∀ r, r ∈ a.ranges ↔ MaximalRun a.indices r.1 r.2 := by
  obtain ⟨hsorted, hmem⟩ := rangesFrom_spec a 0 (.inl rfl)
  exact ⟨hsorted, fun r => (hmem r).trans (and_iff_right (Nat.zero_le _))⟩

/-! ### All operations -/

/-- **The array is a set of indices**, and every operation on ranges is what it says about that
set. The three that edit a range do so when the range ends in the array, and do nothing
otherwise; the searches find the first and the last run, cut off at the limit they are given; the
iterator gives every run once. -/
theorem agrees_with_index_set :
    (∀ start stop, stop ≤ size wordCount →
      (a.setRange start stop).indices = a.indices ∪ Set.Ico start stop ∧
      (a.unsetRange start stop).indices = a.indices \ Set.Ico start stop ∧
      (a.masked start stop).indices = a.indices ∩ Set.Ico start stop) ∧
    (∀ start stop, size wordCount < stop →
      a.setRange start stop = a ∧ a.unsetRange start stop = a ∧
      a.masked start stop = BitArray.empty) ∧
    (∀ start, (a.firstRangeFrom start = (size wordCount, size wordCount) ∧
        ∀ lo hi, MaximalRun a.indices lo hi → hi ≤ start) ∨
      IsFirst a.indices start (a.firstRangeFrom start)) ∧
    (∀ stop, (a.lastRangeFrom stop = (0, 0) ∧
        ∀ lo hi, MaximalRun a.indices lo hi → min stop (size wordCount) ≤ lo) ∨
      IsLast a.indices (min stop (size wordCount)) (a.lastRangeFrom stop)) ∧
    a.ranges.Pairwise (fun r r' => r.2 < r'.1) ∧
      ∀ r, r ∈ a.ranges ↔ MaximalRun a.indices r.1 r.2 := by
  refine ⟨fun start stop hstop => ⟨?_, ?_, ?_⟩, fun start stop hstop => ⟨?_, ?_, ?_⟩,
    a.firstRangeFrom_spec, a.lastRangeFrom_spec, a.iteration_spec⟩
  · rw [indices_setRange]
    ext i
    exact or_congr_right (and_iff_right hstop)
  · rw [indices_unsetRange]
    ext i
    exact and_congr_right fun _ => not_congr (and_iff_right hstop)
  · rw [indices_masked]
    ext i
    exact and_congr_right fun _ => and_iff_right hstop
  all_goals exact editRange_refused _ _ fun h => absurd h.2 (not_le.mpr hstop)

/-- A range that reaches behind the array is not entered, not even the part inside. -/
theorem setRange_refuses :
    0 ∈ Set.Ico 0 65 ∧ 0 ∉ ((BitArray.empty : BitArray 1).setRange 0 65).indices := by
  refine ⟨⟨le_rfl, by decide⟩, fun h => ?_⟩
  have hset : ((BitArray.empty : BitArray 1).setRange 0 65).get 0 = false := by decide
  exact Bool.false_ne_true (hset.symm.trans h)

end Prosperismo.BitArray
