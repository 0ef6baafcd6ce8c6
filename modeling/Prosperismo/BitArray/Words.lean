import Prosperismo.BitArray.Model

/-!
# Bits of words

What the masks and the counts of the array say about single bits, and from them what
`editRange` says about single indices (`get_editRange`): a bit inside the range
becomes what the operation makes of it, the others stay. The three operations on
ranges are cases of it.
-/

namespace Prosperismo.BitArray

variable {wordCount : ℕ}

/-! ### Masks -/

/-- `(1 << k) - 1`. -/
theorem getLsbD_lowMask {k j : ℕ} (hk : k < 64) (hj : j < 64) :
    ((1#64 <<< k) - 1).getLsbD j = decide (j < k) := by
  have hlow : (1#64 <<< k) - 1 = BitVec.ofNat 64 (2 ^ k - 1) := by
    apply BitVec.eq_of_toNat_eq
    have hle : 2 ^ k < 2 ^ 64 := Nat.pow_lt_pow_right (by decide) hk
    have hpos : 1 ≤ 2 ^ k := Nat.one_le_two_pow
    rw [BitVec.toNat_sub_of_le]
    · simp only [BitVec.toNat_shiftLeft, BitVec.toNat_ofNat]
      simp
      omega
    · rw [BitVec.le_def]
      simp only [BitVec.toNat_shiftLeft, BitVec.toNat_ofNat]
      simp
      omega
  rw [hlow, BitVec.getLsbD_ofNat, Nat.testBit_two_pow_sub_one, decide_eq_true hj, Bool.true_and]

theorem getLsbD_maskFrom {k j : ℕ} (hj : j < 64) : (maskFrom k).getLsbD j = decide (k ≤ j) := by
  unfold maskFrom
  rw [BitVec.getLsbD_shiftLeft, BitVec.getLsbD_not, BitVec.getLsbD_zero, decide_eq_true hj]
  by_cases hk : k ≤ j
  · rw [decide_eq_true hk, decide_eq_false (not_lt.mpr hk), decide_eq_true (by omega : j - k < 64)]
    rfl
  · rw [decide_eq_false hk, decide_eq_true (not_le.mp hk)]
    rfl

theorem getLsbD_maskTo {k j : ℕ} (hk : k < 64) (hj : j < 64) :
    (maskTo k).getLsbD j = decide (j ≤ k) := by
  unfold maskTo
  split
  · rename_i htop
    have htop : k = 63 := htop
    rw [BitVec.getLsbD_not, BitVec.getLsbD_zero, decide_eq_true hj, decide_eq_true (by omega)]
    rfl
  · rename_i htop
    have htop : k ≠ 63 := htop
    rw [getLsbD_lowMask (by omega) hj]
    exact decide_eq_decide.mpr Nat.lt_succ_iff

theorem getLsbD_maskBelow {k j : ℕ} (hk : k < 64) (hj : j < 64) :
    (maskBelow k).getLsbD j = decide (j < k) := getLsbD_lowMask hk hj

theorem getLsbD_maskAbove {k j : ℕ} (hk : k < 64) (hj : j < 64) :
    (maskAbove k).getLsbD j = decide (k < j) := by
  unfold maskAbove
  split
  · rename_i htop
    have htop : k = 63 := htop
    rw [BitVec.getLsbD_zero, decide_eq_false (by omega)]
  · rename_i htop
    have htop : k ≠ 63 := htop
    rw [BitVec.getLsbD_not, getLsbD_lowMask (by omega) hj, decide_eq_true hj, Bool.true_and,
      ← decide_not]
    exact decide_eq_decide.mpr (by omega)

/-! ### Counts -/

/-- `std::countr_zero` counts the zeros below the first one. -/
theorem countrZero_spec (word : BitVec 64) : countrZero word ≤ 64 ∧
    (∀ j < countrZero word, word.getLsbD j = false) ∧
      (countrZero word < 64 → word.getLsbD (countrZero word) = true) := by
  unfold countrZero
  refine ⟨?_, fun j hj => BitVec.getLsbD_false_of_lt_ctz hj, fun h => ?_⟩
  · rw [BitVec.ctz_eq_reverse_clz]
    exact BitVec.clz_le
  · exact BitVec.getLsbD_true_ctz_of_ne_zero (BitVec.ctz_lt_iff_ne_zero.mp h)

theorem countrOne_spec (word : BitVec 64) : countrOne word ≤ 64 ∧
    (∀ j < countrOne word, word.getLsbD j = true) ∧
      (countrOne word < 64 → word.getLsbD (countrOne word) = false) := by
  obtain ⟨hle, hbelow, hat⟩ := countrZero_spec (~~~word)
  refine ⟨hle, fun j hj => ?_, fun h => ?_⟩
  · have hbit := hbelow j hj
    rw [BitVec.getLsbD_not, decide_eq_true (hj.trans_le hle), Bool.true_and] at hbit
    simpa using hbit
  · have hbit := hat h
    rw [BitVec.getLsbD_not, Bool.and_eq_true] at hbit
    exact Bool.not_eq_true' _ |>.mp hbit.2

/-- `std::countl_zero` counts the zeros above the last one. -/
theorem countlZero_spec (word : BitVec 64) : countlZero word ≤ 64 ∧
    (∀ j < countlZero word, word.getLsbD (63 - j) = false) ∧
      (countlZero word < 64 → word.getLsbD (63 - countlZero word) = true) := by
  have hreverse : countlZero word = countrZero word.reverse := by
    unfold countlZero countrZero
    rw [BitVec.clz_eq_reverse_ctz]
  obtain ⟨hle, hbelow, hat⟩ := countrZero_spec word.reverse
  rw [← hreverse] at hle hbelow hat
  have hbit : ∀ j, j < 64 → word.reverse.getLsbD j = word.getLsbD (63 - j) := fun j hj => by
    rw [BitVec.getLsbD_reverse, BitVec.getMsbD_eq_getLsbD, decide_eq_true hj]
    rfl
  exact ⟨hle, fun j hj => hbit j (hj.trans_le hle) ▸ hbelow j hj, fun h => hbit _ h ▸ hat h⟩

theorem countlOne_spec (word : BitVec 64) : countlOne word ≤ 64 ∧
    (∀ j < countlOne word, word.getLsbD (63 - j) = true) ∧
      (countlOne word < 64 → word.getLsbD (63 - countlOne word) = false) := by
  obtain ⟨hle, hbelow, hat⟩ := countlZero_spec (~~~word)
  refine ⟨hle, fun j hj => ?_, fun h => ?_⟩
  · have hbit := hbelow j hj
    rw [BitVec.getLsbD_not, decide_eq_true (by omega), Bool.true_and] at hbit
    simpa using hbit
  · have hbit := hat h
    rw [BitVec.getLsbD_not, Bool.and_eq_true] at hbit
    exact Bool.not_eq_true' _ |>.mp hbit.2

/-- A word with a set bit. -/
theorem exists_getLsbD {word : BitVec 64} (h : word ≠ 0) : ∃ j < 64, word.getLsbD j = true := by
  by_contra hno
  refine h (BitVec.eq_of_getLsbD_eq fun j hj => ?_)
  exact (Bool.eq_false_iff.mpr fun hbit => hno ⟨j, hj, hbit⟩).trans BitVec.getLsbD_zero.symm

/-! ### Indices -/

/-- `Get` reads the bit of the index. -/
theorem get_eq (a : BitArray wordCount) (i : ℕ) :
    a.get i = (a.word (i / 64)).getLsbD (i % 64) := by
  have hne : BitVec.twoPow 64 (i % 64) ≠ 0#64 := by
    intro hzero
    have hbit := congrArg (fun word => word.getLsbD (i % 64)) hzero
    simp [Nat.mod_lt] at hbit
  unfold BitArray.get
  rw [show 1#64 <<< (i % bitsPerWord) = BitVec.twoPow 64 (i % 64) from rfl, BitVec.and_twoPow]
  split
  · rename_i hbit
    exact (decide_eq_true hne).trans hbit.symm
  · rename_i hbit
    exact (decide_eq_false (not_not.mpr rfl)).trans (Bool.eq_false_iff.mpr hbit).symm

/-- The bit `j` of the word `w`. -/
theorem get_word (a : BitArray wordCount) {w j : ℕ} (hj : j < 64) :
    a.get (w * 64 + j) = (a.word w).getLsbD j := by
  rw [get_eq, show (w * 64 + j) / 64 = w by omega, show (w * 64 + j) % 64 = j by omega]

/-- A word that is not there is 0. -/
theorem word_of_le (a : BitArray wordCount) {w : ℕ} (hw : wordCount ≤ w) : a.word w = 0 := by
  unfold BitArray.word
  rw [Vector.getElem?_eq_none hw]
  rfl

/-- An index that is set lies in the array. -/
theorem lt_of_get {a : BitArray wordCount} {i : ℕ} (h : a.get i = true) : i < size wordCount := by
  by_contra hge
  have hge : wordCount * 64 ≤ i := not_lt.mp hge
  rw [get_eq, word_of_le a (by omega)] at h
  exact Bool.false_ne_true (BitVec.getLsbD_zero.symm.trans h)

/-- The indices that are set. -/
def indices (a : BitArray wordCount) : Set ℕ := {i | a.get i = true}

theorem mem_indices {a : BitArray wordCount} {i : ℕ} : i ∈ a.indices ↔ a.get i = true := Iff.rfl

theorem indices_empty : (BitArray.empty : BitArray wordCount).indices = ∅ := by
  ext i
  refine iff_of_false (fun h => ?_) (Set.notMem_empty i)
  have hlt := lt_of_get h
  have hlt : i < wordCount * 64 := hlt
  rw [mem_indices, get_eq] at h
  unfold BitArray.word BitArray.empty at h
  rw [Vector.getElem?_replicate, if_pos (by omega)] at h
  simp at h

/-! ### Editing a range -/

theorem word_modify (a : BitArray wordCount) {index : ℕ} (hindex : index < wordCount)
    (f : ℕ → BitVec 64 → BitVec 64) (w : ℕ) :
    (a.modify index f).word w = if w = index then f index (a.word index) else a.word w := by
  unfold BitArray.modify BitArray.word
  dsimp only
  rw [Vector.getElem?_setIfInBounds]
  by_cases h : w = index
  · rw [if_pos h, if_pos h.symm, if_pos hindex]
    rfl
  · rw [if_neg h, if_neg (Ne.symm h)]

/-- The loop over the words between, by induction on their number. -/
theorem word_foldl_modify (f : ℕ → BitVec 64 → BitVec 64) (w : ℕ) :
    ∀ (count first : ℕ) (a : BitArray wordCount), first + count ≤ wordCount →
      ((List.range' first count).foldl (fun a word => a.modify word f) a).word w
        = if first ≤ w ∧ w < first + count then f w (a.word w) else a.word w
  | 0, first, a, _ => by
    rw [if_neg (by omega)]
    rfl
  | count + 1, first, a, hle => by
    rw [List.range'_succ, List.foldl_cons, word_foldl_modify f w count (first + 1) _ (by omega),
      word_modify a (by omega)]
    by_cases hw : w = first
    · rw [if_neg (by omega), if_pos hw, if_pos (by omega), hw]
    · rw [if_neg hw]
      exact if_congr (by omega) rfl rfl

section Edit

variable (a : BitArray wordCount) {start stop : ℕ} (edit : Edit) (f : ℕ → Bool → Bool)

/-- **What `editRange` does to an index**, if the operation makes `f` of the bits that the masks
select and leaves the others. -/
theorem get_editRange (hlt : start < stop) (hstop : stop ≤ size wordCount)
    (hboth : ∀ w j, j < 64 → (edit.both w (a.word w)).getLsbD j
      = if start % 64 ≤ j ∧ j ≤ (stop - 1) % 64 then f (w * 64 + j) ((a.word w).getLsbD j)
        else (a.word w).getLsbD j)
    (hfirst : ∀ w j, j < 64 → (edit.first w (a.word w)).getLsbD j
      = if start % 64 ≤ j then f (w * 64 + j) ((a.word w).getLsbD j) else (a.word w).getLsbD j)
    (hbetween : ∀ w j, j < 64 → (edit.between w (a.word w)).getLsbD j
      = f (w * 64 + j) ((a.word w).getLsbD j))
    (hlast : ∀ w j, j < 64 → (edit.last w (a.word w)).getLsbD j
      = if j ≤ (stop - 1) % 64 then f (w * 64 + j) ((a.word w).getLsbD j)
        else (a.word w).getLsbD j) (i : ℕ) :
    (a.editRange start stop edit).get i
      = if start ≤ i ∧ i < stop then f i (a.get i) else a.get i := by
  have hstop : stop ≤ wordCount * 64 := hstop
  have hj : i % 64 < 64 := Nat.mod_lt _ (by decide)
  have hi : i / 64 * 64 + i % 64 = i := Nat.div_add_mod' i 64
  rw [get_eq, get_eq]
  unfold BitArray.editRange
  rw [if_neg (by show ¬ (start ≥ stop ∨ stop > wordCount * 64); omega)]
  dsimp only [bitsPerWord]
  split
  · rename_i hsame
    rw [word_modify a (by omega)]
    by_cases hw : i / 64 = start / 64
    · rw [if_pos hw, ← hw, hboth _ _ hj, hi]
      exact if_congr (by omega) rfl rfl
    · rw [if_neg hw, if_neg (by omega)]
  · rename_i hne
    rw [word_modify _ (by omega), word_foldl_modify _ _ _ _ _ (by omega),
      word_foldl_modify _ _ _ _ _ (by omega), word_modify a (by omega), word_modify a (by omega)]
    -- the word of the index is the last one, the first one, between them or outside
    by_cases hwlast : i / 64 = (stop - 1) / 64
    · rw [if_pos hwlast, if_neg (by omega), if_neg (by omega), ← hwlast, hlast _ _ hj, hi]
      exact if_congr (by omega) rfl rfl
    · rw [if_neg hwlast]
      by_cases hwfirst : i / 64 = start / 64
      · rw [if_neg (by omega), if_pos hwfirst, ← hwfirst, hfirst _ _ hj, hi]
        exact if_congr (by omega) rfl rfl
      · rw [if_neg hwfirst]
        by_cases hbetw : start / 64 + 1 ≤ i / 64 ∧ i / 64 < (stop - 1) / 64
        · rw [if_pos (by omega), hbetween _ _ hj, hi, if_pos (by omega)]
        · rw [if_neg (by omega), if_neg (by omega)]

/-- An empty range, or one that does not end in the array. -/
theorem editRange_refused (h : ¬ (start < stop ∧ stop ≤ size wordCount)) :
    a.editRange start stop edit = a :=
  if_pos (by omega)

end Edit

variable (a : BitArray wordCount) (start stop : ℕ)

/-- Setting the bits of a mask. -/
theorem or_mask (b : Bool) (p : Prop) [Decidable p] : (b || decide p) = if p then true else b := by
  split
  · rename_i hp
    rw [decide_eq_true hp, Bool.or_true]
  · rename_i hp
    rw [decide_eq_false hp, Bool.or_false]

/-- Keeping the bits of a mask. -/
theorem and_mask (b : Bool) {p : Prop} (q : Prop) [Decidable p] [Decidable q] (hpq : p ↔ ¬ q) :
    (b && decide p) = if q then false else b := by
  split
  · rename_i hq
    rw [decide_eq_false fun hp => hpq.mp hp hq, Bool.and_false]
  · rename_i hq
    rw [decide_eq_true (hpq.mpr hq), Bool.and_true]

/-- **`SetRange`** adds the indices of a range that ends in the array. -/
theorem indices_setRange : (a.setRange start stop).indices
    = {i | i ∈ a.indices ∨ (stop ≤ size wordCount ∧ start ≤ i ∧ i < stop)} := by
  ext i
  rw [mem_indices, Set.mem_ofPred_eq, mem_indices]
  by_cases hrange : start < stop ∧ stop ≤ size wordCount
  · have hend : (stop - 1) % 64 < 64 := Nat.mod_lt _ (by decide)
    unfold BitArray.setRange
    rw [get_editRange a _ (fun _ _ => true) hrange.1 hrange.2]
    · split
      · rename_i hin
        exact iff_of_true rfl (.inr ⟨hrange.2, hin⟩)
      · rename_i hout
        exact ⟨fun h => .inl h, fun h => h.elim id fun hin => absurd hin.2 hout⟩
    · intro w j hj
      dsimp only [bitsPerWord]
      rw [BitVec.getLsbD_or, BitVec.getLsbD_and, getLsbD_maskFrom hj, getLsbD_maskTo hend hj,
        ← Bool.decide_and, or_mask]
    · intro w j hj
      dsimp only [bitsPerWord]
      rw [BitVec.getLsbD_or, getLsbD_maskFrom hj, or_mask]
    · intro w j hj
      rw [BitVec.getLsbD_not, BitVec.getLsbD_zero, decide_eq_true hj]
      rfl
    · intro w j hj
      dsimp only [bitsPerWord]
      rw [BitVec.getLsbD_or, getLsbD_maskTo hend hj, or_mask]
  · have hsame : a.setRange start stop = a := editRange_refused a _ hrange
    rw [hsame]
    exact ⟨fun h => .inl h, fun h => h.elim id fun hin => absurd ⟨by omega, hin.1⟩ hrange⟩

/-- **`UnsetRange`** takes them out. -/
theorem indices_unsetRange : (a.unsetRange start stop).indices
    = {i | i ∈ a.indices ∧ ¬ (stop ≤ size wordCount ∧ start ≤ i ∧ i < stop)} := by
  ext i
  rw [mem_indices, Set.mem_ofPred_eq, mem_indices]
  by_cases hrange : start < stop ∧ stop ≤ size wordCount
  · have hstart : start % 64 < 64 := Nat.mod_lt _ (by decide)
    have hend : (stop - 1) % 64 < 64 := Nat.mod_lt _ (by decide)
    unfold BitArray.unsetRange
    dsimp only
    rw [get_editRange a _ (fun _ _ => false) hrange.1 hrange.2]
    · split
      · rename_i hin
        exact iff_of_false Bool.false_ne_true fun h => h.2 ⟨hrange.2, hin⟩
      · rename_i hout
        exact ⟨fun h => ⟨h, fun hin => hout hin.2⟩, fun h => h.1⟩
    · intro w j hj
      dsimp only [bitsPerWord]
      rw [BitVec.getLsbD_and, BitVec.getLsbD_or, getLsbD_maskAbove hend hj,
        getLsbD_maskBelow hstart hj, ← Bool.decide_or,
        and_mask _ (start % 64 ≤ j ∧ j ≤ (stop - 1) % 64) (by omega)]
    · intro w j hj
      dsimp only [bitsPerWord]
      rw [BitVec.getLsbD_and, getLsbD_maskBelow hstart hj, and_mask _ (start % 64 ≤ j) (by omega)]
    · intro w j hj
      exact BitVec.getLsbD_zero
    · intro w j hj
      dsimp only [bitsPerWord]
      rw [BitVec.getLsbD_and, getLsbD_maskAbove hend hj, and_mask _ (j ≤ (stop - 1) % 64) (by omega)]
  · have hsame : a.unsetRange start stop = a := editRange_refused a _ hrange
    rw [hsame]
    exact ⟨fun h => ⟨h, fun hin => hrange ⟨by omega, hin.1⟩⟩, fun h => h.1⟩

/-- **The masking constructor** keeps them and nothing else. -/
theorem indices_masked : (a.masked start stop).indices
    = {i | i ∈ a.indices ∧ stop ≤ size wordCount ∧ start ≤ i ∧ i < stop} := by
  have hempty : ∀ i, (BitArray.empty : BitArray wordCount).get i = false := fun i =>
    Bool.eq_false_iff.mpr fun h => Set.notMem_empty i (indices_empty ▸ h)
  have hzero : ∀ w j, ((BitArray.empty : BitArray wordCount).word w).getLsbD j = false := by
    intro w j
    by_cases hj : j < 64
    · rw [← get_word _ hj]
      exact hempty _
    · exact BitVec.getLsbD_of_ge _ _ (not_lt.mp hj)
  ext i
  rw [mem_indices, Set.mem_ofPred_eq, mem_indices]
  by_cases hrange : start < stop ∧ stop ≤ size wordCount
  · have hend : (stop - 1) % 64 < 64 := Nat.mod_lt _ (by decide)
    unfold BitArray.masked
    rw [get_editRange BitArray.empty _ (fun i _ => a.get i) hrange.1 hrange.2]
    · split
      · rename_i hin
        exact ⟨fun h => ⟨h, hrange.2, hin⟩, fun h => h.1⟩
      · rename_i hout
        rw [hempty]
        exact iff_of_false Bool.false_ne_true fun h => hout h.2.2
    · intro w j hj
      dsimp only [bitsPerWord]
      rw [BitVec.getLsbD_and, BitVec.getLsbD_and, getLsbD_maskFrom hj, getLsbD_maskTo hend hj,
        Bool.and_assoc, ← Bool.decide_and, get_word a hj, hzero]
      split
      · rename_i hin
        rw [decide_eq_true hin, Bool.and_true]
      · rename_i hout
        rw [decide_eq_false hout, Bool.and_false]
    · intro w j hj
      dsimp only [bitsPerWord]
      rw [BitVec.getLsbD_and, getLsbD_maskFrom hj, get_word a hj, hzero]
      split
      · rename_i hin
        rw [decide_eq_true hin, Bool.and_true]
      · rename_i hout
        rw [decide_eq_false hout, Bool.and_false]
    · intro w j hj
      exact (get_word a hj).symm
    · intro w j hj
      dsimp only [bitsPerWord]
      rw [BitVec.getLsbD_and, getLsbD_maskTo hend hj, get_word a hj, hzero]
      split
      · rename_i hin
        rw [decide_eq_true hin, Bool.and_true]
      · rename_i hout
        rw [decide_eq_false hout, Bool.and_false]
  · have hsame : a.masked start stop = BitArray.empty := editRange_refused _ _ hrange
    rw [hsame, hempty]
    exact iff_of_false Bool.false_ne_true fun h => hrange ⟨by omega, h.2.1⟩

end Prosperismo.BitArray
