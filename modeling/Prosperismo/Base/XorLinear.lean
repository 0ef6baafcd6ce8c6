import Mathlib.Data.BitVec
import Mathlib.Data.Nat.Notation

/-!
# Maps of words that are linear in their bits

A map that is made of shifts, masks and exclusive ors commutes with exclusive or
(`XorLinear`), so it is given by its values on the single bits: its **columns**. What holds of
the columns holds of the map (`XorLinear.eq_xorSum`), which makes statements about all words a
check of a few of them: columns that elimination finds independent have no sum that is zero
(`independent_sound`), so different words have different values.
-/

namespace Prosperismo

variable {m n : ℕ}

/-! ### Linear maps -/

/-- The map commutes with exclusive or. -/
def XorLinear (f : BitVec m → BitVec n) : Prop :=
  ∀ a b, f (a ^^^ b) = f a ^^^ f b

namespace XorLinear

variable {f g : BitVec m → BitVec n}

theorem and_xor_and (a b mask : BitVec n) : (a ^^^ b) &&& mask = a &&& mask ^^^ b &&& mask := by
  apply BitVec.eq_of_getLsbD_eq
  intro i _
  simp only [BitVec.getLsbD_and, BitVec.getLsbD_xor]
  cases a.getLsbD i <;> cases b.getLsbD i <;> cases mask.getLsbD i <;> rfl

theorem map_zero (hf : XorLinear f) : f 0#m = 0#n := by
  have h := hf 0#m 0#m
  rw [BitVec.xor_self, BitVec.xor_self] at h
  exact h

end XorLinear

/-! ### Sums of columns -/

/-- The exclusive or of the columns whose coefficient is set. -/
def xorSum : List (BitVec n) → List Bool → BitVec n
  | column :: columns, c :: cs => (if c then column else 0#n) ^^^ xorSum columns cs
  | _, _ => 0#n

@[simp] theorem xorSum_nil (cs : List Bool) : xorSum ([] : List (BitVec n)) cs = 0#n := by
  cases cs <;> rfl

@[simp] theorem xorSum_nil_right (columns : List (BitVec n)) : xorSum columns [] = 0#n := by
  cases columns <;> rfl

theorem xorSum_cons (column : BitVec n) (columns : List (BitVec n)) (c : Bool) (cs : List Bool) :
    xorSum (column :: columns) (c :: cs) =
      (if c then column else 0#n) ^^^ xorSum columns cs := rfl

theorem xorSum_append {columns columns' : List (BitVec n)} {cs cs' : List Bool}
    (hlen : columns.length = cs.length) :
    xorSum (columns ++ columns') (cs ++ cs') = xorSum columns cs ^^^ xorSum columns' cs' := by
  induction columns generalizing cs with
  | nil =>
    cases cs with
    | nil => exact BitVec.zero_xor.symm
    | cons => cases hlen
  | cons column columns ih =>
    cases cs with
    | nil => cases hlen
    | cons c cs =>
      rw [List.cons_append, List.cons_append, xorSum_cons, xorSum_cons,
        ih (Nat.succ.inj hlen), BitVec.xor_assoc]

/-- What every column has, and exclusive or keeps, every sum has. -/
theorem xorSum_induction {P : BitVec n → Prop} (hzero : P 0#n)
    (hxor : ∀ a b, P a → P b → P (a ^^^ b)) {columns : List (BitVec n)} {cs : List Bool}
    (h : ∀ column ∈ columns, P column) : P (xorSum columns cs) := by
  induction columns generalizing cs with
  | nil => rwa [xorSum_nil]
  | cons column columns ih =>
    cases cs with
    | nil => exact hzero
    | cons c cs =>
      rw [xorSum_cons]
      apply hxor
      · split
        · exact h column List.mem_cons_self
        · exact hzero
      · exact ih fun column' h' => h column' (List.mem_cons_of_mem _ h')

/-! ### The columns of a map -/

/-- The values of `f` on the first `k` bits. -/
def columns (f : BitVec m → BitVec n) (k : ℕ) : List (BitVec n) :=
  (List.range k).map fun i => f (BitVec.twoPow m i)

/-- The first `k` bits of a word. -/
def lowBits (v : BitVec m) (k : ℕ) : List Bool :=
  (List.range k).map v.getLsbD

@[simp] theorem length_columns (f : BitVec m → BitVec n) (k : ℕ) : (columns f k).length = k := by
  simp [columns]

@[simp] theorem length_lowBits (v : BitVec m) (k : ℕ) : (lowBits v k).length = k := by
  simp [lowBits]

theorem lowBits_congr {v w : BitVec m} {k : ℕ} (h : ∀ i < k, v.getLsbD i = w.getLsbD i) :
    lowBits v k = lowBits w k :=
  List.map_congr_left fun i hi => h i (List.mem_range.1 hi)

/-- **A linear map is the sum of its columns**, over the bits that are set. -/
theorem XorLinear.eq_xorSum {f : BitVec m → BitVec n} (hf : XorLinear f) {v : BitVec m} {k : ℕ}
    (hv : ∀ i, k ≤ i → v.getLsbD i = false) : f v = xorSum (columns f k) (lowBits v k) := by
  induction k generalizing v with
  | zero =>
    have hzero : v = 0#m := BitVec.eq_of_getLsbD_eq fun i _ => by
      rw [hv i (Nat.zero_le i), BitVec.getLsbD_zero]
    rw [hzero, hf.map_zero]
    rfl
  | succ k ih =>
    -- the word without its highest bit
    let bit : BitVec m := if v.getLsbD k then BitVec.twoPow m k else 0#m
    have hbit : ∀ i, bit.getLsbD i = (v.getLsbD k && decide (k = i)) := by
      intro i
      by_cases hk : v.getLsbD k = true
      · have hlt : k < m := BitVec.lt_of_getLsbD hk
        simp [bit, hk, BitVec.getLsbD_twoPow, hlt]
      · simp [bit, hk]
    have hrest : ∀ i, k ≤ i → (v ^^^ bit).getLsbD i = false := by
      intro i hi
      rw [BitVec.getLsbD_xor, hbit]
      rcases Nat.eq_or_lt_of_le hi with rfl | hi
      · simp
      · rw [hv i hi, decide_eq_false (Nat.ne_of_lt hi)]
        simp
    have hlow : lowBits (v ^^^ bit) k = lowBits v k := lowBits_congr fun i hi => by
      rw [BitVec.getLsbD_xor, hbit, decide_eq_false (Nat.ne_of_gt hi)]
      simp
    have hsplit : v = (v ^^^ bit) ^^^ bit := by
      rw [BitVec.xor_assoc, BitVec.xor_self, BitVec.xor_zero]
    have hlast : f bit = if v.getLsbD k then f (BitVec.twoPow m k) else 0#n := by
      show f (if _ then _ else _) = _
      rw [apply_ite f, hf.map_zero]
    calc f v = f (v ^^^ bit) ^^^ f bit := by rw [← hf, ← hsplit]
      _ = xorSum (columns f k) (lowBits v k) ^^^ f bit := by rw [ih hrest, hlow]
      _ = xorSum (columns f (k + 1)) (lowBits v (k + 1)) := by
        show _ = xorSum ((List.range (k + 1)).map _) ((List.range (k + 1)).map _)
        rw [List.range_succ, List.map_append, List.map_append, xorSum_append (by simp), hlast]
        simp [columns, lowBits, xorSum_cons]

/-! ### Independence -/

/-- `w` without the pivot `p` of `v`. -/
def clearPivot (v : BitVec n) (p : ℕ) (w : BitVec n) : BitVec n :=
  if w.getLsbD p then w ^^^ v else w

/-- **Elimination**: the first column has a bit, which is taken out of the others, and those
are independent. -/
def independent : ℕ → List (BitVec n) → Bool
  | _, [] => true
  | 0, _ :: _ => false
  | fuel + 1, v :: vs =>
    match (List.range n).find? v.getLsbD with
    | none => false
    | some p => independent fuel (vs.map (clearPivot v p))

theorem getLsbD_clearPivot {v : BitVec n} {p : ℕ} (hp : v.getLsbD p = true) (w : BitVec n) :
    (clearPivot v p w).getLsbD p = false := by
  unfold clearPivot
  split <;> rename_i h
  · rw [BitVec.getLsbD_xor, h, hp]
    rfl
  · exact Bool.eq_false_iff.2 h

theorem ite_xor_ite (c d : Bool) (v : BitVec n) :
    ((if c then v else 0#n) ^^^ if d then v else 0#n) = if (c ^^ d) then v else 0#n := by
  cases c <;> cases d <;> simp

/-- A sum of columns without the pivot differs from the sum of the columns by the pivot's
column or not at all. -/
theorem xorSum_clearPivot (v : BitVec n) (p : ℕ) (vs : List (BitVec n)) (cs : List Bool) :
    ∃ d : Bool, xorSum vs cs = xorSum (vs.map (clearPivot v p)) cs ^^^ if d then v else 0#n := by
  induction vs generalizing cs with
  | nil => exact ⟨false, by simp⟩
  | cons w vs ih =>
    cases cs with
    | nil => exact ⟨false, by simp⟩
    | cons c cs =>
      obtain ⟨d, hd⟩ := ih cs
      have hw : (if c then w else 0#n) = (if c then clearPivot v p w else 0#n) ^^^
          if (c && w.getLsbD p) then v else 0#n := by
        unfold clearPivot
        cases c
        · exact BitVec.xor_self.symm
        · cases w.getLsbD p
          · exact BitVec.xor_zero.symm
          · show w = w ^^^ v ^^^ v
            rw [BitVec.xor_assoc, BitVec.xor_self, BitVec.xor_zero]
      refine ⟨(c && w.getLsbD p) ^^ d, ?_⟩
      rw [List.map_cons, xorSum_cons, xorSum_cons, hd, hw, ← ite_xor_ite]
      ac_rfl

theorem xorSum_of_false {vs : List (BitVec n)} {cs : List Bool} (h : ∀ c ∈ cs, c = false) :
    xorSum vs cs = 0#n := by
  induction vs generalizing cs with
  | nil => exact xorSum_nil cs
  | cons v vs ih =>
    cases cs with
    | nil => rfl
    | cons c cs =>
      rw [xorSum_cons, h c List.mem_cons_self, ih fun d hd => h d (List.mem_cons_of_mem _ hd)]
      exact BitVec.xor_self

/-- **Independent columns** have no sum that is zero but the empty one. -/
theorem independent_sound {fuel : ℕ} {vs : List (BitVec n)} (h : independent fuel vs = true)
    {cs : List Bool} (hlen : cs.length = vs.length) (hsum : xorSum vs cs = 0#n) :
    ∀ c ∈ cs, c = false := by
  induction fuel generalizing vs cs with
  | zero =>
    cases vs with
    | nil => simp [List.eq_nil_of_length_eq_zero hlen]
    | cons => cases h
  | succ fuel ih =>
    cases vs with
    | nil => simp [List.eq_nil_of_length_eq_zero hlen]
    | cons v vs =>
      cases cs with
      | nil => cases hlen
      | cons c cs =>
        rw [independent] at h
        split at h
        · cases h
        · rename_i p hpivot
          have hp : v.getLsbD p = true := List.find?_some hpivot
          obtain ⟨d, hd⟩ := xorSum_clearPivot v p vs cs
          -- the cleared columns do not have the pivot, so `v` is not in the sum
          have hcleared : (xorSum (vs.map (clearPivot v p)) cs).getLsbD p = false := by
            apply xorSum_induction (P := fun w => w.getLsbD p = false) BitVec.getLsbD_zero
            · intro a b ha hb
              rw [BitVec.getLsbD_xor, ha, hb]
              rfl
            · intro column hcolumn
              obtain ⟨w, -, rfl⟩ := List.mem_map.1 hcolumn
              exact getLsbD_clearPivot hp w
          have hsum' : xorSum (vs.map (clearPivot v p)) cs ^^^ (if (c ^^ d) then v else 0#n) =
              0#n := by
            rw [xorSum_cons, hd] at hsum
            rw [← ite_xor_ite]
            exact (by ac_rfl : _ = _).trans hsum
          have hbit : (c ^^ d) = false := by
            have hbits := congrArg (fun w => w.getLsbD p) hsum'
            cases hcd : (c ^^ d)
            · rfl
            · simp [hcd, hcleared, hp] at hbits
          -- the other coefficients are not set, and neither is the one of `v`
          rw [hbit] at hsum'
          have hcs := ih h (by simpa using hlen) (by simpa using hsum')
          rw [xorSum_cons, xorSum_of_false hcs, BitVec.xor_zero] at hsum
          have hc : c = false := by
            cases c
            · rfl
            · have hv : v = 0#n := hsum
              rw [hv, BitVec.getLsbD_zero] at hp
              cases hp
          intro c' hc'
          rcases List.mem_cons.1 hc' with rfl | hc'
          · exact hc
          · exact hcs c' hc'

/-! ### Maps of three words -/

/-- A map of three words that commutes with exclusive or. -/
def XorLinear₃ (f : BitVec m → BitVec m → BitVec m → BitVec n) : Prop :=
  ∀ a b c a' b' c', f (a ^^^ a') (b ^^^ b') (c ^^^ c') = f a b c ^^^ f a' b' c'

/-- The values of `f` on the first `i`, `j` and `k` bits of its words. -/
def columns₃ (f : BitVec m → BitVec m → BitVec m → BitVec n) (i j k : ℕ) : List (BitVec n) :=
  columns (fun a => f a 0#m 0#m) i ++
    (columns (fun b => f 0#m b 0#m) j ++ columns (fun c => f 0#m 0#m c) k)

namespace XorLinear₃

variable {f g : BitVec m → BitVec m → BitVec m → BitVec n}

theorem xor (hf : XorLinear₃ f) (hg : XorLinear₃ g) :
    XorLinear₃ fun a b c => f a b c ^^^ g a b c := by
  intro a b c a' b' c'
  show f _ _ _ ^^^ g _ _ _ = f a b c ^^^ g a b c ^^^ (f a' b' c' ^^^ g a' b' c')
  rw [hf, hg]
  ac_rfl

theorem and (hf : XorLinear₃ f) (mask : BitVec n) : XorLinear₃ fun a b c => f a b c &&& mask := by
  intro a b c a' b' c'
  show f _ _ _ &&& mask = _
  rw [hf, XorLinear.and_xor_and]

theorem shiftLeft (hf : XorLinear₃ f) (k : ℕ) : XorLinear₃ fun a b c => f a b c <<< k := by
  intro a b c a' b' c'
  show f _ _ _ <<< k = _
  rw [hf, BitVec.shiftLeft_xor_distrib]

theorem ushiftRight (hf : XorLinear₃ f) (k : ℕ) : XorLinear₃ fun a b c => f a b c >>> k := by
  intro a b c a' b' c'
  show f _ _ _ >>> k = _
  rw [hf, BitVec.ushiftRight_xor_distrib]

theorem zero : XorLinear₃ fun _ _ _ : BitVec m => 0#n :=
  fun _ _ _ _ _ _ => BitVec.xor_self.symm

theorem fst : XorLinear₃ fun a _ _ : BitVec m => a := fun _ _ _ _ _ _ => rfl

theorem snd : XorLinear₃ fun _ b _ : BitVec m => b := fun _ _ _ _ _ _ => rfl

theorem thd : XorLinear₃ fun _ _ c : BitVec m => c := fun _ _ _ _ _ _ => rfl

section Parts

variable (hf : XorLinear₃ f)
include hf

theorem left : XorLinear fun a => f a 0#m 0#m := by
  intro a a'
  rw [← hf, BitVec.xor_self]

theorem middle : XorLinear fun b => f 0#m b 0#m := by
  intro b b'
  rw [← hf, BitVec.xor_self]

theorem right : XorLinear fun c => f 0#m 0#m c := by
  intro c c'
  rw [← hf, BitVec.xor_self]

/-- The value is the exclusive or of the values on the three words. -/
theorem split (a b c : BitVec m) :
    f a b c = f a 0#m 0#m ^^^ (f 0#m b 0#m ^^^ f 0#m 0#m c) := by
  rw [← hf, ← hf]
  simp only [BitVec.zero_xor, BitVec.xor_zero]

theorem eq_xorSum {i j k : ℕ} {a b c : BitVec m} (ha : ∀ l, i ≤ l → a.getLsbD l = false)
    (hb : ∀ l, j ≤ l → b.getLsbD l = false) (hc : ∀ l, k ≤ l → c.getLsbD l = false) :
    f a b c = xorSum (columns₃ f i j k) (lowBits a i ++ (lowBits b j ++ lowBits c k)) := by
  rw [hf.split, columns₃, xorSum_append (by simp), xorSum_append (by simp),
    ← hf.left.eq_xorSum ha, ← hf.middle.eq_xorSum hb, ← hf.right.eq_xorSum hc]

/-- What all the columns have and exclusive or keeps, all the values have. -/
theorem induction {P : BitVec n → Prop} (hzero : P 0#n) (hxor : ∀ a b, P a → P b → P (a ^^^ b))
    {i j k : ℕ} (h : ∀ column ∈ columns₃ f i j k, P column) {a b c : BitVec m}
    (ha : ∀ l, i ≤ l → a.getLsbD l = false) (hb : ∀ l, j ≤ l → b.getLsbD l = false)
    (hc : ∀ l, k ≤ l → c.getLsbD l = false) : P (f a b c) := by
  rw [hf.eq_xorSum ha hb hc]
  exact xorSum_induction hzero hxor h

/-- Maps with the same columns are equal. -/
theorem ext (hg : XorLinear₃ g) (h : columns₃ f m m m = columns₃ g m m m) (a b c : BitVec m) :
    f a b c = g a b c := by
  have hbits : ∀ (v : BitVec m) l, m ≤ l → v.getLsbD l = false :=
    fun v l hl => BitVec.getLsbD_of_ge v l hl
  rw [hf.eq_xorSum (hbits a) (hbits b) (hbits c), hg.eq_xorSum (hbits a) (hbits b) (hbits c), h]

/-- **Independent columns** give different words different values. -/
theorem injective {fuel i j k : ℕ} (h : independent fuel (columns₃ f i j k) = true)
    {a b c a' b' c' : BitVec m}
    (ha : ∀ l, i ≤ l → a.getLsbD l = false) (ha' : ∀ l, i ≤ l → a'.getLsbD l = false)
    (hb : ∀ l, j ≤ l → b.getLsbD l = false) (hb' : ∀ l, j ≤ l → b'.getLsbD l = false)
    (hc : ∀ l, k ≤ l → c.getLsbD l = false) (hc' : ∀ l, k ≤ l → c'.getLsbD l = false)
    (heq : f a b c = f a' b' c') : a = a' ∧ b = b' ∧ c = c' := by
  have hsum : f (a ^^^ a') (b ^^^ b') (c ^^^ c') = 0#n := by rw [hf, heq, BitVec.xor_self]
  have hhigh : ∀ {v v' : BitVec m} {l : ℕ}, v.getLsbD l = false → v'.getLsbD l = false →
      (v ^^^ v').getLsbD l = false := by
    intro v v' l hv hv'
    rw [BitVec.getLsbD_xor, hv, hv']
    rfl
  rw [hf.eq_xorSum (i := i) (j := j) (k := k) (fun l hl => hhigh (ha l hl) (ha' l hl))
    (fun l hl => hhigh (hb l hl) (hb' l hl)) (fun l hl => hhigh (hc l hl) (hc' l hl))] at hsum
  have hfalse := independent_sound h (by simp [columns₃]) hsum
  -- a word whose low bits are not set and that has no others is zero
  have hzero : ∀ {v v' : BitVec m} {k : ℕ}, (∀ l, k ≤ l → v.getLsbD l = false) →
      (∀ l, k ≤ l → v'.getLsbD l = false) → (∀ c ∈ lowBits (v ^^^ v') k, c = false) →
      v = v' := by
    intro v v' k hv hv' hlow
    apply BitVec.eq_of_getLsbD_eq
    intro l _
    rcases Nat.lt_or_ge l k with hl | hl
    · have hbit := hlow _ (List.mem_map_of_mem (List.mem_range.2 hl))
      rw [BitVec.getLsbD_xor] at hbit
      revert hbit
      cases v.getLsbD l <;> cases v'.getLsbD l <;> simp
    · rw [hv l hl, hv' l hl]
  simp only [List.mem_append] at hfalse
  exact ⟨hzero ha ha' fun d hd => hfalse d (.inl hd),
    hzero hb hb' fun d hd => hfalse d (.inr (.inl hd)),
    hzero hc hc' fun d hd => hfalse d (.inr (.inr hd))⟩

end Parts

end XorLinear₃

end Prosperismo
