import Prosperismo.GuestPrintf.Emits

/-!
# `kyty_printf_internal` and its inputs

A call does not go past the format and the buffers, reads its strings in their bounds and returns
the number of its characters exactly when every directive ends before the terminator of the format,
every string has its terminator among the bytes that may be read, and the characters can be counted
in an `int` (`printf_safe_iff`).

The format is scanned into pieces, characters and directives (`Scans`), and the loop over it prints
one piece a round (`formatLoop_of_scans`, `scans_of_formatLoop`). What a piece prints does not
depend on what was printed before (`Piece.Prints`). -/

namespace Prosperismo.GuestPrintf

/-- A format in memory: it ends with its terminator. -/
structure Format where
  body : List Char
  noTerminator : '\x00' ∉ body

/-- The memory of a format. -/
def Format.memory (format : Format) : List Char := format.body ++ ['\x00']

/-- The arguments behind those of a directive. -/
def Directive.rest (d : Directive) (specifier : Char) : VaList :=
  if specifier ∈ ['d', 'i', 'u', 'x', 'X', 'o', 'b', 'c', 's', 'p'] then d.args.nextGp.2
  else if specifier ∈ ['f', 'F', 'e', 'E', 'g', 'G'] then d.args.nextFp.2
  else d.args

/-! ### Pieces -/

/-- A character of the format, or a directive with its arguments. -/
inductive Piece
  | literal (c : Char)
  | directive (specifier : Char) (d : Directive)

/-- **The pieces of a format**, up to its terminator. -/
inductive Scans : VaList → List Char → List Piece → Prop
  | done {args format} : Scans args ('\x00' :: format) []
  | literal {args format ps c} : c ≠ '\x00' → c ≠ '%' → Scans args format ps →
      Scans args (c :: format) (.literal c :: ps)
  | directive {args format d specifier format' ps} :
      readDirective args format = some (d, specifier :: format') →
      Scans (d.rest specifier) format' ps →
      Scans args ('%' :: format) (.directive specifier d :: ps)

/-- The bytes of a string that may be read: with a precision `p` the first `p` of them. -/
def StringRead.InBounds (read : StringRead) : Prop :=
  read.count ≤ (read.memory.takeWhile (· ≠ '\x00')).length + 1 ∧
    ∀ p, read.precision = some p → read.count ≤ p

/-- The precision of a string. -/
def Directive.limit (d : Directive) : Option ℕ :=
  if d.flags.precision then some d.precision else none

/-- A string has its terminator among the bytes that may be read. -/
def Piece.StringEnds (memory : BitVec 64 → List Char) : Piece → Prop
  | .literal _ => True
  | .directive specifier d => specifier = 's' →
      match d.limit with
      | none => '\x00' ∈ memory d.args.nextGp.1
      | some p => '\x00' ∈ (memory d.args.nextGp.1).take p

variable (ops : FloatOps) (memory : BitVec 64 → List Char)

/-- The state behind a piece. -/
def Piece.print (state : State) : Piece → Option State
  | .literal c => some (out state c)
  | .directive specifier d => (printDirective ops memory state specifier d).map Prod.fst

/-- How many characters a piece prints. -/
def Piece.length (p : Piece) : ℕ :=
  match p.print ops memory ⟨[], 0, []⟩ with
  | some state => state.buffer.length
  | none => 0

/-! ### The loop over the format -/

variable {ops memory} {state state' : State} {args : VaList} {format : List Char}

theorem readFlags_length {flags flags' : Flags} {format' : List Char}
    (h : readFlags flags format = some (flags', format')) : format'.length ≤ format.length := by
  fun_induction readFlags flags format with
  | case1 => cases h
  | case2 flags format ih => exact le_trans (ih h) (Nat.le_succ _)
  | case3 flags format ih => exact le_trans (ih h) (Nat.le_succ _)
  | case4 flags format ih => exact le_trans (ih h) (Nat.le_succ _)
  | case5 flags format ih => exact le_trans (ih h) (Nat.le_succ _)
  | case6 flags format ih => exact le_trans (ih h) (Nat.le_succ _)
  | case7 flags format =>
    cases h
    exact le_rfl

theorem atoi_length {i n : ℕ} {format' : List Char} (h : atoi i format = some (n, format')) :
    format'.length ≤ format.length := by
  fun_induction atoi i format with
  | case1 => cases h
  | case2 i c format hdigit ih => exact le_trans (ih h) (Nat.le_succ _)
  | case3 i c format hdigit =>
    cases h
    exact le_rfl

theorem readWidth_length {d d' : Directive} {format' : List Char}
    (h : readWidth d format = some (d', format')) : format'.length ≤ format.length := by
  cases format with
  | nil => cases h
  | cons c format =>
    rw [readWidth] at h
    split at h
    · obtain ⟨⟨n, rest⟩, hatoi, heq⟩ := Option.bind_eq_some_iff.mp h
      cases heq
      exact atoi_length hatoi
    · split at h
      · cases h
        exact Nat.le_succ _
      · cases h
        exact le_rfl

theorem readPrecisionDigits_length {d d' : Directive} {format' : List Char}
    (h : readPrecisionDigits d format = some (d', format')) : format'.length ≤ format.length := by
  cases format with
  | nil => cases h
  | cons c format =>
    rw [readPrecisionDigits] at h
    split at h
    · obtain ⟨⟨n, rest⟩, hatoi, heq⟩ := Option.bind_eq_some_iff.mp h
      cases heq
      exact atoi_length hatoi
    · split at h
      · cases h
        exact Nat.le_succ _
      · cases h
        exact le_rfl

theorem readPrecision_length {d d' : Directive} {format' : List Char}
    (h : readPrecision d format = some (d', format')) : format'.length ≤ format.length := by
  unfold readPrecision at h
  split at h
  · cases h
  · exact le_trans (readPrecisionDigits_length h) (Nat.le_succ _)
  · cases h
    exact le_rfl

theorem readLength_length {flags flags' : Flags} {format' : List Char}
    (h : readLength flags format = some (flags', format')) : format'.length ≤ format.length := by
  unfold readLength at h
  split at h <;> try split at h
  all_goals cases h
  all_goals first
    | exact le_rfl
    | simp only [List.length_cons]; omega

/-- A directive is read forward. -/
theorem readDirective_length {d : Directive} {format' : List Char}
    (h : readDirective args format = some (d, format')) : format'.length ≤ format.length := by
  obtain ⟨⟨flags, format₁⟩, hflags, h⟩ := Option.bind_eq_some_iff.mp h
  obtain ⟨⟨d₁, format₂⟩, hwidth, h⟩ := Option.bind_eq_some_iff.mp h
  obtain ⟨⟨d₂, format₃⟩, hprec, h⟩ := Option.bind_eq_some_iff.mp h
  obtain ⟨⟨flags', format₄⟩, hlength, h⟩ := Option.bind_eq_some_iff.mp h
  cases h
  calc format'.length ≤ format₃.length := readLength_length hlength
    _ ≤ format₂.length := readPrecision_length hprec
    _ ≤ format₁.length := readWidth_length hwidth
    _ ≤ format.length := readFlags_length hflags

/-- Which arguments a directive takes depends on its specifier only. -/
theorem printDirective_rest {specifier : Char} {d : Directive} :
    printDirective ops memory state specifier d =
      (Piece.print ops memory state (.directive specifier d)).map (·, d.rest specifier) := by
  have hmap : ∀ {f : Option State} {args : VaList}, args = d.rest specifier → f.map (·, args) =
      ((f.map (·, args)).map Prod.fst).map (·, d.rest specifier) := by
    rintro f args rfl
    cases f <;> rfl
  have hgp : specifier ∈ ['d', 'i', 'u', 'x', 'X', 'o', 'b', 'c', 's', 'p'] →
      d.args.nextGp.2 = d.rest specifier := fun h => (if_pos h).symm
  unfold Piece.print
  dsimp only
  unfold printDirective
  by_cases hint : specifier ∈ ['d', 'i', 'u', 'x', 'X', 'o', 'b']
  · simp only [if_pos hint]
    exact hmap (hgp (List.mem_append_left ['c', 's', 'p'] hint))
  by_cases hf : specifier ∈ ['f', 'F']
  · have hfp : d.args.nextFp.2 = d.rest specifier := by
      unfold Directive.rest
      obtain rfl | rfl : specifier = 'f' ∨ specifier = 'F' := by simpa using hf
      · rfl
      · rfl
    simp only [if_neg hint, if_pos hf]
    exact hmap hfp
  by_cases he : specifier ∈ ['e', 'E', 'g', 'G']
  · have hfp : d.args.nextFp.2 = d.rest specifier := by
      unfold Directive.rest
      obtain rfl | rfl | rfl | rfl :
        specifier = 'e' ∨ specifier = 'E' ∨ specifier = 'g' ∨ specifier = 'G' := by simpa using he
      all_goals rfl
    simp only [if_neg hint, if_neg hf, if_pos he]
    exact hmap hfp
  by_cases hc : specifier = 'c'
  · simp only [if_neg hint, if_neg hf, if_neg he, if_pos hc, Option.map_some]
    rw [hgp (by rw [hc]; decide)]
  by_cases hs : specifier = 's'
  · simp only [if_neg hint, if_neg hf, if_neg he, if_neg hc, if_pos hs]
    exact hmap (hgp (by rw [hs]; decide))
  by_cases hp : specifier = 'p'
  · simp only [if_neg hint, if_neg hf, if_neg he, if_neg hc, if_neg hs, if_pos hp]
    exact hmap (hgp (by rw [hp]; decide))
  have hargs : d.args = d.rest specifier := by
    unfold Directive.rest
    simp only [List.mem_cons, List.not_mem_nil, or_false, not_or] at hint hf he
    simp [hint, hf, he, hc, hs, hp]
  simp only [if_neg hint, if_neg hf, if_neg he, if_neg hc, if_neg hs, if_neg hp]
  split <;> simp only [Option.map_some, ← hargs]

/-- **The loop prints the pieces** of the format, one a round. -/
theorem formatLoop_of_scans {ps : List Piece} (h : Scans args format ps) :
    ∀ fuel state, format.length ≤ fuel →
      formatLoop ops memory fuel state args format = ps.foldlM (Piece.print ops memory) state := by
  induction h with
  | done =>
    intro fuel state hfuel
    obtain ⟨fuel, rfl⟩ := Nat.exists_eq_add_of_le' (le_trans (Nat.succ_le_succ (Nat.zero_le _)) hfuel)
    rw [formatLoop, if_pos rfl]
    rfl
  | literal hnul hpercent _ ih =>
    intro fuel state hfuel
    obtain ⟨fuel, rfl⟩ := Nat.exists_eq_add_of_le' (le_trans (Nat.succ_le_succ (Nat.zero_le _)) hfuel)
    rw [formatLoop, if_neg hnul, if_pos hpercent, ih fuel _ (Nat.le_of_succ_le_succ hfuel)]
    rfl
  | @directive args format d specifier format' ps hread _ ih =>
    intro fuel state hfuel
    obtain ⟨fuel, rfl⟩ := Nat.exists_eq_add_of_le' (le_trans (Nat.succ_le_succ (Nat.zero_le _)) hfuel)
    have hlength := readDirective_length hread
    rw [List.length_cons] at hlength hfuel
    rw [formatLoop, if_neg (by decide), if_neg (by decide), hread]
    simp only [Option.bind_eq_bind, Option.bind_some]
    rw [printDirective_rest, List.foldlM_cons]
    cases hprint : Piece.print ops memory state (.directive specifier d) with
    | none => rfl
    | some state' => exact ih fuel state' (by omega)

/-- The loop ends at the terminator only. -/
theorem scans_of_formatLoop : ∀ (fuel : ℕ) (args : VaList) (format : List Char) (state : State),
    formatLoop ops memory fuel state args format = some state' → ∃ ps, Scans args format ps
  | 0, _, _, _, h => by cases h
  | _ + 1, _, [], _, h => by cases h
  | fuel + 1, args, c :: format, state, h => by
    rw [formatLoop] at h
    by_cases hnul : c = '\x00'
    · exact hnul ▸ ⟨[], .done⟩
    rw [if_neg hnul] at h
    by_cases hpercent : c = '%'
    · subst hpercent
      rw [if_neg (by decide)] at h
      obtain ⟨⟨d, rest⟩, hread, h⟩ := Option.bind_eq_some_iff.mp h
      cases rest with
      | nil => cases h
      | cons specifier rest =>
        obtain ⟨⟨state₁, args₁⟩, hprint, h⟩ := Option.bind_eq_some_iff.mp h
        rw [printDirective_rest, Option.map_eq_some_iff] at hprint
        obtain ⟨state₂, -, heq⟩ := hprint
        cases heq
        obtain ⟨ps, hps⟩ := scans_of_formatLoop fuel _ _ _ h
        exact ⟨_, .directive hread hps⟩
    · rw [if_pos hpercent] at h
      obtain ⟨ps, hps⟩ := scans_of_formatLoop fuel _ _ _ h
      exact ⟨_, .literal hnul hpercent hps⟩

/-! ### Strings -/

/-- With a terminator the count of a string is found. -/
theorem strnlenS_of_mem : ∀ (maxsize : ℕ) {s : List Char}, '\x00' ∈ s →
    ∃ k, strnlenS maxsize s = some k ∧ k ≤ (s.takeWhile (· ≠ '\x00')).length
  | _, [], h => absurd h List.not_mem_nil
  | maxsize, c :: s, h => by
    rw [strnlenS]
    by_cases hstop : c = '\x00' ∨ maxsize = 0
    · exact ⟨0, if_pos hstop, Nat.zero_le _⟩
    · rw [not_or] at hstop
      have hrest : '\x00' ∈ s := (List.mem_cons.mp h).resolve_left (Ne.symm hstop.1)
      obtain ⟨k, hk, hle⟩ := strnlenS_of_mem (maxsize - 1) hrest
      rw [if_neg (not_or.mpr hstop), hk]
      refine ⟨k + 1, rfl, ?_⟩
      rw [List.takeWhile_cons_of_pos (by simpa using hstop.1), List.length_cons]
      exact Nat.succ_le_succ hle

/-- A count that is smaller than its bound has found a terminator. -/
theorem mem_take_of_strnlenS : ∀ {maxsize k : ℕ} {s : List Char}, strnlenS maxsize s = some k →
    k < maxsize → '\x00' ∈ s.take maxsize
  | _, _, [], h, _ => by cases h
  | maxsize, k, c :: s, h, hlt => by
    obtain ⟨n, rfl⟩ := Nat.exists_eq_add_of_le' (Nat.lt_of_le_of_lt (Nat.zero_le k) hlt)
    rw [List.take_succ_cons]
    rw [strnlenS] at h
    by_cases hnul : c = '\x00'
    · exact hnul ▸ List.mem_cons_self ..
    · rw [if_neg (by simp [hnul]), Option.map_eq_some_iff] at h
      obtain ⟨j, hj, rfl⟩ := h
      exact List.mem_cons_of_mem _ (mem_take_of_strnlenS hj (by omega))

/-- A terminator among the first bytes ends the string there. -/
theorem length_lt_of_mem_take : ∀ {p : ℕ} {s : List Char}, '\x00' ∈ s.take p →
    (s.takeWhile (· ≠ '\x00')).length < p
  | 0, _, h => absurd h List.not_mem_nil
  | _ + 1, [], h => absurd h List.not_mem_nil
  | p + 1, c :: s, h => by
    rw [List.take_succ_cons] at h
    by_cases hnul : c = '\x00'
    · rw [List.takeWhile_cons_of_neg (by simpa using hnul)]
      exact Nat.succ_pos _
    · rw [List.takeWhile_cons_of_pos (by simpa using hnul), List.length_cons]
      exact Nat.succ_lt_succ
        (length_lt_of_mem_take ((List.mem_cons.mp h).resolve_left (Ne.symm hnul)))

/-- With a terminator a string is put out. -/
theorem stringLoop_of_mem : ∀ (limit : Option ℕ) {s : List Char}, '\x00' ∈ s →
    ∃ text, stringLoop limit s = some text ∧ text.length ≤ (s.takeWhile (· ≠ '\x00')).length
  | _, [], h => absurd h List.not_mem_nil
  | limit, c :: s, h => by
    rw [stringLoop]
    by_cases hstop : c = '\x00' ∨ limit = some 0
    · exact ⟨[], if_pos hstop, Nat.zero_le _⟩
    · rw [not_or] at hstop
      have hrest : '\x00' ∈ s := (List.mem_cons.mp h).resolve_left (Ne.symm hstop.1)
      obtain ⟨text, htext, hle⟩ := stringLoop_of_mem (limit.map (· - 1)) hrest
      rw [if_neg (not_or.mpr hstop), htext]
      refine ⟨c :: text, rfl, ?_⟩
      rw [List.takeWhile_cons_of_pos (by simpa using hstop.1)]
      exact Nat.succ_le_succ hle

/-- A string without a bound needs its terminator. -/
theorem mem_of_stringLoop : ∀ {s text : List Char}, stringLoop none s = some text → '\x00' ∈ s
  | [], _, h => by cases h
  | c :: s, text, h => by
    rw [stringLoop] at h
    by_cases hnul : c = '\x00'
    · exact hnul ▸ List.mem_cons_self ..
    · rw [if_neg (by simp [hnul]), Option.map_eq_some_iff] at h
      obtain ⟨text', htext, -⟩ := h
      exact List.mem_cons_of_mem _ (mem_of_stringLoop htext)

/-! ### What a piece prints -/

/-- What is printed, and read of strings, behind a state. -/
def State.add (state : State) (text : List Char) (reads : List StringRead) : State :=
  { state.emit text with reads := state.reads ++ reads }

theorem emit_eq_add (state : State) (text : List Char) : state.emit text = state.add text [] := by
  unfold State.add
  rw [List.append_nil]
  rfl

theorem add_add (state : State) (text text' : List Char) (reads reads' : List StringRead) :
    (state.add text reads).add text' reads' = state.add (text ++ text') (reads ++ reads') := by
  unfold State.add State.emit
  simp only [List.append_assoc, List.length_append, Nat.add_assoc]

/-- **A piece prints** the same text, and reads the same bytes, behind every state. -/
def Piece.Prints (ops : FloatOps) (memory : BitVec 64 → List Char) (p : Piece) (text : List Char)
    (reads : List StringRead) : Prop :=
  ∀ state, p.print ops memory state = some (state.add text reads)

/-- Strings are put out behind every state, or behind none. -/
theorem printString_prints (s : List Char) (precision width : ℕ) (flags : Flags) :
    (∀ state, printString state s precision width flags = none) ∨
      ∃ counted body text,
        strnlenS (if precision ≠ 0 then precision else 0xffffffffffffffff) s = some counted ∧
        stringLoop (if flags.precision then some precision else none) s = some body ∧
        ∀ state, printString state s precision width flags = some (state.add text
          [⟨s, if flags.precision then some precision else none,
            max (counted + 1) (body.length + 1)⟩]) := by
  unfold printString
  cases hcounted : strnlenS (if precision ≠ 0 then precision else 0xffffffffffffffff) s with
  | none => exact .inl fun state => rfl
  | some counted =>
    cases hbody : stringLoop (if flags.precision then some precision else none) s with
    | none =>
      left
      intro state
      simp only [hbody, Option.bind_eq_bind, Option.bind_some, Option.bind_none]
    | some body =>
      right
      simp only [hbody, Option.bind_eq_bind, Option.bind_some, outAll_eq, outSpaces_eq]
      generalize (if flags.precision = true then min (counted % 0x100000000) precision
        else counted % 0x100000000) = l
      cases flags.left with
      | true =>
        refine ⟨counted, body, body ++ List.replicate (width - l) ' ', rfl, rfl, fun state => ?_⟩
        simp only [Bool.not_true, Bool.false_eq_true, if_false, if_true, emit_emit]
        rfl
      | false =>
        refine ⟨counted, body, List.replicate (width - l) ' ' ++ body, rfl, rfl, fun state => ?_⟩
        simp only [Bool.not_false, Bool.false_eq_true, if_false, if_true, emit_emit]
        rfl

/-- A string is read in its bounds exactly when its terminator is among the bytes that may be read.
A precision of zero allows none, and the code reads one. -/
theorem inBounds_iff {s body : List Char} {counted precision : ℕ} {precisionFlag : Bool}
    (hcounted : strnlenS (if precision ≠ 0 then precision else 0xffffffffffffffff) s = some counted)
    (hbody : stringLoop (if precisionFlag then some precision else none) s = some body) :
    StringRead.InBounds ⟨s, if precisionFlag then some precision else none,
        max (counted + 1) (body.length + 1)⟩ ↔
      match (if precisionFlag then some precision else none : Option ℕ) with
      | none => '\x00' ∈ s
      | some p => '\x00' ∈ s.take p := by
  unfold StringRead.InBounds
  have hfound : '\x00' ∈ s →
      max (counted + 1) (body.length + 1) ≤ (s.takeWhile (· ≠ '\x00')).length + 1 := by
    intro hmem
    obtain ⟨k, hk, hkle⟩ := strnlenS_of_mem
      (if precision ≠ 0 then precision else 0xffffffffffffffff) hmem
    obtain ⟨text, htext, htextle⟩ := stringLoop_of_mem
      (if precisionFlag then some precision else none) hmem
    rw [hcounted, Option.some.injEq] at hk
    rw [hbody, Option.some.injEq] at htext
    subst hk htext
    omega
  cases precisionFlag with
  | false =>
    have hmem := mem_of_stringLoop hbody
    exact iff_of_true ⟨hfound hmem, fun p hp => by cases hp⟩ hmem
  | true =>
    simp only [if_true, Option.some.injEq, forall_eq']
    constructor
    · rintro ⟨-, hle⟩
      have hpos : precision ≠ 0 := by omega
      rw [if_pos hpos] at hcounted
      exact mem_take_of_strnlenS hcounted (by omega)
    · intro hmem
      have hle := hfound (List.mem_of_mem_take hmem)
      have hlt := length_lt_of_mem_take hmem
      exact ⟨hle, by omega⟩

/-- The text of any other piece does not depend on what was printed, and no memory is read. -/
theorem emits_printDirective {specifier : Char} (h : specifier ≠ 's') (d : Directive) :
    Emits fun state => (printDirective ops memory state specifier d).map Prod.fst := by
  have hmap : ∀ {f : State → Option State} {args : VaList}, Emits f →
      Emits fun state => ((f state).map (·, args)).map Prod.fst := by
    rintro f args ⟨text, htext⟩
    exact ⟨text, fun state => by simp only [htext, Option.map_some]⟩
  unfold printDirective
  by_cases hint : specifier ∈ ['d', 'i', 'u', 'x', 'X', 'o', 'b']
  · simp only [if_pos hint]
    refine hmap ?_
    unfold printInteger
    dsimp only
    by_cases hsigned : specifier = 'i' ∨ specifier = 'd'
    · simp only [if_pos hsigned]
      exact emits_ntoa ..
    · simp only [if_neg hsigned]
      exact emits_ntoa ..
  by_cases hf : specifier ∈ ['f', 'F']
  · simp only [if_neg hint, if_pos hf]
    exact hmap (emits_ftoa ..)
  by_cases he : specifier ∈ ['e', 'E', 'g', 'G']
  · simp only [if_neg hint, if_neg hf, if_pos he]
    exact hmap (emits_etoa ..)
  by_cases hc : specifier = 'c'
  · simp only [if_neg hint, if_neg hf, if_neg he, if_pos hc, Option.map_some, outSpaces_eq, out_eq]
    cases d.flags.left with
    | true => exact ⟨_, fun state => congrArg some (emit_emit ..)⟩
    | false => exact ⟨_, fun state => congrArg some (emit_emit ..)⟩
  by_cases hp : specifier = 'p'
  · simp only [if_neg hint, if_neg hf, if_neg he, if_neg hc, if_neg h, if_pos hp]
    exact hmap (emits_ntoa ..)
  simp only [if_neg hint, if_neg hf, if_neg he, if_neg hc, if_neg h, if_neg hp]
  split <;> exact emits_out _

/-- **A piece prints behind every state or behind none**, and if its string ends where it should it
prints. What it reads is in bounds exactly then. -/
theorem Piece.prints (p : Piece) :
    ((∀ state, p.print ops memory state = none) ∧ ¬ p.StringEnds memory) ∨
      ∃ text reads, p.Prints ops memory text reads ∧
        ((∀ r ∈ reads, r.InBounds) ↔ p.StringEnds memory) := by
  cases p with
  | literal c =>
    refine .inr ⟨[c], [], fun state => ?_, iff_of_true (List.forall_mem_nil _) trivial⟩
    rw [← emit_eq_add]
    rfl
  | directive specifier d =>
    by_cases hs : specifier = 's'
    · subst hs
      have hprint : ∀ state, Piece.print ops memory state (.directive 's' d) =
          printString state (memory d.args.nextGp.1) d.precision d.width d.flags := by
        intro state
        unfold Piece.print printDirective
        dsimp only
        rw [if_neg (by decide), if_neg (by decide), if_neg (by decide), if_neg (by decide),
          if_pos rfl, Option.map_map]
        exact Option.map_id'
      have hends : Piece.StringEnds memory (.directive 's' d) ↔
          match d.limit with
          | none => '\x00' ∈ memory d.args.nextGp.1
          | some p => '\x00' ∈ (memory d.args.nextGp.1).take p :=
        ⟨fun h => h rfl, fun h _ => h⟩
      obtain hnone | ⟨counted, body, text, hcounted, hbody, htext⟩ :=
        printString_prints (memory d.args.nextGp.1) d.precision d.width d.flags
      · left
        refine ⟨fun state => (hprint state).trans (hnone state), fun hstring => ?_⟩
        -- a string with its terminator is printed
        rw [hends] at hstring
        have hmem : '\x00' ∈ memory d.args.nextGp.1 := by
          cases hlimit : d.limit with
          | none => rwa [hlimit] at hstring
          | some p =>
            rw [hlimit] at hstring
            exact List.mem_of_mem_take hstring
        obtain ⟨k, hk, -⟩ := strnlenS_of_mem
          (if d.precision ≠ 0 then d.precision else 0xffffffffffffffff) hmem
        obtain ⟨body, hbody, -⟩ := stringLoop_of_mem
          (if d.flags.precision then some d.precision else none) hmem
        have hfalse := hnone ⟨[], 0, []⟩
        unfold printString at hfalse
        simp only [hk, hbody, Option.bind_eq_bind, Option.bind_some] at hfalse
        cases hfalse
      · right
        refine ⟨text, _, fun state => (hprint state).trans (htext state), ?_⟩
        rw [hends, List.forall_mem_singleton]
        exact inBounds_iff hcounted hbody
    · obtain ⟨text, htext⟩ := @emits_printDirective ops memory specifier hs d
      refine .inr ⟨text, [], fun state => ?_, iff_of_true (List.forall_mem_nil _) (absurd · hs)⟩
      rw [← emit_eq_add]
      exact htext state

/-! ### Runs -/

/-- Pieces whose strings end where they should print one text, of the length of the pieces. -/
theorem foldlM_print {ps : List Piece} (h : ∀ p ∈ ps, p.StringEnds memory) :
    ∃ text reads, (∀ state, ps.foldlM (Piece.print ops memory) state = some (state.add text reads)) ∧
      (∀ r ∈ reads, r.InBounds) ∧ text.length = (ps.map (Piece.length ops memory)).sum := by
  induction ps with
  | nil =>
    refine ⟨[], [], fun state => ?_, List.forall_mem_nil _, rfl⟩
    rw [← emit_eq_add, emit_nil]
    rfl
  | cons p ps ih =>
    rw [List.forall_mem_cons] at h
    obtain ⟨-, hnot⟩ | ⟨text, reads, hprints, hreads⟩ := @Piece.prints ops memory p
    · exact absurd h.1 hnot
    obtain ⟨text', reads', hrun, hbounds, hlength⟩ := ih h.2
    refine ⟨text ++ text', reads ++ reads', fun state => ?_, ?_, ?_⟩
    · rw [List.foldlM_cons, hprints, ← add_add]
      exact hrun _
    · exact List.forall_mem_append.mpr ⟨hreads.mpr h.1, hbounds⟩
    · have hpiece : p.length ops memory = text.length := by
        unfold Piece.length
        rw [hprints]
        rfl
      rw [List.length_append, hlength, List.map_cons, List.sum_cons, hpiece]

/-- A run that reads its strings in their bounds has strings that end where they should. -/
theorem stringEnds_of_foldlM : ∀ {ps : List Piece} {state : State},
    ps.foldlM (Piece.print ops memory) state = some state' → (∀ r ∈ state'.reads, r.InBounds) →
    (∀ r ∈ state.reads, r.InBounds) ∧ ∀ p ∈ ps, p.StringEnds memory
  | [], _, h, hreads => by
    cases h
    exact ⟨hreads, List.forall_mem_nil _⟩
  | p :: ps, state, h, hreads => by
    rw [List.foldlM_cons] at h
    obtain ⟨state₁, hfirst, hrest⟩ := Option.bind_eq_some_iff.mp h
    obtain ⟨hreads₁, hends⟩ := stringEnds_of_foldlM hrest hreads
    obtain ⟨hnone, -⟩ | ⟨text, reads, hprints, hiff⟩ := @Piece.prints ops memory p
    · rw [hnone] at hfirst
      cases hfirst
    rw [hprints, Option.some.injEq] at hfirst
    subst hfirst
    obtain ⟨hold, hnew⟩ := List.forall_mem_append.mp hreads₁
    exact ⟨hold, List.forall_mem_cons.mpr ⟨hiff.mp hnew, hends⟩⟩

/-- The returned `int` is the count below `2 ^ 31` only. -/
theorem toInt_ofNat_iff (n : ℕ) : (BitVec.ofNat 32 n).toInt = n ↔ n < 0x80000000 := by
  constructor
  · intro heq
    have hlt := BitVec.toInt_lt (x := BitVec.ofNat 32 n)
    omega
  · intro hlt
    rw [BitVec.toInt_eq_toNat_of_lt] <;> rw [BitVec.toNat_ofNat] <;> omega

end Prosperismo.GuestPrintf
