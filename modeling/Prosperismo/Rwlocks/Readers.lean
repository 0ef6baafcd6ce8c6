import Mathlib.Order.Lattice
import Mathlib.Tactic.Tauto
import Prosperismo.Rwlocks.Model

/-!
# The readers of a lock

The entries of `readers` are a count of read locks for each thread (`countOf`), kept as one
entry of positive count for each thread that has any (`WellFormed`). `addEntry` counts one
thread up and `removeEntry` counts it down (`Removed`), as long as no counter overflows.
-/

namespace Prosperismo.Rwlocks

variable {θ : Type} [DecidableEq θ]

/-! ### Counters -/

theorem inc_of_lt {x : ℕ} (h : x < uint32Max) : inc x = x + 1 := by
  unfold uint32Max at h
  unfold inc
  omega

theorem dec_of_pos {x : ℕ} (hpos : 0 < x) (hle : x ≤ uint32Max) : dec x = x - 1 := by
  unfold uint32Max at hle
  unfold dec
  omega

/-! ### The readers -/

/-- The count in the entry of the thread, zero if there is none. -/
def countOf (thread : θ) : List (Reader θ) → ℕ
  | [] => 0
  | reader :: rest => if reader.thread = thread then reader.count else countOf thread rest

/-- The sum of the counts. -/
def total : List (Reader θ) → ℕ
  | [] => 0
  | reader :: rest => reader.count + total rest

/-- One entry of positive count for each thread that has one. -/
structure WellFormed (readers : List (Reader θ)) : Prop where
  nodup : (readers.map (·.thread)).Nodup
  pos : ∀ reader ∈ readers, 0 < reader.count

omit [DecidableEq θ] in
theorem WellFormed.tail {reader : Reader θ} {rest : List (Reader θ)}
    (h : WellFormed (reader :: rest)) : WellFormed rest :=
  ⟨(List.nodup_cons.1 h.nodup).2, fun r hr => h.pos r (List.mem_cons_of_mem _ hr)⟩

theorem countOf_cons_self {reader : Reader θ} {rest : List (Reader θ)} {thread : θ}
    (h : reader.thread = thread) : countOf thread (reader :: rest) = reader.count :=
  if_pos h

theorem countOf_cons_ne {reader : Reader θ} {rest : List (Reader θ)} {thread : θ}
    (h : reader.thread ≠ thread) : countOf thread (reader :: rest) = countOf thread rest :=
  if_neg h

theorem countOf_eq_zero {thread : θ} {readers : List (Reader θ)}
    (h : thread ∉ readers.map (·.thread)) : countOf thread readers = 0 := by
  induction readers with
  | nil => rfl
  | cons reader rest ih =>
    rw [List.map_cons, List.mem_cons, not_or] at h
    rw [countOf_cons_ne (Ne.symm h.1)]
    exact ih h.2

theorem countOf_le_total (thread : θ) (readers : List (Reader θ)) :
    countOf thread readers ≤ total readers := by
  induction readers with
  | nil => exact Nat.le_refl 0
  | cons reader rest ih =>
    have htotal : total (reader :: rest) = reader.count + total rest := rfl
    by_cases h : reader.thread = thread
    · rw [countOf_cons_self h]
      omega
    · rw [countOf_cons_ne h]
      omega

/-- Where nobody reads, no thread has a count. -/
theorem countOf_of_total_eq_zero {readers : List (Reader θ)} (h : total readers = 0) (thread : θ) :
    countOf thread readers = 0 :=
  Nat.le_zero.1 (h ▸ countOf_le_total thread readers)

/-- `RwlockFindReader` finds the threads with a count. -/
theorem WellFormed.findReader_iff {s : Rwlock θ} (h : WellFormed s.readers) {thread : θ} :
    (s.findReader thread).isSome ↔ 0 < countOf thread s.readers := by
  unfold Rwlock.findReader
  generalize s.readers = readers at h
  induction readers with
  | nil => simp [countOf]
  | cons reader rest ih =>
    by_cases hthread : reader.thread = thread
    · rw [List.find?_cons_of_pos (by simpa using hthread), countOf_cons_self hthread]
      exact iff_of_true rfl (h.pos reader List.mem_cons_self)
    · rw [List.find?_cons_of_neg (by simpa using hthread), countOf_cons_ne hthread]
      exact ih h.tail

/-! ### Counting up -/

theorem addEntry_mem_threads {thread other : θ} {readers : List (Reader θ)} :
    other ∈ (addEntry thread readers).map (·.thread) ↔
      other = thread ∨ other ∈ readers.map (·.thread) := by
  induction readers with
  | nil => simp [addEntry]
  | cons reader rest ih =>
    unfold addEntry
    split
    · next h => simp [← h]
    · rw [List.map_cons, List.mem_cons, ih, List.map_cons, List.mem_cons]
      tauto

/-- One read lock more. -/
theorem total_addEntry {thread : θ} {readers : List (Reader θ)}
    (h : total readers < uint32Max) : total (addEntry thread readers) = total readers + 1 := by
  induction readers with
  | nil => rfl
  | cons reader rest ih =>
    have htotal : total (reader :: rest) = reader.count + total rest := rfl
    unfold addEntry
    split
    · have hadd : total ({ reader with count := inc reader.count } :: rest) =
          inc reader.count + total rest := rfl
      rw [hadd, htotal, inc_of_lt (by omega)]
      omega
    · have hadd : total (reader :: addEntry thread rest) =
          reader.count + total (addEntry thread rest) := rfl
      rw [hadd, htotal, ih (by omega)]
      omega

theorem countOf_addEntry_self {thread : θ} {readers : List (Reader θ)}
    (h : countOf thread readers < uint32Max) :
    countOf thread (addEntry thread readers) = countOf thread readers + 1 := by
  induction readers with
  | nil => simp [addEntry, countOf]
  | cons reader rest ih =>
    unfold addEntry
    split
    · next hthread =>
      have hadd : countOf thread ({ reader with count := inc reader.count } :: rest) =
          inc reader.count := countOf_cons_self hthread
      rw [countOf_cons_self hthread] at h ⊢
      rw [hadd, inc_of_lt h]
    · next hthread =>
      rw [countOf_cons_ne hthread] at h ⊢
      rw [countOf_cons_ne hthread, ih h]

theorem countOf_addEntry_of_ne {thread other : θ} {readers : List (Reader θ)}
    (h : other ≠ thread) : countOf other (addEntry thread readers) = countOf other readers := by
  induction readers with
  | nil => exact countOf_cons_ne h.symm
  | cons reader rest ih =>
    unfold addEntry
    split
    · next hthread =>
      have hne : reader.thread ≠ other := fun hsame => h (hsame.symm.trans hthread)
      have hadd : countOf other ({ reader with count := inc reader.count } :: rest) =
          countOf other rest := countOf_cons_ne hne
      rw [hadd, countOf_cons_ne hne]
    · by_cases hother : reader.thread = other
      · rw [countOf_cons_self hother, countOf_cons_self hother]
      · rw [countOf_cons_ne hother, countOf_cons_ne hother, ih]

theorem WellFormed.addEntry {readers : List (Reader θ)} (h : WellFormed readers) {thread : θ}
    (hlt : total readers < uint32Max) : WellFormed (addEntry thread readers) := by
  induction readers with
  | nil => exact ⟨by simp [Rwlocks.addEntry], by simp [Rwlocks.addEntry]⟩
  | cons reader rest ih =>
    have htotal : total (reader :: rest) = reader.count + total rest := rfl
    unfold Rwlocks.addEntry
    split
    · refine ⟨h.nodup, fun r hr => ?_⟩
      rcases List.mem_cons.1 hr with rfl | hr
      · change 0 < inc reader.count
        rw [inc_of_lt (by omega)]
        omega
      · exact h.pos r (List.mem_cons_of_mem _ hr)
    · next hthread =>
      obtain ⟨hnodup, hpos⟩ := ih h.tail (by omega)
      refine ⟨List.nodup_cons.2 ⟨?_, hnodup⟩, fun r hr => ?_⟩
      · rw [addEntry_mem_threads, not_or]
        exact ⟨hthread, (List.nodup_cons.1 h.nodup).1⟩
      · rcases List.mem_cons.1 hr with rfl | hr
        · exact h.pos r List.mem_cons_self
        · exact hpos r hr

/-! ### Counting down -/

/-- There is nothing to count down exactly for the threads without a count. -/
theorem WellFormed.removeEntry_eq_none {readers : List (Reader θ)} (h : WellFormed readers)
    {thread : θ} : removeEntry thread readers = none ↔ countOf thread readers = 0 := by
  induction readers with
  | nil => exact iff_of_true rfl rfl
  | cons reader rest ih =>
    unfold removeEntry
    by_cases hthread : reader.thread = thread
    · rw [if_pos hthread, countOf_cons_self hthread]
      have hpos := h.pos reader List.mem_cons_self
      refine iff_of_false ?_ (by omega)
      split <;> exact Option.some_ne_none _
    · rw [if_neg hthread, countOf_cons_ne hthread, Option.map_eq_none_iff]
      exact ih h.tail

/-- What is left after one read lock of the thread is gone. -/
structure Removed (thread : θ) (readers readers' : List (Reader θ)) : Prop where
  threads : (readers'.map (·.thread)).Sublist (readers.map (·.thread))
  pos : ∀ reader ∈ readers', 0 < reader.count
  sum : total readers' + 1 = total readers
  self : countOf thread readers' + 1 = countOf thread readers
  other : ∀ other, other ≠ thread → countOf other readers' = countOf other readers

/-- The entry at the front is counted down, or goes. -/
theorem Removed.front {reader : Reader θ} {rest readers' : List (Reader θ)}
    (h : WellFormed (reader :: rest)) (hle : total (reader :: rest) ≤ uint32Max)
    (hremove : (if dec reader.count = 0 then some rest
      else some ({ reader with count := dec reader.count } :: rest)) = some readers') :
    Removed reader.thread (reader :: rest) readers' := by
  have htotal : total (reader :: rest) = reader.count + total rest := rfl
  have hpos := h.pos reader List.mem_cons_self
  have hdec : dec reader.count = reader.count - 1 := dec_of_pos hpos (by omega)
  split at hremove
  · next hzero =>
    -- the entry goes, and there is no other
    obtain rfl := Option.some.inj hremove
    have hnone : countOf reader.thread rest = 0 := countOf_eq_zero (List.nodup_cons.1 h.nodup).1
    exact
      { threads := List.sublist_cons_self _ _
        pos := h.tail.pos
        sum := by omega
        self := by rw [countOf_cons_self rfl]; omega
        other := fun other hne => (countOf_cons_ne hne.symm).symm }
  · next hnonzero =>
    obtain rfl := Option.some.inj hremove
    have htotal' : total ({ reader with count := dec reader.count } :: rest) =
        dec reader.count + total rest := rfl
    have hself : countOf reader.thread ({ reader with count := dec reader.count } :: rest) =
        dec reader.count := countOf_cons_self rfl
    refine
      { threads := by simp only [List.map_cons, List.Sublist.refl]
        pos := fun r hr => ?_
        sum := ?_
        self := ?_
        other := fun other hne => ?_ }
    · rcases List.mem_cons.1 hr with rfl | hr
      · change 0 < dec reader.count
        exact Nat.pos_of_ne_zero hnonzero
      · exact h.tail.pos r hr
    · omega
    · rw [hself, countOf_cons_self rfl]
      omega
    · have hother : countOf other ({ reader with count := dec reader.count } :: rest) =
          countOf other rest := countOf_cons_ne hne.symm
      rw [hother, countOf_cons_ne hne.symm]

/-- An entry of another thread in front does not matter. -/
theorem Removed.cons {reader : Reader θ} {thread : θ} {rest readers' : List (Reader θ)}
    (h : Removed thread rest readers') (hpos : 0 < reader.count) (hne : reader.thread ≠ thread) :
    Removed thread (reader :: rest) (reader :: readers') where
  threads := h.threads.cons_cons _
  pos r hr := by
    rcases List.mem_cons.1 hr with rfl | hr
    · exact hpos
    · exact h.pos r hr
  sum := by
    have htotal := h.sum
    rw [total, total]
    omega
  self := by rw [countOf_cons_ne hne, countOf_cons_ne hne, h.self]
  other other hother := by
    by_cases hreader : reader.thread = other
    · rw [countOf_cons_self hreader, countOf_cons_self hreader]
    · rw [countOf_cons_ne hreader, countOf_cons_ne hreader, h.other other hother]

theorem WellFormed.removeEntry {readers readers' : List (Reader θ)} (h : WellFormed readers)
    {thread : θ} (hle : total readers ≤ uint32Max)
    (hremove : removeEntry thread readers = some readers') : Removed thread readers readers' := by
  induction readers generalizing readers' with
  | nil => cases hremove
  | cons reader rest ih =>
    have htotal : total (reader :: rest) = reader.count + total rest := rfl
    unfold Rwlocks.removeEntry at hremove
    by_cases hthread : reader.thread = thread
    · rw [if_pos hthread] at hremove
      exact hthread ▸ Removed.front h hle hremove
    · rw [if_neg hthread] at hremove
      obtain ⟨rest', hrest, rfl⟩ := Option.map_eq_some_iff.1 hremove
      exact (ih h.tail (by omega) hrest).cons (h.pos reader List.mem_cons_self) hthread

theorem Removed.wellFormed {thread : θ} {readers readers' : List (Reader θ)}
    (h : Removed thread readers readers') (hwf : WellFormed readers) : WellFormed readers' :=
  ⟨hwf.nodup.sublist h.threads, h.pos⟩

end Prosperismo.Rwlocks
