import Mathlib.Data.List.GetD
import Mathlib.Data.List.Pairwise
import Mathlib.Order.Lattice
import Prosperismo.StreamBuffer.Model

/-!
# A stream buffer never hands out memory in use

The watches that count are two lists, those of the lap before (`Ring.previous`) and those of the
lap under way (`Ring.current`). `Lies` says how a committed range is protected by a list: one of
its watches has the tick of the range and ends behind it, and the watches before that one end in
front of the range. A `Map` that waits for the lap before up to its own end has then either
waited for the range or stays in front of it (`waitPending_spec`).

A range of an older lap is protected by no watch. But a lap that is over has a watch, and its
tick is not smaller (`Ring.offset_pos`, the last case of `Protected`).

The main result is `map_disjoint`.
-/

namespace Prosperismo.StreamBuffer

/-! ### Arithmetic -/

theorem alignUp_spec {value alignment result : ℕ} (h : alignUp value alignment = some result) :
    value ≤ result ∧ (alignment ≠ 0 → alignment ∣ result) := by
  unfold alignUp at h
  split at h
  · next hzero =>
    obtain rfl := Option.some.inj h
    exact ⟨le_rfl, fun hne => absurd hzero hne⟩
  · next hne =>
    split at h
    · next hmod =>
      obtain rfl := Option.some.inj h
      exact ⟨le_rfl, fun _ => Nat.dvd_of_mod_eq_zero hmod⟩
    · split at h
      · cases h
      · obtain rfl := Option.some.inj h
        refine ⟨Nat.le_add_right _ _, fun _ => ⟨value / alignment + 1, ?_⟩⟩
        have hlt := Nat.mod_lt value (Nat.pos_of_ne_zero hne)
        have hdiv := Nat.div_add_mod value alignment
        rw [Nat.mul_add, Nat.mul_one]
        omega

/-- Zero is aligned. -/
theorem alignUp_zero {alignment result : ℕ} (h : alignUp 0 alignment = some result) :
    result = 0 := by
  unfold alignUp at h
  rw [Nat.zero_mod, if_pos rfl, ite_self] at h
  exact (Option.some.inj h).symm

/-- The reservation is no smaller than the request, and at least as aligned. -/
theorem normalizeReservation_spec {coherent : Bool} {atom size alignment size' alignment' : ℕ}
    (h : normalizeReservation coherent atom size alignment = some (size', alignment')) :
    size ≤ size' ∧ (alignment ≠ 0 → alignment' ≠ 0 ∧ alignment ∣ alignment') := by
  unfold normalizeReservation at h
  split at h
  · obtain ⟨rfl, rfl⟩ := Prod.mk.inj (Option.some.inj h)
    exact ⟨le_rfl, fun hne => ⟨hne, dvd_rfl⟩⟩
  · cases hsize : alignUp size atom with
    | none =>
      rw [hsize] at h
      cases h
    | some aligned =>
      rw [hsize] at h
      dsimp only at h
      split at h
      · cases h
      · next hrange =>
        obtain ⟨rfl, rfl⟩ := Prod.mk.inj (Option.some.inj h)
        refine ⟨(alignUp_spec hsize).1, fun hne => ?_⟩
        rw [if_neg hne]
        have hgcd := Nat.gcd_dvd_left alignment atom
        have hpos : 0 < alignment / Nat.gcd alignment atom :=
          Nat.div_pos (Nat.le_of_dvd (Nat.pos_of_ne_zero hne) hgcd)
            (Nat.gcd_pos_of_pos_left atom (Nat.pos_of_ne_zero hne))
        -- an atom of zero does not get past the test
        have hatom : atom ≠ 0 := by
          rintro rfl
          rw [Nat.div_zero] at hrange
          exact hrange ⟨hne, hpos⟩
        refine ⟨Nat.mul_ne_zero (Nat.pos_iff_ne_zero.1 hpos) hatom, ?_⟩
        calc alignment = alignment / Nat.gcd alignment atom * Nat.gcd alignment atom :=
              (Nat.div_mul_cancel hgcd).symm
          _ ∣ alignment / Nat.gcd alignment atom * atom :=
              Nat.mul_dvd_mul_left _ (Nat.gcd_dvd_right alignment atom)

/-! ### Waiting -/

/-- A committed range. -/
structure Committed where
  lower : ℕ
  upper : ℕ
  tick : ℕ

/-- The range is protected by the watches of a lap. -/
def Lies (range : Committed) (watches : List Watch) : Prop :=
  ∃ before watch after, watches = before ++ watch :: after ∧ watch.tick = range.tick ∧
    range.upper ≤ watch.upperBound ∧ ∀ w ∈ before, w.upperBound ≤ range.lower

theorem le_refreshFor (tick gpuTick counter : ℕ) : gpuTick ≤ refreshFor tick gpuTick counter := by
  unfold refreshFor
  split
  · exact le_rfl
  · exact le_max_left _ _

/-- The state of the wait between two watches: those before the cursor are free, and the bound is
where the last of them ends. -/
structure WaitedTo (watches : List Watch) (waitCursor waitBound gpuTick : ℕ) : Prop where
  cursor_le : waitCursor ≤ watches.length
  free : ∀ w ∈ watches.take waitCursor, w.tick ≤ gpuTick
  bound : waitBound = 0 ∨ ∃ w ∈ watches.take waitCursor, w.upperBound = waitBound

theorem WaitedTo.zero (watches : List Watch) (gpuTick : ℕ) : WaitedTo watches 0 0 gpuTick :=
  ⟨Nat.zero_le _, fun _ h => absurd h List.not_mem_nil, .inl rfl⟩

theorem WaitedTo.mono {watches : List Watch} {waitCursor waitBound gpuTick gpuTick' : ℕ}
    (h : WaitedTo watches waitCursor waitBound gpuTick) (hle : gpuTick ≤ gpuTick') :
    WaitedTo watches waitCursor waitBound gpuTick' :=
  ⟨h.cursor_le, fun w hw => (h.free w hw).trans hle, h.bound⟩

/-- One more watch is free. -/
theorem WaitedTo.next {watches rest : List Watch} {watch : Watch}
    {waitCursor waitBound gpuTick gpuTick' : ℕ} (h : WaitedTo watches waitCursor waitBound gpuTick)
    (hrest : watches.drop waitCursor = watch :: rest) (hle : gpuTick ≤ gpuTick')
    (hfree : watch.tick ≤ gpuTick') :
    WaitedTo watches (waitCursor + 1) watch.upperBound gpuTick' := by
  have hlt : waitCursor < watches.length := by
    by_contra hge
    rw [List.drop_eq_nil_of_le (not_lt.1 hge)] at hrest
    cases hrest
  have hwatch : watches[waitCursor]? = some watch := by
    rw [← List.head?_drop, hrest]
    rfl
  have htake : watches.take (waitCursor + 1) = watches.take waitCursor ++ [watch] := by
    rw [List.take_add_one, hwatch]
    rfl
  refine ⟨hlt, fun w hw => ?_, .inr ⟨watch, ?_, rfl⟩⟩
  · rw [htake] at hw
    rcases List.mem_append.1 hw with hw | hw
    · exact (h.free w hw).trans hle
    · rw [List.mem_singleton.1 hw]
      exact hfree
  · rw [htake]
    exact List.mem_append_right _ List.mem_cons_self

/-- The loop waits up to the requested bound, or for all watches. The induction is on the watches
that are left. -/
theorem waitPending_spec {watches : List Watch} {requested : ℕ} {allowWait : Bool} {gpu : ℕ → ℕ}
    {rest : List Watch} {waitCursor waitBound gpuTick : ℕ}
    (h : WaitedTo watches waitCursor waitBound gpuTick)
    (hrest : watches.drop waitCursor = rest) :
    let waited := waitPending requested allowWait gpu rest waitCursor waitBound gpuTick
    gpuTick ≤ waited.gpuTick ∧
      WaitedTo watches waited.waitCursor waited.waitBound waited.gpuTick ∧
      (waited.ok = true → requested ≤ waited.waitBound ∨ watches.length ≤ waited.waitCursor) := by
  induction rest generalizing waitCursor waitBound gpuTick with
  | nil =>
    have hlength : watches.length ≤ waitCursor := List.drop_eq_nil_iff.1 hrest
    exact ⟨le_rfl, h, fun _ => .inr hlength⟩
  | cons watch rest ih =>
    dsimp only
    unfold waitPending
    split
    · dsimp only
      have hpolled := le_refreshFor watch.tick gpuTick (gpu waitCursor)
      split
      · exact ⟨hpolled, h.mono hpolled, fun hok => nomatch hok⟩
      · have hle := hpolled.trans (le_max_left _ watch.tick)
        have hnext := h.next hrest hle (le_max_right _ _)
        have hdrop : watches.drop (waitCursor + 1) = rest := by
          rw [← List.tail_drop, hrest, List.tail_cons]
        obtain ⟨hmono, hwaited, hok⟩ := ih hnext hdrop
        exact ⟨hle.trans hmono, hwaited, hok⟩
    · next hbound => exact ⟨le_rfl, h, fun _ => .inl (not_lt.1 hbound)⟩

/-- The watches that count of a vector with a mark. -/
def live (watches : List Watch) : Option ℕ → List Watch
  | none => []
  | some mark => watches.take mark

theorem waitPendingOperations_spec {watches : List Watch} {mark : Option ℕ}
    {waitCursor waitBound gpuTick : ℕ} (h : WaitedTo (live watches mark) waitCursor waitBound gpuTick)
    (requested : ℕ) (allowWait : Bool) (gpu : ℕ → ℕ) :
    let waited := waitPendingOperations watches mark requested allowWait waitCursor waitBound gpuTick
      gpu
    gpuTick ≤ waited.gpuTick ∧
      WaitedTo (live watches mark) waited.waitCursor waited.waitBound waited.gpuTick ∧
      (waited.ok = true →
        requested ≤ waited.waitBound ∨ (live watches mark).length ≤ waited.waitCursor) := by
  cases mark with
  | none => exact ⟨le_rfl, h, fun _ => .inr (Nat.zero_le _)⟩
  | some mark => exact waitPending_spec h rfl

/-- After the wait, a range of the lap is free or lies behind the requested bound. -/
theorem WaitedTo.free_or_behind {watches : List Watch} {waitCursor waitBound gpuTick requested : ℕ}
    (h : WaitedTo watches waitCursor waitBound gpuTick)
    (hdone : requested ≤ waitBound ∨ watches.length ≤ waitCursor) {range : Committed}
    (hlies : Lies range watches) : range.tick ≤ gpuTick ∨ requested ≤ range.lower := by
  obtain ⟨before, watch, after, rfl, htick, -, hbefore⟩ := hlies
  by_cases hcursor : before.length < waitCursor
  · -- the watch of the range has been waited for
    refine .inl (htick ▸ h.free watch ?_)
    rw [List.take_append, List.mem_append]
    refine .inr ?_
    obtain ⟨n, hn⟩ := Nat.exists_eq_add_of_lt hcursor
    rw [hn, show before.length + n + 1 - before.length = n + 1 by omega, List.take_succ_cons]
    exact List.mem_cons_self
  · -- the wait has stopped in front of it
    have htake : (before ++ watch :: after).take waitCursor = before.take waitCursor :=
      List.take_append_of_le_length (not_lt.1 hcursor)
    rcases hdone with hbound | hall
    · refine .inr (hbound.trans ?_)
      rcases h.bound with hzero | ⟨w, hw, hw'⟩
      · exact hzero ▸ Nat.zero_le _
      · rw [htake] at hw
        exact hw' ▸ hbefore w (List.mem_of_mem_take hw)
    · rw [List.length_append, List.length_cons] at hall
      omega

/-- A wait that got past a nonempty request has waited for a watch. -/
theorem WaitedTo.cursor_pos {watches : List Watch} {waitCursor waitBound gpuTick requested : ℕ}
    (h : WaitedTo watches waitCursor waitBound gpuTick)
    (hdone : requested ≤ waitBound ∨ watches.length ≤ waitCursor) (hne : watches ≠ [])
    (hrequested : 0 < requested) : 0 < waitCursor := by
  rcases hdone with hbound | hall
  · rcases h.bound with hzero | ⟨w, hw, -⟩
    · omega
    · refine Nat.pos_of_ne_zero fun hzero => ?_
      rw [hzero, List.take_zero] at hw
      cases hw
  · exact (List.length_pos_iff.2 hne).trans_le hall

/-! ### The watches that count -/

namespace Ring

/-- The watches of the lap under way. -/
def current (ring : Ring) : List Watch :=
  ring.currentWatches.take ring.currentWatchCursor

/-- The watches of the lap before. -/
def previous (ring : Ring) : List Watch :=
  live ring.previousWatches ring.invalidationMark

end Ring

/-- What protects a committed range: a watch of the lap under way or of the lap before, or, for a
range of an older lap, the ticks of the lap before. -/
def Protected (ring : Ring) (range : Committed) : Prop :=
  Lies range ring.current ∨ Lies range ring.previous ∨
    ring.previous ≠ [] ∧ ∀ w ∈ ring.previous, range.tick ≤ w.tick

/-- The ring between two calls, with the ranges committed so far. -/
structure Sound (ranges : List Committed) (s : State) : Prop where
  cursor_le : s.ring.currentWatchCursor ≤ s.ring.currentWatches.length
  mark_le : ∀ mark, s.ring.invalidationMark = some mark → mark ≤ s.ring.previousWatches.length
  /-- A lap in which nothing was committed has not left offset zero. -/
  offset_pos : 0 < s.ring.offset → 0 < s.ring.currentWatchCursor
  /-- Ticks never fall. -/
  ticks : (s.ring.previous ++ s.ring.current).Pairwise (·.tick ≤ ·.tick)
  tick_le : ∀ w ∈ s.ring.previous ++ s.ring.current, w.tick ≤ s.currentTick
  /-- The lap under way has got to the offset. -/
  current_le : ∀ w ∈ s.ring.current, w.upperBound ≤ s.ring.offset
  waited : WaitedTo s.ring.previous s.ring.waitCursor s.ring.waitBound s.gpuTick
  ranges : ∀ range ∈ ranges, Protected s.ring range

/-- There is a watch for the committed ranges of the lap, and none of them ends behind it. -/
theorem Lies.upper_le {range : Committed} {watches : List Watch} {bound : ℕ}
    (h : Lies range watches) (hbound : ∀ w ∈ watches, w.upperBound ≤ bound) :
    range.upper ≤ bound := by
  obtain ⟨before, watch, after, rfl, -, hupper, -⟩ := h
  exact hupper.trans (hbound watch (List.mem_append_right _ List.mem_cons_self))

/-- The tick of a protected range is the tick of a watch. -/
theorem Lies.tick_mem {range : Committed} {watches : List Watch} (h : Lies range watches) :
    ∃ w ∈ watches, w.tick = range.tick := by
  obtain ⟨before, watch, after, rfl, htick, -⟩ := h
  exact ⟨watch, List.mem_append_right _ List.mem_cons_self, htick⟩

/-- Later watches of the lap do not matter. -/
theorem Lies.append {range : Committed} {watches : List Watch} (h : Lies range watches)
    (more : List Watch) : Lies range (watches ++ more) := by
  obtain ⟨before, watch, after, rfl, hrange⟩ := h
  exact ⟨before, watch, after ++ more, by simp, hrange⟩

/-- The last watch of the lap may be extended. -/
theorem Lies.extend {range : Committed} {watches : List Watch} {last : Watch} {bound : ℕ}
    (h : Lies range (watches ++ [last])) (hbound : last.upperBound ≤ bound) :
    Lies range (watches ++ [⟨last.tick, bound⟩]) := by
  obtain ⟨before, watch, after, hsplit, htick, hupper, hbefore⟩ := h
  rcases List.eq_nil_or_concat after with rfl | ⟨after, w, rfl⟩
  · -- the range lies in the last watch
    obtain ⟨rfl, hlast⟩ := List.append_inj' hsplit rfl
    obtain rfl := (List.cons.inj hlast).1
    exact ⟨watches, _, [], rfl, htick, hupper.trans hbound, hbefore⟩
  · rw [List.concat_eq_append, ← List.cons_append, ← List.append_assoc] at hsplit
    obtain ⟨rfl, -⟩ := List.append_inj' hsplit rfl
    exact Lies.append ⟨before, watch, after, rfl, htick, hupper, hbefore⟩ _

theorem Sound.new (gpuTick currentTick : ℕ) : Sound [] (State.new gpuTick currentTick) where
  cursor_le := Nat.zero_le _
  mark_le _ h := nomatch h
  offset_pos h := absurd h (lt_irrefl 0)
  ticks := List.Pairwise.nil
  tick_le _ h := absurd h List.not_mem_nil
  current_le _ h := absurd h List.not_mem_nil
  waited := .zero _ _
  ranges _ h := absurd h List.not_mem_nil

/-! ### Commit -/

/-- What a `Commit` does to the watches of the lap: the last one is extended if it has the tick,
and otherwise a new one is put behind it. -/
theorem commit_current {ring : Ring} (h : ring.currentWatchCursor ≤ ring.currentWatches.length)
    (tick : ℕ) :
    (∃ watches last, ring.current = watches ++ [last] ∧ last.tick = tick ∧
        (ring.commit tick).current = watches ++ [⟨tick, ring.offset + ring.mappedSize⟩]) ∨
      (ring.commit tick).current =
        ring.current ++ [⟨tick, ring.offset + ring.mappedSize⟩] := by
  unfold Ring.commit
  dsimp only
  split
  · next hextends =>
    refine .inl ?_
    simp only [Ring.extends?, ne_eq, Bool.decide_and, Bool.and_eq_true, decide_eq_true_eq] at hextends
    obtain ⟨hpos, htick⟩ := hextends
    have hlt : ring.currentWatchCursor - 1 < ring.currentWatches.length := by omega
    refine ⟨ring.currentWatches.take (ring.currentWatchCursor - 1),
      ring.currentWatches[ring.currentWatchCursor - 1], ?_, ?_, ?_⟩
    · rw [Ring.current, List.take_append_getElem hlt, Nat.sub_add_cancel (Nat.pos_of_ne_zero hpos)]
    · rwa [List.getD_eq_getElem _ _ hlt] at htick
    · obtain ⟨n, hn⟩ := Nat.exists_eq_add_one_of_ne_zero hpos
      rw [Ring.current]
      dsimp only
      rw [hn, Nat.add_sub_cancel] at hlt ⊢
      rw [List.take_add_one, List.take_set_of_le le_rfl, List.getElem?_set_self hlt]
      rfl
  · refine .inr ?_
    -- the vector has room for one more watch
    have hroom : ring.currentWatchCursor <
        (if ring.currentWatches.length ≤ ring.currentWatchCursor + 1 then
          reserveWatches ring.currentWatches watchesReserveChunk
        else ring.currentWatches).length := by
      split
      · unfold reserveWatches watchesReserveChunk
        rw [List.length_append, List.length_replicate]
        omega
      · omega
    have hsame : (if ring.currentWatches.length ≤ ring.currentWatchCursor + 1 then
          reserveWatches ring.currentWatches watchesReserveChunk
        else ring.currentWatches).take ring.currentWatchCursor =
          ring.currentWatches.take ring.currentWatchCursor := by
      split
      · exact List.take_append_of_le_length h
      · rfl
    unfold Ring.current
    dsimp only
    rw [List.take_add_one, List.take_set_of_le le_rfl, hsame, List.getElem?_set_self hroom]
    rfl

/-- A `Commit` leaves the lap before, and moves the offset behind the range. -/
theorem commit_frame (ring : Ring) (tick : ℕ) :
    (ring.commit tick).offset = ring.offset + ring.mappedSize ∧
      (ring.commit tick).invalidationMark = ring.invalidationMark ∧
      (ring.commit tick).previousWatches = ring.previousWatches ∧
      (ring.commit tick).waitCursor = ring.waitCursor ∧
      (ring.commit tick).waitBound = ring.waitBound := by
  unfold Ring.commit
  dsimp only
  split <;> exact ⟨rfl, rfl, rfl, rfl, rfl⟩

theorem commit_previous (ring : Ring) (tick : ℕ) :
    (ring.commit tick).previous = ring.previous := by
  unfold Ring.previous
  rw [(commit_frame ring tick).2.1, (commit_frame ring tick).2.2.1]

theorem commit_cursor {ring : Ring} (h : ring.currentWatchCursor ≤ ring.currentWatches.length)
    (tick : ℕ) :
    0 < (ring.commit tick).currentWatchCursor ∧
      (ring.commit tick).currentWatchCursor ≤ (ring.commit tick).currentWatches.length := by
  unfold Ring.commit
  dsimp only
  split
  · next hextends =>
    simp only [Ring.extends?, ne_eq, Bool.decide_and, Bool.and_eq_true, decide_eq_true_eq] at hextends
    rw [List.length_set]
    exact ⟨Nat.pos_of_ne_zero hextends.1, h⟩
  · rw [List.length_set]
    refine ⟨Nat.succ_pos _, ?_⟩
    change ring.currentWatchCursor + 1 ≤ _
    split
    · unfold reserveWatches watchesReserveChunk
      rw [List.length_append, List.length_replicate]
      omega
    · omega

/-- The range that is committed, and the earlier ones, are protected by the new watches. -/
theorem commit_protected {ring : Ring} {tick : ℕ} {watches : List Watch} {range : Committed}
    (hcurrent : ∀ w ∈ ring.current, w.upperBound ≤ ring.offset)
    (hwatches : (∃ last, ring.current = watches ++ [last] ∧ last.tick = tick) ∨
      ring.current = watches)
    (hrange : range = ⟨ring.offset, ring.offset + ring.mappedSize, tick⟩ ∨
      Lies range ring.current) :
    Lies range (watches ++ [⟨tick, ring.offset + ring.mappedSize⟩]) := by
  rcases hrange with rfl | hlies
  · refine ⟨watches, _, [], rfl, rfl, le_rfl, fun w hw => hcurrent w ?_⟩
    rcases hwatches with ⟨last, hlast, -⟩ | rfl
    · rw [hlast]
      exact List.mem_append_left _ hw
    · exact hw
  · rcases hwatches with ⟨last, hlast, rfl⟩ | rfl
    · rw [hlast] at hlies hcurrent
      have hle := hcurrent last (List.mem_append_right _ List.mem_cons_self)
      exact hlies.extend (hle.trans (Nat.le_add_right _ _))
    · exact hlies.append _

theorem Sound.commit {ranges : List Committed} {s : State} (h : Sound ranges s) :
    Sound (ranges ++ [⟨s.ring.offset, s.ring.offset + s.ring.mappedSize, s.currentTick⟩])
      { s with ring := s.ring.commit s.currentTick } := by
  obtain ⟨hoffset, hmark, hprevious, hcursor, hbound⟩ := commit_frame s.ring s.currentTick
  have hsame := commit_previous s.ring s.currentTick
  obtain ⟨hpos, hle⟩ := commit_cursor h.cursor_le s.currentTick
  -- in either case the watches are some of the old ones and a last one
  obtain ⟨watches, hwatches, hcurrent⟩ : ∃ watches,
      ((∃ last, s.ring.current = watches ++ [last] ∧ last.tick = s.currentTick) ∨
        s.ring.current = watches) ∧
      (s.ring.commit s.currentTick).current =
        watches ++ [⟨s.currentTick, s.ring.offset + s.ring.mappedSize⟩] := by
    rcases commit_current h.cursor_le s.currentTick with ⟨watches, last, hlast, htick, hnew⟩ | hnew
    · exact ⟨watches, .inl ⟨last, hlast, htick⟩, hnew⟩
    · exact ⟨_, .inr rfl, hnew⟩
  have hsub : watches.Sublist s.ring.current := by
    rcases hwatches with ⟨last, hlast, -⟩ | rfl
    · rw [hlast]
      exact List.sublist_append_left _ _
    · exact List.Sublist.refl _
  have hticks := h.ticks.sublist ((List.Sublist.refl s.ring.previous).append hsub)
  have htickLe : ∀ w ∈ s.ring.previous ++ watches, w.tick ≤ s.currentTick := fun w hw =>
    h.tick_le w (((List.Sublist.refl s.ring.previous).append hsub).subset hw)
  refine
    { cursor_le := hle
      mark_le := fun mark hsome => ?_
      offset_pos := fun _ => hpos
      ticks := ?_
      tick_le := fun w hw => ?_
      current_le := fun w hw => ?_
      waited := ?_
      ranges := fun range hrange => ?_ }
  · dsimp only at hsome ⊢
    rw [hmark] at hsome
    exact hprevious ▸ h.mark_le mark hsome
  · dsimp only
    rw [hsame, hcurrent, ← List.append_assoc, List.pairwise_append]
    exact ⟨hticks, List.pairwise_singleton _ _, fun w hw w' hw' =>
      List.mem_singleton.1 hw' ▸ htickLe w hw⟩
  · dsimp only at hw
    rw [hsame, hcurrent, ← List.append_assoc] at hw
    rcases List.mem_append.1 hw with hw | hw
    · exact htickLe w hw
    · exact List.mem_singleton.1 hw ▸ le_rfl
  · dsimp only at hw ⊢
    rw [hcurrent] at hw
    rw [hoffset]
    rcases List.mem_append.1 hw with hw | hw
    · exact (h.current_le w (hsub.subset hw)).trans (Nat.le_add_right _ _)
    · exact List.mem_singleton.1 hw ▸ le_rfl
  · dsimp only
    rw [hsame, hcursor, hbound]
    exact h.waited
  · unfold Protected
    dsimp only
    rw [hsame, hcurrent]
    rcases List.mem_append.1 hrange with hrange | hrange
    · rcases h.ranges range hrange with hlies | hother
      · exact .inl (commit_protected h.current_le hwatches (.inr hlies))
      · exact .inr hother
    · exact .inl (commit_protected h.current_le hwatches (.inl (List.mem_singleton.1 hrange)))

/-! ### Map -/

/-- **The wait is enough**: with the lap before waited for up to the end of a reservation at the
offset, a committed range is free, or apart from the reservation. -/
theorem Sound.apart {ranges : List Committed} {s : State} (h : Sound ranges s)
    (hdone : s.ring.offset + s.ring.mappedSize ≤ s.ring.waitBound ∨
      s.ring.previous.length ≤ s.ring.waitCursor) {range : Committed} (hrange : range ∈ ranges) :
    range.tick ≤ s.gpuTick ∨ range.upper ≤ s.ring.offset ∨
      s.ring.offset + s.ring.mappedSize ≤ range.lower := by
  rcases h.ranges range hrange with hlies | hlies | ⟨hne, hticks⟩
  · exact .inr (.inl (hlies.upper_le h.current_le))
  · exact (h.waited.free_or_behind hdone hlies).imp id .inr
  · rcases Nat.eq_zero_or_pos (s.ring.offset + s.ring.mappedSize) with hzero | hpos
    · exact .inr (.inr (hzero ▸ Nat.zero_le _))
    · -- a watch of the lap before has been waited for, and the range is older
      have hcursor := h.waited.cursor_pos hdone hne hpos
      obtain ⟨first, rest, hfirst⟩ := List.exists_cons_of_ne_nil hne
      have hmem : first ∈ s.ring.previous.take s.ring.waitCursor := by
        rw [hfirst]
        obtain ⟨n, hn⟩ := Nat.exists_eq_add_one_of_ne_zero (Nat.pos_iff_ne_zero.1 hcursor)
        rw [hn, List.take_succ_cons]
        exact List.mem_cons_self
      exact .inl ((hticks first (List.mem_of_mem_take hmem)).trans (h.waited.free first hmem))

/-- The GPU makes progress, and the scheduler goes on to later ticks. -/
theorem Sound.progress {ranges : List Committed} {s : State} (h : Sound ranges s)
    {gpuTick currentTick : ℕ} (hgpu : s.gpuTick ≤ gpuTick) (htick : s.currentTick ≤ currentTick) :
    Sound ranges { s with gpuTick := gpuTick, currentTick := currentTick } :=
  { h with
    tick_le := fun w hw => (h.tick_le w hw).trans htick
    waited := h.waited.mono hgpu }

/-- What `Map` promises about the ring, and about the range that it returns. -/
structure Handed (ranges : List Committed) (s : State) (offset mappedSize : ℕ) (m : Mapped) :
    Prop where
  sound : Sound ranges ⟨m.ring, m.gpuTick, s.currentTick⟩
  unchanged : m.offset = none → m.ring = s.ring
  handed : ∀ o, m.offset = some o → o = offset ∧ m.ring.offset = offset ∧
    m.ring.mappedSize = mappedSize ∧ (m.ring.offset + m.ring.mappedSize ≤ m.ring.waitBound ∨
      m.ring.previous.length ≤ m.ring.waitCursor)

/-- `Map` in the lap under way. -/
theorem Sound.stay {ranges : List Committed} {s : State} (h : Sound ranges s) {offset : ℕ}
    (hle : s.ring.offset ≤ offset) (hpos : 0 < offset → 0 < s.ring.offset) (mappedSize : ℕ)
    (allowWait : Bool) (gpu : ℕ → ℕ) :
    Handed ranges s offset mappedSize (s.ring.stay offset mappedSize allowWait s.gpuTick gpu) := by
  obtain ⟨hmono, hwaited, hdone⟩ :=
    waitPendingOperations_spec h.waited (offset + mappedSize) allowWait gpu
  unfold Ring.stay
  dsimp only
  split
  · next hok =>
    exact
      { sound :=
          { cursor_le := h.cursor_le
            mark_le := h.mark_le
            offset_pos := fun hoffset => h.offset_pos (hpos hoffset)
            ticks := h.ticks
            tick_le := h.tick_le
            current_le := fun w hw => (h.current_le w hw).trans hle
            waited := hwaited
            ranges := h.ranges }
        unchanged := fun hnone => nomatch hnone
        handed := fun o ho => ⟨(Option.some.inj ho).symm, rfl, rfl, hdone hok⟩ }
  · exact
      { sound := h.progress hmono le_rfl
        unchanged := fun _ => rfl
        handed := fun o ho => nomatch ho }

/-- A new lap: what protected a range in the lap under way does so in the lap before, and the
ranges of the lap before are older than the lap that is over. -/
theorem Sound.protected_wrap {ranges : List Committed} {s : State} (h : Sound ranges s)
    (hcursor : 0 < s.ring.currentWatchCursor) {range : Committed} (hrange : range ∈ ranges) :
    Lies range s.ring.current ∨
      s.ring.current ≠ [] ∧ ∀ w ∈ s.ring.current, range.tick ≤ w.tick := by
  have hne : s.ring.current ≠ [] := by
    have hlength : s.ring.current.length = s.ring.currentWatchCursor :=
      List.length_take_of_le h.cursor_le
    exact List.ne_nil_of_length_pos (hlength ▸ hcursor)
  have hbetween := (List.pairwise_append.1 h.ticks).2.2
  rcases h.ranges range hrange with hlies | hlies | ⟨hprevious, hticks⟩
  · exact .inl hlies
  · obtain ⟨watch, hwatch, htick⟩ := hlies.tick_mem
    exact .inr ⟨hne, fun w hw => htick ▸ hbetween watch hwatch w hw⟩
  · obtain ⟨watch, rest, hwatch⟩ := List.exists_cons_of_ne_nil hprevious
    have hmem : watch ∈ s.ring.previous := hwatch ▸ List.mem_cons_self
    exact .inr ⟨hne, fun w hw => (hticks watch hmem).trans (hbetween watch hmem w hw)⟩

/-- `Map` in a new lap. -/
theorem Sound.wrap {ranges : List Committed} {s : State} (h : Sound ranges s)
    (hpos : 0 < s.ring.offset) (mappedSize : ℕ) (allowWait : Bool) (gpu : ℕ → ℕ) :
    Handed ranges s 0 mappedSize (s.ring.wrap mappedSize allowWait s.gpuTick gpu) := by
  have hcursor := h.offset_pos hpos
  obtain ⟨hmono, hwaited, hdone⟩ := waitPendingOperations_spec
    (WaitedTo.zero (live s.ring.currentWatches (some s.ring.currentWatchCursor)) s.gpuTick)
    (0 + mappedSize) allowWait gpu
  unfold Ring.wrap
  dsimp only
  split
  · next hok =>
    -- no watch of the new lap counts yet
    have hticks := (List.pairwise_append.1 h.ticks).2.1
    exact
      { sound :=
          { cursor_le := Nat.zero_le _
            mark_le := fun mark hmark => Option.some.inj hmark ▸ h.cursor_le
            offset_pos := fun hzero => absurd hzero (lt_irrefl 0)
            ticks := List.pairwise_append.2
              ⟨hticks, List.Pairwise.nil, fun _ _ _ hw => absurd hw List.not_mem_nil⟩
            tick_le := fun w hw => by
              rcases List.mem_append.1 hw with hw | hw
              · exact h.tick_le w (List.mem_append_right _ hw)
              · exact absurd hw List.not_mem_nil
            current_le := fun w hw => absurd hw List.not_mem_nil
            waited := hwaited
            ranges := fun range hrange => .inr (h.protected_wrap hcursor hrange) }
        unchanged := fun hnone => nomatch hnone
        handed := fun o ho => ⟨(Option.some.inj ho).symm, rfl, rfl, hdone hok⟩ }
  · exact
      { sound := h.progress hmono le_rfl
        unchanged := fun _ => rfl
        handed := fun o ho => nomatch ho }

/-- What `Map` promises about a range that it returns. -/
structure Reserved (buffer : Buffer) (size alignment offset : ℕ) (ring : Ring) : Prop where
  offset_eq : ring.offset = offset
  size_le : size ≤ ring.mappedSize
  inside : offset + ring.mappedSize ≤ buffer.size
  aligned : alignment ≠ 0 → alignment ∣ offset
  waited : ring.offset + ring.mappedSize ≤ ring.waitBound ∨ ring.previous.length ≤ ring.waitCursor

/-- What `Map` promises. -/
structure MapSound (ranges : List Committed) (s : State) (buffer : Buffer) (size alignment : ℕ)
    (m : Mapped) : Prop where
  sound : Sound ranges ⟨m.ring, m.gpuTick, s.currentTick⟩
  unchanged : m.offset = none → m.ring = s.ring
  reserved : ∀ offset, m.offset = some offset → Reserved buffer size alignment offset m.ring

/-- A `Map` that is refused before it waits changes nothing. -/
theorem Sound.refused {ranges : List Committed} {s : State} (h : Sound ranges s) (buffer : Buffer)
    (size alignment : ℕ) :
    MapSound ranges s buffer size alignment ⟨none, s.ring, s.gpuTick⟩ where
  sound := h
  unchanged _ := rfl
  reserved _ ho := nomatch ho

theorem Handed.mapSound {ranges : List Committed} {s : State} {offset mappedSize : ℕ} {m : Mapped}
    (h : Handed ranges s offset mappedSize m) {buffer : Buffer} {size alignment : ℕ}
    (hsize : size ≤ mappedSize) (hinside : offset + mappedSize ≤ buffer.size)
    (haligned : alignment ≠ 0 → alignment ∣ offset) :
    MapSound ranges s buffer size alignment m where
  sound := h.sound
  unchanged := h.unchanged
  reserved o ho := by
    obtain ⟨rfl, hoffset, hmapped, hwaited⟩ := h.handed o ho
    exact ⟨hoffset, hmapped ▸ hsize, hmapped ▸ hinside, haligned, hwaited⟩

/-- **One `Map`** keeps the invariant, and what it returns is as it should be. -/
theorem Sound.map {ranges : List Committed} {s : State} (h : Sound ranges s) (buffer : Buffer)
    (size alignment : ℕ) (allowWait : Bool) (gpu : ℕ → ℕ) :
    MapSound ranges s buffer size alignment
      (s.ring.map buffer size alignment allowWait s.gpuTick gpu) := by
  unfold Ring.map
  split
  · exact h.refused buffer size alignment
  · split
    · exact h.refused buffer size alignment
    · next mappedSize alignment' hnormal =>
      obtain ⟨hsize, hdvd⟩ := normalizeReservation_spec hnormal
      split
      · exact h.refused buffer size alignment
      · next hfits =>
        split
        · exact h.refused buffer size alignment
        · next alignedOffset hup =>
          obtain ⟨hle, haligned⟩ := alignUp_spec hup
          -- an offset of zero is aligned already
          have hpos : 0 < alignedOffset → 0 < s.ring.offset := by
            intro hlt
            refine Nat.pos_of_ne_zero fun hzero => ?_
            rw [hzero] at hup
            rw [alignUp_zero hup] at hlt
            exact absurd hlt (lt_irrefl 0)
          split
          · next hwrap =>
            refine (h.wrap (hpos (Nat.zero_lt_of_lt hwrap)) mappedSize allowWait gpu).mapSound hsize
              ?_ fun _ => dvd_zero alignment
            rw [Nat.zero_add]
            exact not_lt.1 hfits
          · next hstay =>
            refine (h.stay hle hpos mappedSize allowWait gpu).mapSound hsize ?_ fun hne => ?_
            · omega
            · obtain ⟨hne', hdvd⟩ := hdvd hne
              exact hdvd.trans (haligned hne')

/-! ### Runs -/

/-- The ranges that have been committed. -/
def committed (events : List Event) : List Committed :=
  events.filterMap fun
    | .committed lower upper tick => some ⟨lower, upper, tick⟩
    | _ => none

/-- **One step keeps the invariant**. -/
theorem Sound.step {buffer : Buffer} {events : List Event} {s s' : State} {e : Event}
    (h : Sound (committed events) s) (hstep : Step buffer s e s') :
    Sound (committed (events ++ [e])) s' := by
  unfold committed at h ⊢
  rw [List.filterMap_append]
  cases hstep with
  | map size alignment allowWait gpu =>
    have hmap := (h.map buffer size alignment allowWait gpu).sound
    unfold Mapped.event
    split <;> simpa using hmap
  | commit hrange => exact h.commit
  | progress hgpu htick =>
    have hprogress := h.progress hgpu htick
    simpa using hprogress

/-- The invariant along a run. -/
theorem Sound.run {buffer : Buffer} {events : List Event} {gpuTick currentTick : ℕ} {s : State}
    (hrun : Run (Step buffer) (State.new gpuTick currentTick) events s) :
    Sound (committed events) s :=
  hrun.history (I := fun events s => Sound (committed events) s) (.new gpuTick currentTick)
    fun _ _ _ _ h hstep => h.step hstep

/-- A step in which `Map` returns a range. -/
theorem Step.mapped {buffer : Buffer} {s s' : State} {size alignment offset mappedSize : ℕ}
    (h : Step buffer s (.mapped size alignment offset mappedSize) s') :
    ∃ allowWait gpu, (s.ring.map buffer size alignment allowWait s.gpuTick gpu).offset = some offset ∧
      s'.ring.mappedSize = mappedSize ∧
      s' = { s with
        ring := (s.ring.map buffer size alignment allowWait s.gpuTick gpu).ring
        gpuTick := (s.ring.map buffer size alignment allowWait s.gpuTick gpu).gpuTick } := by
  generalize he : Event.mapped size alignment offset mappedSize = e at h
  cases h with
  | map size' alignment' allowWait gpu =>
    unfold Mapped.event at he
    split at he
    · next o ho =>
      cases he
      exact ⟨allowWait, gpu, ho, rfl, rfl⟩
    · cases he
  | commit => cases he
  | progress => cases he

/-- A step in which `Map` returns null. -/
theorem Step.refused {buffer : Buffer} {s s' : State} (h : Step buffer s .refused s') :
    ∃ size alignment allowWait gpu,
      (s.ring.map buffer size alignment allowWait s.gpuTick gpu).offset = none ∧
      s'.ring = (s.ring.map buffer size alignment allowWait s.gpuTick gpu).ring := by
  generalize he : Event.refused = e at h
  cases h with
  | map size alignment allowWait gpu =>
    unfold Mapped.event at he
    split at he
    · cases he
    · next ho => exact ⟨size, alignment, allowWait, gpu, ho, rfl⟩
  | commit => cases he
  | progress => cases he

/-- **A stream buffer never hands out memory in use.** In every run, the range that a `Map`
returns is inside the buffer, aligned as requested, and apart from every range committed before
whose tick is not known to be free; and a `Map` that returns null leaves the ring alone. -/
theorem map_disjoint {buffer : Buffer} {events : List Event} {gpuTick currentTick : ℕ} {s : State}
    (hrun : Run (Step buffer) (State.new gpuTick currentTick) events s) :
    (∀ size alignment offset mappedSize s',
      Step buffer s (.mapped size alignment offset mappedSize) s' →
        s'.ring.offset = offset ∧ s'.ring.mappedSize = mappedSize ∧ size ≤ mappedSize ∧
        offset + mappedSize ≤ buffer.size ∧ (alignment ≠ 0 → alignment ∣ offset) ∧
        ∀ lower upper tick, .committed lower upper tick ∈ events → s'.gpuTick < tick →
          upper ≤ offset ∨ offset + mappedSize ≤ lower) ∧
    ∀ s', Step buffer s .refused s' → s'.ring = s.ring := by
  have hsound := Sound.run hrun
  constructor
  · intro size alignment offset mappedSize s' hstep
    obtain ⟨allowWait, gpu, hoffset, rfl, rfl⟩ := hstep.mapped
    have hmap := hsound.map buffer size alignment allowWait gpu
    have hreserved := hmap.reserved offset hoffset
    refine ⟨hreserved.offset_eq, rfl, hreserved.size_le, hreserved.inside, hreserved.aligned,
      fun lower upper tick hcommitted hbusy => ?_⟩
    have hrange : ⟨lower, upper, tick⟩ ∈ committed events :=
      List.mem_filterMap.2 ⟨_, hcommitted, rfl⟩
    have hapart := hmap.sound.apart hreserved.waited hrange
    rw [← hreserved.offset_eq]
    exact hapart.resolve_left (not_le.2 hbusy)
  · intro s' hstep
    obtain ⟨size, alignment, allowWait, gpu, hnull, hring⟩ := hstep.refused
    exact hring.trans ((hsound.map buffer size alignment allowWait gpu).unchanged hnull)

/-- Eight bytes of sixteen are mapped and committed; a `Map` that is refused now leaves the ring
alone, and one that is not gets the other half. -/
theorem map_disjoint_half :
    ∃ s, Run (Step ⟨16, true, true, 64⟩) (State.new 0 1) [.mapped 8 4 0 8, .committed 0 8 1] s ∧
      ∀ offset s', Step ⟨16, true, true, 64⟩ s (.mapped 8 4 offset 8) s' → s'.gpuTick = 0 →
        8 ≤ offset := by
  have hmap : Step ⟨16, true, true, 64⟩ (State.new 0 1) (.mapped 8 4 0 8)
      ⟨{ Ring.new with mappedSize := 8 }, 0, 1⟩ := .map 8 4 true fun _ => 0
  have hfits : 0 + 8 ≤ uint64Max := by
    unfold uint64Max
    omega
  have hcommit : Step ⟨16, true, true, 64⟩ ⟨{ Ring.new with mappedSize := 8 }, 0, 1⟩
      (.committed 0 8 1) ⟨Ring.commit { Ring.new with mappedSize := 8 } 1, 0, 1⟩ := .commit hfits
  have hrun := (Run.single hmap).snoc hcommit
  refine ⟨_, hrun, fun offset s' hstep hbusy => ?_⟩
  obtain ⟨-, -, -, -, -, hapart⟩ := (map_disjoint hrun).1 _ _ _ _ _ hstep
  have hcommitted := hapart 0 8 1 (List.mem_cons_of_mem _ List.mem_cons_self) (by omega)
  omega

end Prosperismo.StreamBuffer
