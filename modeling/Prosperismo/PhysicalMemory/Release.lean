import Prosperismo.PhysicalMemory.Agreement

/-!
# Releasing, and all calls together

`Release` finds the block that contains the start of the request and leaves in
its place what lies outside of the request: nothing, a part before, a part
after, or both. `Sound.cut` is the step they share. With it every call keeps the
invariant, and `alloc_agrees` is the agreement of `Alloc` and `Available` in
every reachable state.
-/

namespace Prosperismo.PhysicalMemory

open Extent

section Release

variable {size : ℕ} {s : State} (h : Sound size s) {start len : ℕ}
include h

/-- Taking bytes from the blocks and giving them back. -/
theorem Sound.giveBack (hlen : 0 < len) {physical : BlockMap}
    (htidy : blockExtent.Tidy physical.entries)
    (hkeys : ∀ it ∈ physical.entries, it.2.startAddr = it.1)
    (hcovered : ∀ a, blockExtent.Covered physical.entries a ↔
      s.Allocated a ∧ ¬ (start ≤ a ∧ a < start + len))
    (hin : ∀ a, start ≤ a → a < start + len → s.Allocated a) :
    Sound size ⟨physical, addFreeRange s.free start len⟩ := by
  obtain ⟨hcoalesced, hfree⟩ := addFreeRange_spec h.coalesced start hlen
  refine ⟨hcoalesced, htidy, hkeys, fun a => ?_, fun a ha => h.bounded a ((hcovered a).mp ha).1⟩
  show freeExtent.Covered _ a ↔ a < size ∧ ¬ blockExtent.Covered _ a
  have hcomplement := h.complement a
  unfold State.Free at hcomplement
  rw [hfree a, hcovered a, hcomplement]
  constructor
  · rintro (⟨hlt, hnot⟩ | hinside)
    · exact ⟨hlt, fun hboth => hnot hboth.1⟩
    · exact ⟨h.bounded a (hin a hinside.1 hinside.2), fun hboth => hboth.2 hinside⟩
  · rintro ⟨hlt, hnot⟩
    by_cases hinside : start ≤ a ∧ a < start + len
    · exact Or.inr hinside
    · exact Or.inl ⟨hlt, fun hallocated => hnot ⟨hallocated, hinside⟩⟩

/-- Replacing a block by pieces of it that leave out the request. -/
theorem Sound.replace (hlen : 0 < len) {physical : BlockMap} {front upper pieces : List
    (ℕ × AllocatedBlock)} {it : ℕ × AllocatedBlock}
    (hsplit : s.physical.entries = front ++ it :: upper)
    (hentries : physical.entries = front ++ (pieces ++ upper))
    (hstart : it.1 ≤ start) (hend : start + len ≤ it.1 + it.2.size)
    (htidy : blockExtent.Tidy pieces) (hkeys : ∀ piece ∈ pieces, piece.2.startAddr = piece.1)
    (hwithin : ∀ piece ∈ pieces, it.1 ≤ piece.1 ∧ piece.1 + piece.2.size ≤ it.1 + it.2.size)
    (hcovered : ∀ a, blockExtent.Covered pieces a ↔ (it.1 ≤ a ∧ a < it.1 + it.2.size) ∧
      ¬ (start ≤ a ∧ a < start + len)) :
    Sound size ⟨physical, addFreeRange s.free start len⟩ := by
  have hold := h.disjoint
  have hmem : ∀ a, (it.1 ≤ a ∧ a < it.1 + it.2.size) → s.Allocated a := fun a ha =>
    ⟨it, hsplit ▸ List.mem_append_right front List.mem_cons_self, block_covers_iff.mpr ha⟩
  rw [hsplit] at hold
  refine h.giveBack hlen (hentries ▸ hold.replace htidy hwithin) (fun i hi => ?_) (fun a => ?_)
    fun a hlo hhi => hmem a ⟨hstart.trans hlo, hhi.trans_le hend⟩
  · have holdKeys := h.keys
    rw [hsplit] at holdKeys
    rw [hentries] at hi
    obtain hi | hi := List.mem_append.mp hi
    · exact holdKeys i (List.mem_append_left _ hi)
    · obtain hi | hi := List.mem_append.mp hi
      · exact hkeys i hi
      · exact holdKeys i (List.mem_append_right _ (List.mem_cons_of_mem it hi))
  · rw [hentries, hold.covered_replace hwithin, hcovered a, State.Allocated, hsplit,
      block_covers_iff]
    constructor
    · rintro (⟨hblock, hout⟩ | ⟨hallocated, hother⟩)
      · exact ⟨⟨it, List.mem_append_right front List.mem_cons_self, hblock⟩, hout⟩
      · exact ⟨hallocated, by omega⟩
    · rintro ⟨hallocated, hout⟩
      by_cases hblock : it.1 ≤ a ∧ a < it.1 + it.2.size
      · exact Or.inl ⟨hblock, hout⟩
      · exact Or.inr ⟨hallocated, hblock⟩

omit h in
theorem tidy_block {it : ℕ × AllocatedBlock} (hpos : 0 < it.2.size) : blockExtent.Tidy [it] :=
  tidy_cons.mpr ⟨Nat.lt_add_of_pos_right hpos, Tidy.nil, fun _ hj => absurd hj List.not_mem_nil⟩

omit h in
theorem covered_block {it : ℕ × AllocatedBlock} {a : ℕ} :
    blockExtent.Covered [it] a ↔ it.1 ≤ a ∧ a < it.1 + it.2.size := by
  rw [covered_cons, block_covers_iff]
  simp only [covered_nil, or_false]

/-- What is left of a block before a position: nothing, or a block that ends
there. -/
def Before (it : ℕ × AllocatedBlock) (start : ℕ) (pieces : List (ℕ × AllocatedBlock)) : Prop :=
  (start = it.1 ∧ pieces = []) ∨
    (it.1 < start ∧ ∃ b, pieces = [(it.1, b)] ∧ b.startAddr = it.1 ∧ b.size = start - it.1)

/-- What is left of a block from a position on: nothing, or a block that starts
there. -/
def After (it : ℕ × AllocatedBlock) (stop : ℕ) (pieces : List (ℕ × AllocatedBlock)) : Prop :=
  (stop = it.1 + it.2.size ∧ pieces = []) ∨
    (stop < it.1 + it.2.size ∧ ∃ b, pieces = [(stop, b)] ∧ b.startAddr = stop ∧
      b.size = it.1 + it.2.size - stop)

/-- A part of a block, as the pieces that are left of it. -/
structure Part (first last : ℕ) (pieces : List (ℕ × AllocatedBlock)) : Prop where
  tidy : blockExtent.Tidy pieces
  keys : ∀ piece ∈ pieces, piece.2.startAddr = piece.1
  within : ∀ piece ∈ pieces, first ≤ piece.1 ∧ piece.1 + piece.2.size ≤ last
  covered : ∀ a, blockExtent.Covered pieces a ↔ first ≤ a ∧ a < last

omit h in
theorem part_nil (first : ℕ) : Part first first [] where
  tidy := Tidy.nil
  keys := fun _ hp => absurd hp List.not_mem_nil
  within := fun _ hp => absurd hp List.not_mem_nil
  covered := fun a => by
    simp only [covered_nil, false_iff]
    omega

omit h in
theorem part_singleton {first last : ℕ} (hlt : first < last) {b : AllocatedBlock}
    (hkey : b.startAddr = first) (hsize : b.size = last - first) : Part first last [(first, b)] where
  tidy := tidy_block (by show 0 < b.size; omega)
  keys := fun _ hp => by rw [List.mem_singleton.mp hp]; exact hkey
  within := fun _ hp => by
    rw [List.mem_singleton.mp hp]
    exact ⟨le_rfl, by show first + b.size ≤ last; omega⟩
  covered := fun a => by
    rw [covered_block]
    show first ≤ a ∧ a < first + b.size ↔ _
    omega

omit h in
theorem Before.part {it : ℕ × AllocatedBlock} {start : ℕ} {pieces : List (ℕ × AllocatedBlock)}
    (hbefore : Before it start pieces) : Part it.1 start pieces := by
  obtain ⟨rfl, rfl⟩ | ⟨hlt, b, rfl, hkey, hsize⟩ := hbefore
  · exact part_nil _
  · exact part_singleton hlt hkey hsize

omit h in
theorem After.part {it : ℕ × AllocatedBlock} {stop : ℕ} {pieces : List (ℕ × AllocatedBlock)}
    (hafter : After it stop pieces) : Part stop (it.1 + it.2.size) pieces := by
  obtain ⟨rfl, rfl⟩ | ⟨hlt, b, rfl, hkey, hsize⟩ := hafter
  · exact part_nil _
  · exact part_singleton hlt hkey hsize

/-- **What every shape of `Release` does**: a block is replaced by its part before
the request and its part after it. -/
theorem Sound.cut (hlen : 0 < len) {physical : BlockMap} {front upper left right : List
    (ℕ × AllocatedBlock)} {it : ℕ × AllocatedBlock}
    (hsplit : s.physical.entries = front ++ it :: upper)
    (hstart : it.1 ≤ start) (hend : start + len ≤ it.1 + it.2.size)
    (hleft : Before it start left) (hright : After it (start + len) right)
    (hentries : physical.entries = front ++ (left ++ right ++ upper)) :
    Sound size ⟨physical, addFreeRange s.free start len⟩ := by
  have L := hleft.part
  have R := hright.part
  refine h.replace hlen hsplit hentries hstart hend
    (tidy_append.mpr ⟨L.tidy, R.tidy, fun i hi j hj => ?_⟩) (fun piece hp => ?_)
    (fun piece hp => ?_) fun a => ?_
  · have hi' : i.1 + i.2.size ≤ start := (L.within i hi).2
    have hj' : start + len ≤ j.1 := (R.within j hj).1
    show i.1 + i.2.size ≤ j.1
    omega
  · exact (List.mem_append.mp hp).elim (L.keys piece) (R.keys piece)
  · obtain hp | hp := List.mem_append.mp hp
    · have := L.within piece hp
      omega
    · have := R.within piece hp
      omega
  · rw [covered_append, L.covered a, R.covered a]
    omega

/-- **`Release`** keeps the invariant. -/
theorem Sound.release (hlen : 0 < len) : Sound size (PhysicalMemory.release s start len).1 := by
  unfold PhysicalMemory.release
  cases hlast : (s.physical.upTo start).getLast? with
  | none => exact h
  | some it =>
    obtain ⟨front, hfront⟩ := List.getLast?_eq_some_iff.mp hlast
    have hsplit : s.physical.entries = front ++ it :: s.physical.upperBound start := by
      rw [← s.physical.upTo_append_upperBound start, hfront, List.append_assoc,
        List.singleton_append]
    have hit : it ∈ s.physical.entries :=
      hsplit ▸ List.mem_append_right front List.mem_cons_self
    have hkey : it.2.startAddr = it.1 := h.keys it hit
    have hsorted := s.physical.sorted
    have htidy := h.disjoint
    rw [hsplit] at hsorted htidy
    have hbefore : ∀ x ∈ front, x.1 < it.1 := fun x hx =>
      (List.pairwise_append.mp hsorted).2.2 x hx it List.mem_cons_self
    have hafter : ∀ x ∈ s.physical.upperBound start, it.1 + it.2.size ≤ x.1 := fun x hx =>
      (tidy_cons.mp (tidy_append.mp htidy).2.1).2.2 x hx
    have herase := OrderedMap.erase_of_split hsplit
    -- the part before the request, and the part after it
    have hleft : it.1 < start → Before it start [(it.1, it.2.shorten start)] := fun hlt =>
      Or.inr ⟨hlt, _, rfl, hkey, by rw [← hkey]; rfl⟩
    have hupdate := OrderedMap.update_of_split (fun b => b.shorten start) hsplit
    dsimp only
    split
    · exact h
    · rename_i hguard
      simp only [hkey, not_or, not_lt, not_le] at hguard
      obtain ⟨-, hstart, hin, hroom⟩ := hguard
      have hend : start + len ≤ it.1 + it.2.size := by omega
      have hbeyond : ∀ x ∈ s.physical.upperBound start, start + len ≤ x.1 := fun x hx =>
        hend.trans (hafter x hx)
      split
      · exact h.cut hlen hsplit hstart hend (Or.inl ⟨by omega, rfl⟩) (Or.inl ⟨by omega, rfl⟩) herase
      · split
        · -- a part in the middle
          rename_i hmiddle
          rw [hkey] at hmiddle
          refine h.cut hlen hsplit hstart hend (hleft hmiddle.1) (Or.inr ⟨hmiddle.2,
            it.2.right (start + len), rfl, rfl, by rw [← hkey]; rfl⟩) ?_
          rw [List.append_cons] at hupdate
          rw [OrderedMap.emplace_of_split _ hupdate (fun x hx => ?_) fun x hx => ?_]
          · simp only [List.append_assoc, List.singleton_append]
            rfl
          · show x.1 < start + len
            obtain hx | hx := List.mem_append.mp hx
            · have := hbefore x hx
              omega
            · rw [List.mem_singleton.mp hx]
              show it.1 < start + len
              omega
          · show start + len < x.1
            have := hafter x hx
            omega
        · split
          · -- the first part of the block
            rename_i hfirst
            rw [hkey] at hfirst
            have hstop : it.2.startAddr + len = start + len := by omega
            refine h.cut hlen hsplit hstart hend (Or.inl ⟨hfirst.1, rfl⟩) (Or.inr ⟨by omega,
              it.2.remaining len, rfl, hstop, ?_⟩) ?_
            · show it.2.size - len = _
              omega
            · show (OrderedMap.emplace _ (it.2.startAddr + len) _).entries = _
              rw [hstop, OrderedMap.emplace_of_split _ herase (fun x hx => ?_) fun x hx => ?_]
              · rfl
              · have := hbefore x hx
                omega
              · have := hafter x hx
                omega
          · split
            · -- the last part of the block
              rename_i hlastPart
              rw [hkey] at hlastPart
              refine h.cut hlen hsplit hstart hend (hleft hlastPart.1)
                (Or.inl ⟨hlastPart.2, rfl⟩) ?_
              rw [hupdate, List.append_nil, List.singleton_append]
            · exact h

/-- **`ReleasePoolExpansion`** keeps the invariant. -/
theorem Sound.releasePoolExpansion (physAddr : ℕ) :
    Sound size (PhysicalMemory.releasePoolExpansion s physAddr len).1 := by
  unfold PhysicalMemory.releasePoolExpansion
  cases hfind : s.physical.entries.find? fun it => decide (it.1 = physAddr) with
  | none => exact h
  | some it =>
    have hit := List.mem_of_find?_eq_some hfind
    have hkey : it.1 = physAddr := by simpa using List.find?_some hfind
    dsimp only
    split
    · exact h
    · rename_i hguard
      simp only [not_or, ne_eq, not_not] at hguard
      obtain ⟨front, upper, hsplit⟩ := List.append_of_mem hit
      have hpos : it.1 < it.1 + it.2.size := h.disjoint.proper it hit
      have hlen : 0 < len := by omega
      rw [← hkey]
      exact h.cut hlen hsplit le_rfl (by omega) (Or.inl ⟨rfl, rfl⟩) (Or.inl ⟨by omega, rfl⟩)
        (OrderedMap.erase_of_split hsplit)

end Release

/-! ### Runs -/

/-- What the callers of the methods see to: a request has a byte. -/
def Call.Valid : Call → Prop
  | .alloc _ _ len _ _ _ => 0 < len
  | .release _ len => 0 < len
  | .releasePoolExpansion _ _ => True

/-- Every call keeps the invariant and returns. -/
theorem Call.apply_spec {size : ℕ} {s : State} (h : Sound size s) :
    ∀ {c : Call}, c.Valid → ∃ s', c.apply size s = some s' ∧ Sound size s'
  | .alloc searchStart searchEnd len alignment memoryType poolExpansion, hvalid => by
    obtain ⟨s', r, halloc, hsound, -⟩ := h.alloc_spec searchStart searchEnd hvalid alignment
      memoryType poolExpansion
    exact ⟨s', congrArg (Option.map Prod.fst) halloc, hsound⟩
  | .release _ _, hvalid => ⟨_, rfl, h.release hvalid⟩
  | .releasePoolExpansion physAddr _, _ => ⟨_, rfl, h.releasePoolExpansion physAddr⟩

/-- Every reachable state has the invariant. -/
theorem sound_run {size : ℕ} (hsize : 0 < size) {calls : List Call} (hvalid : ∀ c ∈ calls, c.Valid) :
    ∃ s, run size calls = some s ∧ Sound size s := by
  have hfold : ∀ (calls : List Call) (s : State), Sound size s → (∀ c ∈ calls, c.Valid) →
      ∃ s', calls.foldlM (Call.apply size) s = some s' ∧ Sound size s' := by
    intro calls
    induction calls with
    | nil => exact fun s h _ => ⟨s, rfl, h⟩
    | cons c calls ih =>
      intro s h hvalid
      obtain ⟨s', happly, h'⟩ := c.apply_spec h (hvalid c List.mem_cons_self)
      obtain ⟨s'', hrest, h''⟩ := ih s' h' fun d hd => hvalid d (List.mem_cons_of_mem c hd)
      refine ⟨s'', ?_, h''⟩
      rw [List.foldlM_cons, happly]
      exact hrest
  exact hfold calls (initial size) (sound_initial hsize) hvalid

/-- **`Alloc` and `Available` agree.** After any calls the free ranges are
sorted and coalesced, and complementary to the blocks in `[0, Size())`; for every
window, alignment and `len`, `Alloc` succeeds exactly if `Available` reports a
size of at least `len`, and then the block lies in the window, is aligned and
was free, and no other byte changes. -/
theorem alloc_agrees (flexibleMemorySize : ℕ) (hflexible : flexibleMemorySize < totalSize)
    (calls : List Call) (hvalid : ∀ c ∈ calls, c.Valid) :
    ∃ s, run (sizeOf flexibleMemorySize) calls = some s ∧ Sound (sizeOf flexibleMemorySize) s ∧
      ∀ searchStart searchEnd len alignment memoryType poolExpansion, 0 < len →
        ∃ s' r, alloc (sizeOf flexibleMemorySize) s searchStart searchEnd len alignment memoryType
            poolExpansion = some (s', r) ∧
          (r.isSome ↔ ∃ addr room, available (sizeOf flexibleMemorySize) s searchStart searchEnd
            alignment = some (addr, room) ∧ len ≤ room) ∧
          ∀ addr, r = some addr →
            Placed (sizeOf flexibleMemorySize) s s' searchStart searchEnd len alignment addr := by
  obtain ⟨s, hrun, h⟩ := sound_run (Nat.sub_pos_of_lt hflexible) hvalid
  refine ⟨s, hrun, h, ?_⟩
  intro searchStart searchEnd len alignment memoryType poolExpansion hlen
  obtain ⟨s', r, halloc, -, hroom, hplaced⟩ := h.alloc_spec searchStart searchEnd hlen
    alignment memoryType poolExpansion
  exact ⟨s', r, halloc, hroom.trans (available_iff hlen).symm, hplaced⟩

/-- With no flexible memory: a block of four pages, of which the first is released. -/
theorem alloc_agrees_released : ∃ s, run (sizeOf 0)
    [.alloc 0 0x10000 0x4000 0x4000 0 false, .release 0 0x1000] = some s ∧ Sound (sizeOf 0) s := by
  obtain ⟨s, hrun, h, -⟩ := alloc_agrees 0 (by decide)
    [.alloc 0 0x10000 0x4000 0x4000 0 false, .release 0 0x1000] (fun c hc => by
      obtain rfl | rfl : c = .alloc 0 0x10000 0x4000 0x4000 0 false ∨ c = .release 0 0x1000 := by
        simpa using hc
      · show 0 < 0x4000
        decide
      · show 0 < 0x1000
        decide)
  exact ⟨s, hrun, h⟩

end Prosperismo.PhysicalMemory
