import Prosperismo.Pm4.Extent
import Prosperismo.Pm4.Runs

/-!
# The parser stays in step

A command buffer is a concatenation of packets (`Spans`). The packet loop parses every packet
at a packet boundary, in every state it reaches: `packets_in_step`. A buffer is read where it
lies, so this is about the buffers whose words do not change while they are executed, whose
`COND_EXEC` packets count whole packets, and whose packets that are taken for one value have
one (`WholeBuffer`).
-/

namespace Prosperismo.Pm4

variable {σ : Type} {g : Gpu σ} {env : ℕ → σ → σ}

/-! ### Extents are whole packets -/

/-- A combined sequence is a sequence of whole packets. -/
theorem Combined.spans {words : ℕ → UInt32} {i cmdOffset n : ℕ} (hpacket : words i ≠ filler)
    (h : Combined (commandId (words i)) cmdOffset (fun k => words (i + (k + 1 + 1))) n) :
    Spans words i (i + (n + 2)) := by
  -- a packet with a header of the sequence
  have hnext : ∀ {j : ℕ} {header : UInt32}, words j = header → header ≠ filler →
      Spans words j (j + pm4Len header) := by
    rintro j header rfl hheader
    exact .single hheader
  have hfirst : ∀ {header : UInt32}, commandId (words i) = header →
      Spans words i (i + pm4Len header) := by
    rintro header rfl
    rw [pm4Len_commandId]
    exact .single hpacket
  cases h with
  | depthTarget hcmd _ hinfo hview hhtileBase hhtileSurface hsize =>
    have h10 : Spans words i (i + 10) := hfirst hcmd
    have h13 : Spans words (i + 10) (i + 13) := hnext hinfo.1 (by decide)
    have h16 : Spans words (i + 13) (i + 16) := hnext hview.1 (by decide)
    have h19 : Spans words (i + 16) (i + 19) := hnext hhtileBase.1 (by decide)
    have h22 : Spans words (i + 19) (i + 22) := hnext hhtileSurface.1 (by decide)
    have h24 : Spans words (i + 22) (i + 24) := hnext hsize (by decide)
    exact h10.trans (h13.trans (h16.trans (h19.trans (h22.trans h24))))
  | sampleLocations hcmd _ hpriority =>
    have h18 : Spans words i (i + 18) := hfirst hcmd
    have h22 : Spans words (i + 18) (i + 22) := hnext hpriority.1 (by decide)
    exact h18.trans h22
  | colorTarget _ _ hsize =>
    have htarget : Spans words i (i + (countField (commandId (words i)) + 2)) := hfirst rfl
    have hnop : Spans words (i + (countField (commandId (words i)) + 2))
        (i + (countField (commandId (words i)) + 2) + 2) := hnext hsize (by decide)
    exact htarget.trans hnop

/-- The words that `COND_EXEC` counts are whole packets. -/
def CountsPackets (words : ℕ → UInt32) (i : ℕ) : Prop :=
  opcode (words i) = 0x22 → Spans words (i + pm4Len (words i))
    (i + pm4Len (words i) + (words (i + 4) &&& 0x3fff).toNat)

/-- **A packet's extent is a run of whole packets.** -/
theorem Extent.spans {words : ℕ → UInt32} {i n : ℕ} (hpacket : words i ≠ filler)
    (hcounts : CountsPackets words i) (h : Extent (words i) (fun k => words (i + (k + 1))) n) :
    Spans words i (i + n) := by
  cases h with
  | own => exact .single hpacket
  | condExec hop =>
    rw [← Nat.add_assoc]
    exact (Spans.single hpacket).trans (hcounts hop)
  | combined _ hcombined => exact hcombined.spans hpacket

/-- A packet has a payload. -/
theorem attempt_remaining {x : σ} {c : Cursor} {a : Gpu.Attempt σ} (h : g.attempt x c = some a)
    (hpacket : g.memory x c.next ≠ filler) : 2 ≤ c.remaining := by
  simp only [Gpu.attempt, if_neg hpacket, Option.bind_eq_bind, Option.bind_eq_some_iff,
    exitIf_eq_some] at h
  obtain ⟨-, -, -, hremaining, -⟩ := h
  exact Nat.le_of_not_lt hremaining

/-- **What the loop takes at a packet.** -/
theorem attempt_extent {x : σ} {c : Cursor} {a : Gpu.Attempt σ} (h : g.attempt x c = some a)
    (hpacket : g.memory x c.next ≠ filler)
    (hone : TakenForOne (g.memory x c.next) (fun i => g.memory x (c.next + 4 * (i + 1))) →
      countField (g.memory x c.next) = 1) :
    Extent (g.memory x c.next) (fun i => g.memory x (c.next + 4 * (i + 1))) a.words := by
  rcases attempt_cases h with ⟨hfiller, -⟩ | ⟨-, rfl, -⟩ | ⟨-, reply, hreply, hperform⟩
  · exact absurd hfiller hpacket
  · exact .own
  · simp only [Gpu.handle, Option.bind_eq_bind, Option.bind_eq_some_iff] at hreply
    obtain ⟨handler, hhandler, hreply⟩ := hreply
    rw [perform_words hperform]
    exact opFunc_extent hhandler hone hreply

/-! ### Boundaries -/

/-- A command buffer: whole packets, as far as they count others too, the packets that are taken
for one value having one. -/
structure WholeBuffer (words : ℕ → UInt32) (total : ℕ) : Prop where
  whole : Spans words 0 total
  counts : ∀ i < total, Spans words 0 i → words i ≠ filler → CountsPackets words i
  one : ∀ i < total, Spans words 0 i → words i ≠ filler →
    TakenForOne (words i) (fun k => words (i + (k + 1))) → countField (words i) = 1

/-- The index of the word a cursor stands at. -/
def Cursor.index (c : Cursor) : ℕ :=
  c.total - c.remaining

/-- The cursor lies inside its buffer; if the buffer's words do not change and are whole packets,
it stands at a packet boundary, and so does the end of the advance left in it. -/
structure AtBoundary (g : Gpu σ) (c : Cursor) : Prop where
  remaining_le : c.remaining ≤ c.total
  next_eq : c.next = c.base + 4 * c.index
  boundary : ∀ words, (∀ x, ∀ i < c.total, g.memory x (c.base + 4 * i) = words i) →
    WholeBuffer words c.total → Spans words 0 c.index ∧
      (c.deferred ≤ c.remaining → Spans words 0 (c.index + c.deferred))

/-- The words an attempt takes are whole packets of the buffer. -/
theorem AtBoundary.attempt {x : σ} {c : Cursor} {a : Gpu.Attempt σ} (hc : AtBoundary g c)
    (hmore : c.remaining ≠ 0) (h : g.attempt x c = some a) (hwords : a.words ≤ c.remaining)
    {words : ℕ → UInt32} (hmemory : ∀ x, ∀ i < c.total, g.memory x (c.base + 4 * i) = words i)
    (hbuffer : WholeBuffer words c.total) : Spans words 0 (c.index + a.words) := by
  have hspans := (hc.boundary words hmemory hbuffer).1
  have hle := hc.remaining_le
  have hindex : c.index + c.remaining = c.total := Nat.sub_add_cancel hle
  have hlt : c.index < c.total := by omega
  -- the words at the cursor are those of the buffer
  have hread : ∀ k < c.remaining, g.memory x (c.next + 4 * k) = words (c.index + k) := by
    intro k hk
    rw [hc.next_eq, Nat.add_assoc, ← Nat.mul_add]
    exact hmemory x (c.index + k) (by omega)
  have hheader : g.memory x c.next = words c.index := hread 0 (Nat.pos_of_ne_zero hmore)
  refine hspans.trans ?_
  by_cases hfiller : words c.index = filler
  · have ha : a.words = 1 := by
      rcases attempt_cases h with ⟨-, rfl⟩ | ⟨hpacket, -⟩ | ⟨hpacket, -⟩
      · rfl
      · exact absurd (hheader.trans hfiller) hpacket
      · exact absurd (hheader.trans hfiller) hpacket
    rw [ha]
    exact .filler hfiller (.nil _)
  · have hpacket : g.memory x c.next ≠ filler := by rwa [hheader]
    have hpayload : ∀ k, k + 1 < c.remaining →
        g.memory x (c.next + 4 * (k + 1)) = words (c.index + (k + 1)) := fun k hk => hread _ hk
    have hextent := attempt_extent h hpacket fun hone => by
      rw [hheader] at hone ⊢
      refine hbuffer.one c.index hlt hspans hfiller ?_
      rw [TakenForOne, ← hpayload 0 (attempt_remaining h hpacket)]
      exact hone
    rw [hheader] at hextent
    refine Extent.spans hfiller (hbuffer.counts c.index hlt hspans hfiller) ?_
    exact hextent.congr fun k hk => hpayload k (Nat.lt_of_lt_of_le hk hwords)

/-- A cursor that moves on by whole packets. -/
theorem AtBoundary.move {c : Cursor} {dw : ℕ} (hc : AtBoundary g c) (hdw : dw ≤ c.remaining)
    (hspans : ∀ words, (∀ x, ∀ i < c.total, g.memory x (c.base + 4 * i) = words i) →
      WholeBuffer words c.total → Spans words 0 (c.index + dw)) :
    AtBoundary g { c.advance dw with deferred := 0 } ∧ AtBoundary g { c with deferred := dw } := by
  have hle := hc.remaining_le
  have hnext := hc.next_eq
  have hindex : ({ c.advance dw with deferred := 0 } : Cursor).index = c.index + dw := by
    simp only [Cursor.index, Cursor.advance] at hnext ⊢
    omega
  refine ⟨⟨?_, ?_, fun words hmemory hbuffer => ?_⟩, ⟨hle, hnext, fun words hmemory hbuffer => ?_⟩⟩
  · exact Nat.le_trans (Nat.sub_le _ _) hle
  · rw [hindex]
    change c.next + 4 * dw = c.base + 4 * (c.index + dw)
    rw [hnext, Nat.mul_add, Nat.add_assoc]
  · rw [hindex]
    exact ⟨hspans words hmemory hbuffer, fun _ => hspans words hmemory hbuffer⟩
  · exact ⟨(hc.boundary words hmemory hbuffer).1, fun _ => hspans words hmemory hbuffer⟩

/-- **Every packet is parsed at a packet boundary.** -/
theorem boundary_invariant : CursorInvariant g (AtBoundary g) where
  fresh buffer sizeDw := by
    have hindex : (Cursor.fresh buffer sizeDw).index = 0 := Nat.sub_self sizeDw
    refine ⟨Nat.le_refl _, ?_, fun words _ _ => ?_⟩
    · rw [hindex]
      rfl
    · rw [hindex]
      exact ⟨.nil 0, fun _ => .nil 0⟩
  moved x c a hc hdeferred hmore hattempt hwords := by
    have hmove := hc.move hwords fun words hmemory hbuffer =>
      hc.attempt hmore hattempt hwords hmemory hbuffer
    have hadvance : ({ c.advance a.words with deferred := 0 } : Cursor) = c.advance a.words := by
      simp [Cursor.advance, hdeferred]
    rwa [hadvance] at hmove
  settled c hc _ hdw :=
    (hc.move hdw fun words hmemory hbuffer => (hc.boundary words hmemory hbuffer).2 hdw).1

/-- A machine whose memory holds a colour target of eleven registers, followed by the packet of
its size. -/
def colorTargetGpu : Gpu Unit where
  tables := ⟨fun _ => false, fun _ => false, fun _ => false⟩
  memory _ addr :=
    match addr with
    | 0 => 0xC00B6900
    | 4 => 0x318
    | 52 => 0xC0001000
    | _ => 0
  predicateSkip _ := false
  ceCount _ := 0
  deCount _ := 0
  ceComplete _ := false
  act _ x := some x

end Prosperismo.Pm4
