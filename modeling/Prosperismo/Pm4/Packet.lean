import Mathlib.Data.List.Basic

/-!
# PM4 packets

A command buffer is a run of 32-bit words. A packet starts with a header word; the
header's length field gives the extent of the whole packet, header included
(`pm4Len`). One word, `filler`, is a packet of its own.

This file also lists what a packet handler may ask of the command processor: the
methods it calls (`Action`), the conditions it may wait for (`Wait`), and the command
buffers it may call (`Effect`). A handler returns a `Reply`: its effect, and the number
of payload words it read.
-/

namespace Prosperismo.Pm4

/-! ### Headers -/

/-- `KYTY_PM4(len, op, r)`: the header of a packet of `len` words. -/
def pm4 (len op r : UInt32) : UInt32 :=
  (0xC0000000 : UInt32) ||| (((len - 2) &&& (0x3fff : UInt32)) <<< (16 : UInt32)) |||
    ((op &&& (0xff : UInt32)) <<< (8 : UInt32)) ||| ((r &&& (0x3f : UInt32)) <<< (2 : UInt32))

/-- The header's count field: one less than the number of payload words. -/
def countField (header : UInt32) : Nat :=
  ((header >>> 16) &&& 0x3fff).toNat

/-- `KYTY_PM4_LEN`: the extent of the packet in words, its header included. -/
def pm4Len (header : UInt32) : Nat :=
  countField header + 2

/-- `KYTY_PM4_R`: the custom code of an `IT_NOP` packet. -/
def pm4R (header : UInt32) : Nat :=
  ((header >>> 2) &&& 0x3f).toNat

/-- The operation code of the packet. -/
def opcode (header : UInt32) : Nat :=
  ((header >>> 8) &&& 0xff).toNat

/-- The one-word packet that carries nothing. -/
def filler : UInt32 := 0x80000000

/-- Bit 0 of a header: the packet is skipped while predication says so. -/
def predicated (header : UInt32) : Bool :=
  (header &&& 1) != 0

/-- The header as a handler receives it, without the predicate bit. -/
def commandId (header : UInt32) : UInt32 :=
  header &&& 0xfffffffe

/-- The predicate bit is not part of the length field. -/
@[simp] theorem countField_commandId (header : UInt32) :
    countField (commandId header) = countField header := by
  have hmask : ((0xfffffffe : UInt32) >>> 16) &&& 0x3fff = 0x3fff := by decide
  have h : (commandId header >>> 16) &&& (0x3fff : UInt32) = (header >>> 16) &&& 0x3fff := by
    rw [commandId, UInt32.shiftRight_and, UInt32.and_assoc, hmask]
  simp only [countField, h]

@[simp] theorem pm4Len_commandId (header : UInt32) :
    pm4Len (commandId header) = pm4Len header := by
  simp [pm4Len]

/-- `(word >> shift) & mask`. -/
def field (word shift mask : UInt32) : UInt32 :=
  (word >>> shift) &&& mask

/-- A 64-bit address from its two words. -/
def address (low high : UInt32) : Nat :=
  low.toNat ||| (high.toNat <<< 32)

/-! ### What a handler asks of the processor -/

/-- The hardware register banks. -/
inductive Bank
  | context
  | shader
  | uconfig
  deriving DecidableEq

/-- The user-data markers. -/
inductive UserSgprType
  | vsharp
  | region
  deriving DecidableEq

/-- The methods of the command processor that handlers call. Addresses are natural
numbers; a register run carries the words the handler consumed for it. -/
inductive Action
  | reset
  | dispatchDirect (threadGroupX threadGroupY threadGroupZ mode : UInt32)
  | dispatchIndirect (dataOffset mode : UInt32)
  | clearLodStats (dst : Nat) (bufferSize : UInt32)
  | setPredication (condition op waitOp : UInt32) (address : Nat)
  | writeReferenceClock (dst : Nat) (numBytes : UInt32)
  | dmaData (engine dstSel dstCachePolicy : UInt32) (dst : Nat) (srcSel srcCachePolicy : UInt32)
      (src : Nat) (numBytes waitForPrevious writeConfirm blockEngine : UInt32)
  | drawIndex (indexCount : UInt32) (indexAddr : Nat) (instanceCount : UInt32) (objectIds : Nat)
  | drawIndexOffset (indexOffset indexCount : UInt32)
  | drawIndexAuto (indexCount : UInt32)
  | drawIndirect (dataOffset drawInitiator : UInt32) (indexed : Bool)
  | drawIndirectMulti (dataOffset maxCountOrCount : UInt32) (countAddr : Nat)
      (strideInBytes drawInitiator : UInt32) (indexed : Bool)
  | dumpConstRam (dst : Nat) (offset dwNum : UInt32)
  | writeConstRam (offset : UInt32) (src : List UInt32)
  | writeData (dst : Nat) (src : List UInt32) (writeControl : UInt32)
  | triggerEvent (eventType eventIndex : UInt32)
  | writeAtEndOfPipe (bits : Nat) (cachePolicy eventWriteDest eopEventType cacheAction eventIndex
      eventWriteSource : UInt32) (dst value : Nat) (interruptSelector interruptContextId : UInt32)
  | triggerEopEventAtEndOfPipe (interruptContextId : UInt32)
  | emitGlobalBarrier
  | synchronizeGpu
  | bufferFlush
  | setFlip (handle index flipMode : UInt32) (flipArg : Nat)
  | flip
  | flipLabel (dst : Nat) (value : UInt32)
  | flipWithInterrupt (eopEventType cacheAction : UInt32) (dst : Nat) (value : UInt32)
  | waitFlipDone (videoOutHandle displayBufferIndex : UInt32)
  | setUserDataMarker (marker : UserSgprType)
  | incrementCe
  | incrementDe
  | setIndexType (indexTypeAndSize : UInt32)
  | setIndexBufferSize (size : UInt32)
  | setIndexBaseAddress (address : Nat)
  | setDrawIndirectArgsBaseAddress (address : Nat)
  | setDispatchIndirectArgsBaseAddress (address : Nat)
  | setNumInstances (numInstances : UInt32)
  | setRegisters (bank : Bank) (cmdId : UInt32) (cmdOffset : Nat) (values : List UInt32)
  | setIndirectRegisters (registers : List (Bank × Nat × UInt32))
  deriving DecidableEq

/-- The conditions a handler may wait for; a wait that is not satisfied suspends the
execution. -/
inductive Wait
  | regMem (bits : Nat) (func : UInt32) (addr : Nat) (ref mask : Nat) (waitOp : UInt32)
  | ce
  | deDiff (diff : UInt32)
  deriving DecidableEq

/-- What a handler does: it calls methods of the processor, or waits, or calls
`ProcessIndirectBuffer` as its last act. -/
inductive Effect
  | act (actions : List Action)
  | wait (condition : Wait)
  | call (buffer sizeDw : Nat)
  deriving DecidableEq

/-- The result of a handler: its effect, and the number of payload words. -/
structure Reply where
  effect : Effect
  words : Nat
  deriving DecidableEq

/-- A reply that calls methods of the processor. -/
def Reply.acts (actions : List Action) (words : Nat) : Reply :=
  ⟨.act actions, words⟩

@[simp] theorem Reply.acts_words (actions : List Action) (words : Nat) :
    (Reply.acts actions words).words = words := rfl

/-- The memory a handler reads: the word at a byte address. -/
abbrev Memory := Nat → UInt32

/-! ### Packet boundaries -/

/-- `Spans words i j`: the words from index `i` up to `j` are whole packets, a filler
being one word and any other packet the extent its header gives. -/
inductive Spans (words : Nat → UInt32) : Nat → Nat → Prop
  | nil (i : Nat) : Spans words i i
  | filler {i j : Nat} : words i = filler → Spans words (i + 1) j → Spans words i j
  | packet {i j : Nat} : words i ≠ filler → Spans words (i + pm4Len (words i)) j →
      Spans words i j

namespace Spans

variable {words : Nat → UInt32} {i j k : Nat}

/-- One packet spans its own extent. -/
theorem single (h : words i ≠ Pm4.filler) : Spans words i (i + pm4Len (words i)) :=
  packet h (nil _)

/-- Runs of packets compose. -/
theorem trans (h : Spans words i j) (h' : Spans words j k) : Spans words i k := by
  induction h with
  | nil => exact h'
  | filler hfiller _ ih => exact filler hfiller (ih h')
  | packet hpacket _ ih => exact packet hpacket (ih h')

end Spans

end Prosperismo.Pm4
