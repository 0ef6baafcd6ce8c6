import Prosperismo.Pm4.Registers

/-!
# Packet handlers

One handler for each operation code, and one for each custom code of `IT_NOP`. A handler
gets the memory, the header without its predicate bit, the payload and the number of words
left in the command buffer, and returns what it asks of the processor together with the
number of payload words, or `none` where the code stops the process.

The indirect register tables are filled at start-up; which registers they know is a
parameter (`IndirectTables`).
-/

namespace Prosperismo.Pm4

/-- Which registers the three indirect dispatch tables know. -/
structure IndirectTables where
  cx : Nat → Bool
  sh : Nat → Bool
  uc : Nat → Bool

/-- A packet handler. -/
abbrev Handler :=
  (m : Memory) → (cmdId : UInt32) → (buffer : Nat → UInt32) → (dw : Nat) → Option Reply

/-- The 64-bit value of two payload words. -/
abbrev value64 (low high : UInt32) : Nat := address low high

/-- The values of a register run. -/
def runValues (buffer : Nat → UInt32) (n : Nat) : List UInt32 :=
  (List.range n).map fun i => buffer (i + 1)

/-! ### Draws and dispatches -/

def cpOpDispatchDirect : Handler := fun _ cmdId buffer _ => do
  exitIf (opcode cmdId ≠ 0x15)
  exitIf (pm4Len cmdId ≠ 5)
  return .acts [.dispatchDirect (buffer 0) (buffer 1) (buffer 2) (buffer 3)] (pm4Len cmdId - 1)

def cpOpDispatchIndirect : Handler := fun m cmdId buffer _ => do
  exitIf (cmdId ≠ 0xc0011600 ∧ cmdId ≠ 0xc0021600)
  if cmdId = 0xc0021600 then
    let args := address (buffer 0) (buffer 1)
    exitIf (args = 0)
    return .acts [.dispatchDirect (m args) (m (args + 4)) (m (args + 8)) (buffer 2)] 3
  else
    return .acts [.dispatchIndirect (buffer 0) (buffer 1)] 2

def cpOpDispatchReset : Handler := fun _ cmdId _ _ => do
  exitIf (cmdId ≠ 0xC0001024)
  return .acts [.reset] 1

def cpOpDrawIndex : Handler := fun _ cmdId buffer _ => do
  exitIf (cmdId ≠ 0xc0073a00 ∧ cmdId ≠ 0xc0042700)
  if cmdId = 0xc0073a00 then
    exitIf (buffer 3 < buffer 6)
    exitIf (buffer 7 &&& ~~~0xa0 ≠ 0)
    return .acts [.drawIndex (buffer 0) (address (buffer 1) (buffer 2)) (buffer 6)
      (address (buffer 4) (buffer 5))] 8
  else
    exitIf (buffer 0 < buffer 3)
    exitIf (buffer 4 &&& ~~~0x20 ≠ 0)
    return .acts [.drawIndex (buffer 3) (address (buffer 1) (buffer 2)) 0 0] 5

def cpOpDrawIndirect : Handler := fun _ cmdId buffer _ => do
  exitIf (cmdId ≠ 0xc0032400 ∧ cmdId ≠ 0xc0032500)
  return .acts [.drawIndirect (buffer 0) (buffer 3) (cmdId = 0xc0032500)] 4

def cpOpDrawIndirectMulti : Handler := fun _ cmdId buffer _ => do
  exitIf (cmdId ≠ 0xc0082c00 ∧ cmdId ≠ 0xc0083800)
  let countAddr := if field (buffer 3) 30 1 = 0 then 0 else address (buffer 5) (buffer 6)
  return .acts [.drawIndirectMulti (buffer 0) (buffer 4) countAddr (buffer 7) (buffer 8)
    (cmdId = 0xc0083800)] 9

def cpOpDrawIndexOffset : Handler := fun _ cmdId buffer _ => do
  exitIf (cmdId ≠ 0xc0033500)
  exitIf (buffer 0 < buffer 2)
  exitIf (buffer 3 &&& ~~~0x20 ≠ 0)
  return .acts [.drawIndexOffset (buffer 1) (buffer 2)] 4

def cpOpDrawIndexAuto : Handler := fun _ cmdId buffer _ => do
  exitIf (cmdId ≠ 0xc0012d00)
  exitIf (buffer 1 &&& ~~~0x22 ≠ 0)
  return .acts [.drawIndexAuto (buffer 0)] 2

def cpOpIndexType : Handler := fun _ cmdId buffer _ => do
  exitIf (cmdId ≠ 0xC0002A00)
  return .acts [.setIndexType (buffer 0)] 1

def cpOpIndexBufferSize : Handler := fun _ cmdId buffer _ => do
  exitIf (cmdId ≠ 0xc0001300)
  return .acts [.setIndexBufferSize (buffer 0)] 1

def cpOpIndexBase : Handler := fun _ cmdId buffer _ => do
  exitIf (cmdId ≠ 0xc0012600)
  return .acts [.setIndexBaseAddress (address (buffer 0) (buffer 1))] 2

def cpOpNumInstances : Handler := fun _ cmdId buffer _ => do
  exitIf (cmdId ≠ 0xc0002f00)
  return .acts [.setNumInstances (buffer 0)] 1

/-- The base of the indirect arguments; the header's shader type tells which. -/
def cpOpSetBase : Handler := fun _ cmdId buffer _ => do
  exitIf (opcode cmdId ≠ 0x11)
  exitIf (pm4Len cmdId ≠ 4)
  let baseAddr := address (buffer 1 &&& ~~~0x7) (buffer 2 &&& 0xffff)
  let shaderType := field cmdId 1 0x3
  exitIf (buffer 0 &&& 0xf ≠ 1)
  exitIf (1 < shaderType)
  if shaderType = 0 then
    return .acts [.setDrawIndirectArgsBaseAddress baseAddr] 3
  else
    return .acts [.setDispatchIndirectArgsBaseAddress baseAddr] 3

/-! ### Synchronisation and memory -/

def cpOpAcquireMem : Handler := fun _ cmdId _ _ => do
  exitIf (cmdId ≠ 0xC0055800 ∧ cmdId ≠ 0xc0061050)
  return .acts [] (if cmdId = 0xc0061050 then 7 else 6)

def cpOpGetLodStats : Handler := fun _ cmdId buffer _ => do
  exitIf (cmdId ≠ 0xc0038e00)
  let dst := address (buffer 1 &&& 0xffffffc0) (buffer 2)
  return .acts (if dst ≠ 0 ∧ buffer 0 ≠ 0 then [.clearLodStats dst (buffer 0)] else []) 4

def cpOpPfpSyncMe : Handler := fun _ cmdId _ _ => do
  exitIf (cmdId ≠ 0xc0004200)
  return .acts [] 1

def cpOpClearState : Handler := fun _ cmdId buffer _ => do
  exitIf (cmdId ≠ 0xc0001200)
  exitIf (buffer 0 &&& ~~~0xf ≠ 0)
  return .acts [.reset] 1

/-- The predicate's flags and address, in either of two layouts. -/
def cpOpSetPredication : Handler := fun _ cmdId buffer _ => do
  exitIf (opcode cmdId ≠ 0x20)
  let payloadDw := pm4Len cmdId - 1
  exitIf (payloadDw < 2)
  let new := 3 ≤ payloadDw ∧ buffer 0 &&& ~~~0x00071100 = 0 ∧ buffer 2 ≤ 0x0000ffff
  let flags := if new then buffer 0 else buffer 1
  let addressValue := if new then address (buffer 1 &&& 0xfffffff0) (buffer 2)
    else address (buffer 0 &&& 0xfffffff0) (buffer 1 &&& 0xff)
  return .acts [.setPredication (field flags 8 1) (field flags 16 7) (field flags 12 1)
    addressValue] payloadDw

/-- A conditional run: when the word at the address is zero, the counted words are skipped
with the packet. -/
def cpOpCondExec : Handler := fun m cmdId buffer dw => do
  exitIf (opcode cmdId ≠ 0x22)
  let payloadDw := pm4Len cmdId - 1
  exitIf (payloadDw < 4)
  let addr := address (buffer 0 &&& 0xfffffffc) (buffer 1)
  let execCount := (buffer 3 &&& 0x3fff).toNat
  exitIf (buffer 0 &&& 0x3 ≠ 0)
  exitIf (buffer 2 ≠ 0)
  exitIf (addr = 0)
  exitIf (dw ≤ payloadDw + execCount)
  if m addr = 0 then
    return .acts [] (payloadDw + execCount)
  else
    return .acts [] payloadDw

/-- `CopyDataDstToDma`. -/
def copyDataDstToDma (dst : UInt32) : Option UInt32 :=
  if dst = 2 ∨ dst = 4 ∨ dst = 5 then some 3
  else if dst = 3 ∨ dst = 6 ∨ dst = 7 then some 1
  else none

/-- `CopyDataSrcToDma`. -/
def copyDataSrcToDma (src : UInt32) : Option UInt32 :=
  if src = 2 ∨ src = 4 ∨ src = 5 then some 3
  else if src = 3 ∨ src = 6 ∨ src = 7 then some 1
  else if src = 10 ∨ src = 11 then some 2
  else none

def cpOpCopyData : Handler := fun _ cmdId buffer _ => do
  exitIf (cmdId ≠ pm4 6 0x40 0)
  let control := buffer 0
  let srcSel := ((control &&& 0xf) <<< 1) ||| (field control 30 1)
  let dstSel := (field control 8 0xf) <<< 1
  let numBytes : UInt32 := if field control 16 1 ≠ 0 then 8 else 4
  let src := value64 (buffer 1) (buffer 2)
  let dst := value64 (buffer 3) (buffer 4)
  let clockDst : UInt32 := if srcSel = 9 then 2 else if srcSel = 18 then 4 else 0
  if clockDst ≠ 0 then
    exitIf (dstSel ≠ clockDst ∨ dst = 0 ∨ dst % numBytes.toNat ≠ 0)
    return .acts [.writeReferenceClock dst numBytes] 5
  else
    let dmaSrc ← copyDataSrcToDma srcSel
    exitIf (dmaSrc = 2 ∧ numBytes = 8)
    let dmaDst ← copyDataDstToDma dstSel
    return .acts [.dmaData 0 dmaDst (field control 25 3) dst dmaSrc (field control 13 3)
      src numBytes 1 (field control 20 1) 1] 5

def cpOpDmaData : Handler := fun _ cmdId buffer _ => do
  exitIf (cmdId ≠ pm4 7 0x50 0)
  let control := buffer 0
  let control2 := buffer 5
  let src := value64 (buffer 1) (buffer 2)
  let dst := value64 (buffer 3) (buffer 4)
  if control = 0x60000000 ∧ dst = 0x0003022c ∧ control2 >>> 21 = 0x141 then
    return .acts [] 6
  else
    let dstSel := (field control 20 3) ||| (field control2 25 4) |||
      (field control2 26 8)
    let srcSel := (field control 29 3) ||| (field control2 24 4) |||
      (field control2 25 8)
    return .acts [.dmaData (control &&& 1) dstSel (field control 25 3) dst srcSel
      (field control 13 3) src (control2 &&& 0x03ffffff) (field control2 30 1)
      (field control2 31 1) (field control 31 1)] 6

def cpOpDumpConstRam : Handler := fun _ cmdId buffer _ => do
  exitIf (cmdId ≠ 0xC0038300)
  exitIf (0x3000 ≤ buffer 1)
  exitIf (0xbffc < buffer 0)
  exitIf (buffer 0 &&& 0x3 ≠ 0)
  return .acts [.dumpConstRam (address (buffer 2) (buffer 3)) (buffer 0) (buffer 1)] 4

def cpOpWriteConstRam : Handler := fun _ cmdId buffer _ => do
  let dwNum := countField cmdId
  exitIf (0x3000 ≤ dwNum)
  exitIf (0xbffc < buffer 0)
  exitIf (buffer 0 &&& 0x3 ≠ 0)
  return .acts [.writeConstRam (buffer 0) (runValues buffer dwNum)] (1 + dwNum)

/-- The data words follow the control word and the address. -/
def cpOpWriteData : Handler := fun _ cmdId buffer _ => do
  exitIf (opcode cmdId ≠ 0x37)
  let dwNum := countField cmdId
  let src := (List.range ((dwNum + 0x100000000 - 2) % 0x100000000)).map fun i => buffer (i + 3)
  return .acts [.writeData (address (buffer 1) (buffer 2)) src (buffer 0)] (1 + dwNum)

def cpOpEventWrite : Handler := fun _ cmdId buffer _ => do
  exitIf (opcode cmdId ≠ 0x46)
  return .acts [.triggerEvent (buffer 0 &&& 0x3f) (field (buffer 0) 8 7)] (pm4Len cmdId - 1)

def cpOpEventWriteEop : Handler := fun _ cmdId buffer _ => do
  exitIf (cmdId ≠ 0xC0044700)
  return .acts [.writeAtEndOfPipe 64 (field (buffer 0) 25 3)
    ((field (buffer 0) 23 0x10) ||| (field (buffer 2) 16 1)) (buffer 0 &&& 0x3f)
    (field (buffer 0) 12 0x3f) (field (buffer 0) 8 7) (field (buffer 2) 29 7)
    (address (buffer 1) (buffer 2 &&& 0xffff)) (value64 (buffer 3) (buffer 4))
    (field (buffer 2) 24 7) 0] 5

def cpOpEventWriteEos : Handler := fun _ cmdId buffer _ => do
  exitIf (cmdId ≠ 0xC0034802)
  return .acts [.writeAtEndOfPipe 32 (field (buffer 0) 25 3) 0 (buffer 0 &&& 0x3f)
    (field (buffer 0) 12 0x3f) (field (buffer 0) 8 7) (field (buffer 2) 29 7)
    (address (buffer 1) (buffer 2 &&& 0xffff)) (buffer 3).toNat (field (buffer 2) 24 7) 0] 4

/-- `ReleaseMemGcrNeedsBarrier`. -/
def releaseMemGcrNeedsBarrier (eopEventType gcrCntl : UInt32) : Bool :=
  eopEventType ≠ 0x28 || gcrCntl &&& 0x30E ≠ 0

/-- `ReleaseMemCacheActionFromGcr`. -/
def releaseMemCacheActionFromGcr (gcrCntl : UInt32) : UInt32 :=
  if gcrCntl &&& 0x200 ≠ 0 then 0x38 else 0

/-- The interrupt of a release that writes no label. -/
def releaseMemInterrupt (selector contextId : UInt32) : Option (List Action) :=
  if selector = 0 ∨ selector = 3 then some []
  else if selector = 1 ∨ selector = 2 ∨ selector = 4 then
    some [.triggerEopEventAtEndOfPipe contextId]
  else none

def cpOpReleaseMem : Handler := fun _ cmdId buffer _ => do
  exitIf (cmdId ≠ 0xc0061060)
  let eopEventType := buffer 0 &&& 0x3f
  let eventIndex := field (buffer 0) 8 7
  let gcrCntl := field (buffer 0) 12 0xfff
  let releaseDst := field (buffer 1) 16 3
  let dataSel := field (buffer 1) 29 7
  let interruptSelector := field (buffer 1) 24 7
  let dst := address (buffer 2) (buffer 3)
  let value := value64 (buffer 4) (buffer 5)
  let contextId := buffer 6 &&& 0x07ffffff
  exitIf (releaseDst ≠ 0 ∧ releaseDst ≠ 1)
  exitIf (dataSel ≠ 0 ∧ dataSel ≠ 1 ∧ dataSel ≠ 2 ∧ dataSel ≠ 3 ∧ dataSel ≠ 5)
  let writeback := gcrCntl &&& 0x200 ≠ 0
  if dataSel = 0 ∨ interruptSelector = 4 ∨ (releaseDst = 0 ∧ dst = 0) then
    let interrupt ← releaseMemInterrupt interruptSelector contextId
    return .acts ((if eopEventType ≠ 0x28 ∨ gcrCntl ≠ 0 then [.emitGlobalBarrier] else []) ++
      (if writeback then [.synchronizeGpu] else []) ++ interrupt) 7
  else
    let barrier : List Action :=
      if releaseMemGcrNeedsBarrier eopEventType gcrCntl then [.emitGlobalBarrier] else []
    let cacheAction := releaseMemCacheActionFromGcr gcrCntl
    if dataSel = 1 then
      return .acts (barrier ++ [.writeAtEndOfPipe 32 0 0 0x2f cacheAction 6 2 dst
        (buffer 4).toNat interruptSelector contextId, .bufferFlush]) 7
    else if dataSel = 5 then
      return .acts (barrier ++ (if writeback then [.synchronizeGpu] else []) ++
        [.writeAtEndOfPipe 32 0 0 0x2f (if writeback then 0 else cacheAction) 6 1 dst
          (buffer 4).toNat interruptSelector contextId, .bufferFlush]) 7
    else
      let keepNativeEventIndex := (eopEventType = 0x04 ∧ cacheAction = 0) ∨
        (eopEventType = 0x2f ∧ eventIndex = 6 ∧ cacheAction = 0x38)
      return .acts (barrier ++ [.writeAtEndOfPipe 64 0 0 eopEventType cacheAction
        (if keepNativeEventIndex then eventIndex else 0) (if dataSel = 2 then 2 else 4) dst value
        interruptSelector contextId]) 7

def cpOpFlip : Handler := fun _ cmdId buffer _ => do
  exitIf (cmdId ≠ 0xc004105c)
  return .acts [.setFlip (buffer 0) (buffer 1) (buffer 2) (value64 (buffer 3) (buffer 4)), .flip] 5

def cpOpWaitFlipDone : Handler := fun _ cmdId buffer _ => do
  exitIf (cmdId ≠ 0xc0051018)
  return .acts [.waitFlipDone (buffer 0) (buffer 1)] 6

def cpOpIncrementCeCounter : Handler := fun _ cmdId buffer _ => do
  exitIf (cmdId ≠ 0xC0008400)
  exitIf (buffer 0 ≠ 1)
  return .acts [.incrementCe] 1

def cpOpIncrementDeCounter : Handler := fun _ cmdId buffer _ => do
  exitIf (cmdId ≠ 0xC0008500)
  exitIf (buffer 0 ≠ 0)
  return .acts [.incrementDe] 1

/-! ### Waits -/

/-- The 32-bit wait: seven words, the condition in the control word. -/
def cpOpWaitRegMem32 : Handler := fun _ cmdId buffer _ => do
  exitIf (pm4R cmdId ≠ 0x0A)
  exitIf (pm4Len cmdId ≠ 7)
  let ctrl := buffer 4
  exitIf (ctrl &&& 0x10 = 0)
  return ⟨.wait (.regMem 32 (ctrl &&& 7) (address (buffer 0) (buffer 1)) (buffer 3).toNat
    (buffer 2).toNat ((field ctrl 8 3) ||| (field ctrl 4 0xc))), 6⟩

/-- The 64-bit wait: nine words. -/
def cpOpWaitRegMem64 : Handler := fun _ cmdId buffer _ => do
  exitIf (pm4R cmdId ≠ 0x16)
  exitIf (pm4Len cmdId ≠ 9)
  let ctrl := buffer 6
  exitIf (ctrl &&& 0x10 = 0)
  return ⟨.wait (.regMem 64 (ctrl &&& 7) (address (buffer 0) (buffer 1))
    (value64 (buffer 4) (buffer 5)) (value64 (buffer 2) (buffer 3))
    ((field ctrl 8 1) ||| (field ctrl 5 6))), 8⟩

def cpOpWaitOnCeCounter : Handler := fun _ cmdId buffer _ => do
  exitIf (cmdId ≠ 0xC0008600)
  exitIf (buffer 0 ≠ 1)
  return ⟨.wait .ce, 1⟩

def cpOpWaitOnDeCounterDiff : Handler := fun _ cmdId buffer _ => do
  exitIf (cmdId ≠ 0xC0008800)
  return ⟨.wait (.deDiff (buffer 0)), 1⟩

/-! ### Indirect buffers -/

/-- `TestWaitRegMemValue`; an unknown function stops the process. -/
def testWaitRegMemValue (value ref mask : Nat) (func : UInt32) : Option Bool :=
  match func.toNat with
  | 0 => some true
  | 1 => some (value &&& mask < ref)
  | 2 => some (value &&& mask ≤ ref)
  | 3 => some (value &&& mask = ref)
  | 4 => some (value &&& mask ≠ ref)
  | 5 => some (value &&& mask ≥ ref)
  | 6 => some (value &&& mask > ref)
  | _ => none

/-- The 64-bit value at an address. -/
def read64 (m : Memory) (addr : Nat) : Nat :=
  value64 (m addr) (m (addr + 4))

/-- A conditional call: one of two buffers, or none. -/
def cpOpBranch : Handler := fun m cmdId buffer _ => do
  exitIf (opcode cmdId ≠ 0x3F)
  let payloadDw := pm4Len cmdId - 1
  exitIf (payloadDw ≠ 13)
  let compareAddr := address (buffer 1 &&& 0xfffffff8) (buffer 2)
  let mask := value64 (buffer 3) (buffer 4)
  let reference := value64 (buffer 5) (buffer 6)
  let mode := buffer 0 &&& 3
  let function := field (buffer 0) 8 7
  let thenBuffer := address (buffer 7 &&& 0xfffffffc) (buffer 8)
  let thenNumDw := (buffer 9 &&& 0xfffff).toNat
  let elseBuffer := address (buffer 10 &&& 0xfffffffc) (buffer 11)
  let elseNumDw := (buffer 12 &&& 0xfffff).toNat
  exitIf (compareAddr = 0)
  exitIf (mode ≠ 1 ∧ mode ≠ 2)
  exitIf (6 < function)
  exitIf (thenBuffer = 0 ∨ thenNumDw = 0)
  let takeThen ← testWaitRegMemValue (read64 m compareAddr) reference mask function
  if takeThen then
    return ⟨.call thenBuffer thenNumDw, payloadDw⟩
  else if mode = 2 ∧ elseNumDw ≠ 0 then
    exitIf (elseBuffer = 0)
    return ⟨.call elseBuffer elseNumDw, payloadDw⟩
  else
    return .acts [] payloadDw

def cpOpIndirectBuffer : Handler := fun m cmdId buffer dw => do
  exitIf (opcode cmdId ≠ 0x3F)
  if pm4Len cmdId = 14 then
    cpOpBranch m cmdId buffer dw
  else
    exitIf (pm4Len cmdId ≠ 4)
    let indirectBuffer := address (buffer 0) (buffer 1)
    let indirectNumDw := (buffer 2 &&& 0xfffff).toNat
    if indirectNumDw = 0 then
      return .acts [] 3
    else
      exitIf (indirectBuffer = 0)
      return ⟨.call indirectBuffer indirectNumDw, 3⟩

/-! ### Register packets -/

section Registers

variable (tables : IndirectTables)

/-- A context packet: a placeholder, a run of the direct table, or a run of registers the
indirect table knows. -/
def cpOpSetContextReg : Handler := fun _ cmdId buffer dw => do
  let cmdOffset := normalizeRegisterOffset (buffer 0)
  if hwCtxIsFakeRegister cmdOffset then
    return .acts [] 2
  else
    exitIf (cxNum ≤ cmdOffset)
    match lookup (contextTable tables.cx) cmdOffset with
    | none =>
      let numValues := pm4Len cmdId - 2
      exitIf (∃ i ∈ List.range numValues,
        cxNum ≤ cmdOffset + i ∨ tables.cx (cmdOffset + i) = false)
      return .acts [.setRegisters .context cmdId cmdOffset (runValues buffer numValues)]
        (numValues + 1)
    | some parser =>
      let s ← parser cmdId cmdOffset (fun i => buffer (i + 1)) dw
      exitIf (s = 0)
      return .acts [.setRegisters .context cmdId cmdOffset (runValues buffer s)] (s + 1)

def cpOpSetShaderReg : Handler := fun _ cmdId buffer dw => do
  let cmdOffset := (buffer 0).toNat
  if cmdOffset = shNop then
    return .acts [] 2
  else
    exitIf (shNum ≤ cmdOffset)
    let parser ← lookup shaderTable cmdOffset
    let s ← parser cmdId cmdOffset (fun i => buffer (i + 1)) dw
    exitIf (s = 0)
    return .acts [.setRegisters .shader cmdId cmdOffset (runValues buffer s)] (s + 1)

/-- A user-configuration packet, with or without an index. -/
def cpOpSetUconfigReg : Handler := fun _ cmdId buffer dw => do
  let cmdOffset := if opcode cmdId = 0x7A then (buffer 0 &&& 0x0fffffff).toNat
    else normalizeRegisterOffset (buffer 0)
  let isFake ← hwUcTrySetFakeRegisterRange cmdOffset (pm4Len cmdId - 2)
  if isFake then
    return .acts [] (pm4Len cmdId - 1)
  else
    exitIf (ucNum ≤ cmdOffset)
    match lookup uconfigTable cmdOffset with
    | none =>
      let numValues := pm4Len cmdId - 2
      exitIf (∃ i ∈ List.range numValues,
        ucNum ≤ cmdOffset + i ∨ tables.uc (cmdOffset + i) = false)
      return .acts [.setRegisters .uconfig cmdId cmdOffset (runValues buffer numValues)]
        (numValues + 1)
    | some parser =>
      let s ← parser cmdId cmdOffset (fun i => buffer (i + 1)) dw
      exitIf (s = 0)
      return .acts [.setRegisters .uconfig cmdId cmdOffset (runValues buffer s)] (s + 1)

/-- One pair of an indirect context list: skipped, set, or unknown. -/
def indirectCxPair (raw value : UInt32) : Option (List (Bank × Nat × UInt32)) :=
  let cmdOffset := decodeIndirectCxRegisterOffset raw
  if hwCtxIsFakeRegister cmdOffset ∨ raw = 0xffffffff ∨ cxNum ≤ cmdOffset then
    some []
  else if tables.cx cmdOffset then
    some [(.context, cmdOffset, value)]
  else none

def indirectShPair (raw value : UInt32) : Option (List (Bank × Nat × UInt32)) :=
  let cmdOffset := normalizeRegisterOffset raw
  if cmdOffset = shNop ∨ raw = 0xffffffff then
    some []
  else if cmdOffset < shNum ∧ tables.sh cmdOffset then
    some [(.shader, cmdOffset, value)]
  else none

/-- An indirect user-configuration list may also name context registers. -/
def indirectUcPair (raw value : UInt32) : Option (List (Bank × Nat × UInt32)) :=
  let cmdOffset := normalizeRegisterOffset raw
  if hwUcIsFakeRegister cmdOffset then
    some []
  else if cmdOffset < cxNum ∧ tables.cx cmdOffset then
    some [(.context, cmdOffset, value)]
  else if cmdOffset < ucNum ∧ tables.uc cmdOffset then
    some [(.uconfig, cmdOffset, value)]
  else none

/-- The three indirect register packets: a list of offset and value pairs in memory. -/
def indirectRegs (op : Nat) (pair : UInt32 → UInt32 → Option (List (Bank × Nat × UInt32))) :
    Handler := fun m cmdId buffer _ => do
  exitIf (opcode cmdId ≠ op)
  exitIf (pm4Len cmdId ≠ 5)
  let indirectBuffer := address (buffer 0 &&& 0xfffffffc) (buffer 1)
  let indirectNumDw := (buffer 3 &&& 0x3fff).toNat
  if indirectNumDw = 0 then
    return .acts [] (pm4Len cmdId - 1)
  else
    exitIf (indirectBuffer = 0)
    let writes ← (List.range indirectNumDw).mapM fun i =>
      pair (m (indirectBuffer + 8 * i)) (m (indirectBuffer + 8 * i + 4))
    return .acts [.setIndirectRegisters writes.flatten] (pm4Len cmdId - 1)

def cpOpIndirectCxRegs : Handler := indirectRegs 0x9F (indirectCxPair tables)
def cpOpIndirectShRegs : Handler := indirectRegs 0x63 (indirectShPair tables)
def cpOpIndirectUcRegs : Handler := indirectRegs 0x64 (indirectUcPair tables)

end Registers

/-! ### Markers and custom codes -/

/-- A marker of an `IT_NOP` packet. -/
def markerActions (buffer : Nat → UInt32) : Option (List Action) :=
  match (buffer 0 &&& 0xfff).toNat with
  | 0x0 => some []
  | 0x4 => some [.setUserDataMarker .vsharp]
  | 0xd => some [.setUserDataMarker .region]
  | 0x777 => some [.flip]
  | 0x778 => some [.flipLabel (address (buffer 1) (buffer 2)) (buffer 3)]
  | 0x781 =>
    some [.flipWithInterrupt (buffer 4) (buffer 5) (address (buffer 1) (buffer 2)) (buffer 3)]
  | _ => none

def cpOpMarker : Handler := fun _ cmdId buffer _ => do
  let actions ← markerActions buffer
  return .acts actions (countField cmdId + 1)

def cpOpPopMarker : Handler := fun _ cmdId _ _ => some (.acts [] (countField cmdId + 1))

def cpOpPushMarker : Handler := fun _ cmdId _ _ => some (.acts [] (countField cmdId + 1))

/-- `g_cp_op_custom_func`: the handler of a custom code. -/
def customFunc (r : Nat) : Option Handler :=
  match r with
  | 0x09 => some cpOpDispatchReset  -- R_DISPATCH_RESET
  | 0x0A => some cpOpWaitRegMem32   -- R_WAIT_MEM_32
  | 0x06 => some cpOpWaitFlipDone   -- R_WAIT_FLIP_DONE
  | 0x0B => some cpOpPushMarker     -- R_PUSH_MARKER
  | 0x0C => some cpOpPopMarker      -- R_POP_MARKER
  | 0x14 => some cpOpAcquireMem     -- R_ACQUIRE_MEM
  | 0x16 => some cpOpWaitRegMem64   -- R_WAIT_MEM_64
  | 0x17 => some cpOpFlip           -- R_FLIP
  | 0x18 => some cpOpReleaseMem     -- R_RELEASE_MEM
  | _ => none

def cpOpNop : Handler := fun m cmdId buffer dw =>
  if pm4R cmdId = 0 then
    if buffer 0 &&& 0xffff0000 = 0x68750000 then
      cpOpMarker m cmdId buffer dw
    else
      some (.acts [] (pm4Len cmdId - 1))
  else do
    let cpOp ← customFunc (pm4R cmdId)
    cpOp m cmdId buffer dw

/-- `g_cp_op_func`: the handler of an operation code. -/
def opFunc (tables : IndirectTables) (op : Nat) : Option Handler :=
  match op with
  | 0x10 => some cpOpNop                       -- IT_NOP
  | 0x11 => some cpOpSetBase                   -- IT_SET_BASE
  | 0x12 => some cpOpClearState                -- IT_CLEAR_STATE
  | 0x26 => some cpOpIndexBase                 -- IT_INDEX_BASE
  | 0x13 => some cpOpIndexBufferSize           -- IT_INDEX_BUFFER_SIZE
  | 0x15 => some cpOpDispatchDirect            -- IT_DISPATCH_DIRECT
  | 0x16 => some cpOpDispatchIndirect          -- IT_DISPATCH_INDIRECT
  | 0x24 => some cpOpDrawIndirect              -- IT_DRAW_INDIRECT
  | 0x25 => some cpOpDrawIndirect              -- IT_DRAW_INDEX_INDIRECT
  | 0x2C => some cpOpDrawIndirectMulti         -- IT_DRAW_INDIRECT_MULTI
  | 0x38 => some cpOpDrawIndirectMulti         -- IT_DRAW_INDEX_INDIRECT_MULTI
  | 0x27 => some cpOpDrawIndex                 -- IT_DRAW_INDEX_2
  | 0x35 => some cpOpDrawIndexOffset           -- IT_DRAW_INDEX_OFFSET_2
  | 0x3A => some cpOpDrawIndex                 -- IT_DISPATCH_DRAW_PREAMBLE
  | 0x42 => some cpOpPfpSyncMe                 -- IT_PFP_SYNC_ME
  | 0x2A => some cpOpIndexType                 -- IT_INDEX_TYPE
  | 0x2F => some cpOpNumInstances              -- IT_NUM_INSTANCES
  | 0x2D => some cpOpDrawIndexAuto             -- IT_DRAW_INDEX_AUTO
  | 0x22 => some cpOpCondExec                  -- IT_COND_EXEC
  | 0x20 => some cpOpSetPredication            -- IT_SET_PREDICATION
  | 0x37 => some cpOpWriteData                 -- IT_WRITE_DATA
  | 0x3F => some cpOpIndirectBuffer            -- IT_INDIRECT_BUFFER
  | 0x40 => some cpOpCopyData                  -- IT_COPY_DATA
  | 0x46 => some cpOpEventWrite                -- IT_EVENT_WRITE
  | 0x47 => some cpOpEventWriteEop             -- IT_EVENT_WRITE_EOP
  | 0x48 => some cpOpEventWriteEos             -- IT_EVENT_WRITE_EOS
  | 0x50 => some cpOpDmaData                   -- IT_DMA_DATA
  | 0x58 => some cpOpAcquireMem                -- IT_ACQUIRE_MEM
  | 0x69 => some (cpOpSetContextReg tables)    -- IT_SET_CONTEXT_REG
  | 0x76 => some cpOpSetShaderReg              -- IT_SET_SH_REG
  | 0x79 => some (cpOpSetUconfigReg tables)    -- IT_SET_UCONFIG_REG
  | 0x7A => some (cpOpSetUconfigReg tables)    -- IT_SET_UCONFIG_REG_INDEX
  | 0x9F => some (cpOpIndirectCxRegs tables)   -- IT_SET_CONTEXT_REG_INDIRECT
  | 0x63 => some (cpOpIndirectShRegs tables)   -- IT_SET_SH_REG_INDIRECT
  | 0x64 => some (cpOpIndirectUcRegs tables)   -- IT_SET_UCONFIG_REG_INDIRECT
  | 0x81 => some cpOpWriteConstRam             -- IT_WRITE_CONST_RAM
  | 0x83 => some cpOpDumpConstRam              -- IT_DUMP_CONST_RAM
  | 0x84 => some cpOpIncrementCeCounter        -- IT_INCREMENT_CE_COUNTER
  | 0x85 => some cpOpIncrementDeCounter        -- IT_INCREMENT_DE_COUNTER
  | 0x86 => some cpOpWaitOnCeCounter           -- IT_WAIT_ON_CE_COUNTER
  | 0x88 => some cpOpWaitOnDeCounterDiff       -- IT_WAIT_ON_DE_COUNTER_DIFF
  | 0x8E => some cpOpGetLodStats               -- IT_GET_LOD_STATS
  | _ => none

end Prosperismo.Pm4
