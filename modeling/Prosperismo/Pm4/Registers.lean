import Prosperismo.Pm4.Packet

/-!
# Register parsers

`SET_CONTEXT_REG`, `SET_SH_REG` and `SET_UCONFIG_REG` packets hand their payload to the
parser of the first register they name. A parser gets the packet's header without the
predicate bit, the register offset, the payload words from the first value on, and the
number of words left in the command buffer; it returns how many words it consumed, or
`none` where the code stops the process.

What a parser decodes the words into is not part of this file: it decides nothing about
the packets that follow.
-/

namespace Prosperismo.Pm4

/-- `EXIT_NOT_IMPLEMENTED(c)`: the process stops when `c` holds. -/
def exitIf (c : Prop) [Decidable c] : Option Unit :=
  if c then none else some ()

@[simp] theorem exitIf_eq_some {c : Prop} [Decidable c] {u : Unit} :
    exitIf c = some u ↔ ¬ c := by
  by_cases h : c <;> simp [exitIf, h]

/-- The number of words a register parser consumes. -/
abbrev RegisterParser :=
  (cmdId : UInt32) → (cmdOffset : Nat) → (buffer : Nat → UInt32) → (dw : Nat) → Option Nat

/-- `CX_NUM`, `SH_NUM` and `UC_NUM`: the sizes of the three register banks. -/
def cxNum : Nat := 0x400
def shNum : Nat := 0x300
def ucNum : Nat := 0x4000

/-! ### The common shapes -/

/-- A parser of one packet shape: one header, one register, `n` values. -/
def fixedRun (header : UInt32) (register n : Nat) : RegisterParser :=
  fun cmdId cmdOffset _ _ => do
    exitIf (cmdId ≠ header)
    exitIf (cmdOffset ≠ register)
    return n

/-- A parser of one header that stands at several registers. -/
def fixedHeader (header : UInt32) (n : Nat) : RegisterParser :=
  fun cmdId _ _ _ => do
    exitIf (cmdId ≠ header)
    return n

/-- A parser that takes every value of the packet. -/
def wholeRun : RegisterParser :=
  fun cmdId _ _ _ => some (pm4Len cmdId - 2)

/-- A parser that takes every value of the packet, each register being one of `known`. -/
def knownRun (known : List Nat) : RegisterParser :=
  fun cmdId cmdOffset _ _ => do
    exitIf (∃ i ∈ List.range (pm4Len cmdId - 2), cmdOffset + i ∉ known)
    return pm4Len cmdId - 2

/-- A parser that takes every value of the packet, the registers running from `first` to
`last` at most. -/
def rangeRun (first last : Nat) : RegisterParser :=
  fun cmdId cmdOffset _ _ => do
    exitIf (pm4Len cmdId - 2 = 0)
    exitIf (cmdOffset < first)
    exitIf (last < cmdOffset + (pm4Len cmdId - 2) - 1)
    return pm4Len cmdId - 2

/-- A parser of a run of user-data registers that starts between `first` and `last`. -/
def userDataRun (first last : Nat) : RegisterParser :=
  fun cmdId cmdOffset _ _ => do
    exitIf (¬ (first ≤ cmdOffset ∧ cmdOffset ≤ last))
    return countField cmdId

/-- A parser that takes one value at one register, whatever the header says. -/
def singleValue (register : Nat) : RegisterParser :=
  fun _ cmdOffset _ _ => do
    exitIf (cmdOffset ≠ register)
    return 1

/-! ### Context registers -/

def hwCtxSetAaConfig : RegisterParser := fixedRun 0xc0016900 0x2F8 1
def hwCtxSetBlendColor : RegisterParser := fixedRun 0xc0046900 0x105 4
def hwCtxSetBlendControl : RegisterParser := fixedHeader 0xC0016900 1
def hwCtxSetClipControl : RegisterParser := fixedRun 0xC0016900 0x204 1
def hwCtxSetColorControl : RegisterParser := fixedRun 0xc0016900 0x202 1
def hwCtxSetColorInfo : RegisterParser := fixedHeader 0xc0016900 1
def hwCtxSetDepthClear : RegisterParser := fixedRun 0xC0016900 0xB 1
def hwCtxSetDepthControl : RegisterParser := fixedRun 0xC0016900 0x200 1
def hwCtxSetEqaaControl : RegisterParser := fixedRun 0xC0016900 0x201 1
def hwCtxSetGuardBands : RegisterParser := fixedRun 0xC0046900 0x2FA 4
def hwCtxSetHardwareScreenOffset : RegisterParser := fixedRun 0xC0016900 0x8D 1
def hwCtxSetWindowOffset : RegisterParser := fixedRun 0xC0016900 0x80 1
def hwCtxSetLineControl : RegisterParser := fixedRun 0xC0016900 0x282 1
def hwCtxSetModeControl : RegisterParser := fixedRun 0xC0016900 0x205 1
def hwCtxSetRenderControl : RegisterParser := fixedRun 0xC0016900 0x0 1
def hwCtxSetRenderTargetMask : RegisterParser := fixedRun 0xC0016900 0x8E 1
def hwCtxSetScanModeControl : RegisterParser := fixedRun 0xc0016900 0x292 1
def hwCtxSetShaderStages : RegisterParser := fixedRun 0xC0016900 0x2D5 1
def hwCtxSetStencilClear : RegisterParser := fixedRun 0xC0016900 0xA 1
def hwCtxSetStencilControl : RegisterParser := fixedRun 0xC0016900 0x10B 1
def hwCtxSetStencilInfo : RegisterParser := fixedRun 0xC0016900 0x11 1
def hwCtxSetStencilMask : RegisterParser := fixedRun 0xc0026900 0x10C 2
def hwCtxSetViewportTransformControl : RegisterParser := fixedRun 0xC0016900 0x206 1

def hwCtxSetCentroidPriority : RegisterParser := wholeRun
def hwCtxSetDepthMetadataRegisters : RegisterParser := wholeRun
def hwCtxSetBorderColorTableAddr : RegisterParser := wholeRun
def hwCtxSetPaScExtendedControl : RegisterParser := wholeRun
def hwCtxSetCbDccControl : RegisterParser := wholeRun
def hwCtxSetPointState : RegisterParser := wholeRun
def hwCtxSetAlphaToMask : RegisterParser := wholeRun
def hwCtxSetDrawPayloadControl : RegisterParser := wholeRun
def hwCtxSetObjprimIdControl : RegisterParser := wholeRun
def hwCtxSetPrimitiveIdReset : RegisterParser := wholeRun
def hwCtxSetVtxControl : RegisterParser := wholeRun
def hwCtxSetFovWindow : RegisterParser := wholeRun
def hwCtxSetScanModeControl1 : RegisterParser := wholeRun
def hwCtxSetAaMask : RegisterParser := wholeRun
def hwCtxSetPolyOffsetRegisters : RegisterParser := wholeRun

def hwCtxSetDepthBounds : RegisterParser := knownRun [0x8, 0x9]

def hwCtxSetGenericScissor : RegisterParser := rangeRun 0x90 0x91
def hwCtxSetWindowScissor : RegisterParser := rangeRun 0x81 0x82
def hwCtxSetScreenScissor : RegisterParser := rangeRun 0xC 0xD
def hwCtxSetViewportScissor : RegisterParser := rangeRun 0x94 0xB3
def hwCtxSetViewportZ : RegisterParser := rangeRun 0xB4 0xD3
def hwCtxSetViewportScaleOffset : RegisterParser := rangeRun 0x10F 0x16E
def hwCtxSetClipRect : RegisterParser := rangeRun 0x83 0x8B

def hwCtxSetDepthHtileSurface : RegisterParser :=
  fun cmdId cmdOffset _ _ => do
    exitIf (pm4Len cmdId - 2 ≠ 1)
    exitIf (cmdOffset ≠ 0x2AF)
    return pm4Len cmdId - 2

def hwCtxSetSpiTmpringSize : RegisterParser :=
  fun cmdId _ _ _ => do
    exitIf (countField cmdId ≠ 1)
    return 1

def hwCtxSetPsInput : RegisterParser :=
  fun cmdId cmdOffset _ _ => do
    exitIf (cmdOffset ≠ 0x191)
    exitIf (countField cmdId = 0)
    exitIf (32 < countField cmdId)
    return countField cmdId

/-- The sample locations, one at a time; or all sixteen, which must be followed by the
packet of the two centroid priorities and are consumed together with it. -/
def hwCtxSetAaSampleControl : RegisterParser :=
  fun cmdId cmdOffset buffer dw =>
    if cmdId = 0xc0016900 ∧ 0x2FE ≤ cmdOffset ∧ cmdOffset < 0x2FE + 16 then
      some 1
    else do
      exitIf (cmdId ≠ 0xc0106900)
      exitIf (cmdOffset ≠ 0x2FE)
      if 20 ≤ dw ∧ buffer 16 = 0xc0026900 ∧ buffer 17 = 0x2F5 then
        return 20
      else
        none

/-- The depth target: its format alone, or the eight-register run that must be followed by
the depth info, depth view, HTILE base, HTILE surface and size packets and is consumed
together with them. -/
def hwCtxSetDepthRenderTarget : RegisterParser :=
  fun cmdId cmdOffset buffer dw => do
    exitIf (cmdOffset ≠ 0x10)
    if cmdId = 0xC0016900 then
      return 1
    else if cmdId = 0xC0086900 then
      if 22 ≤ dw ∧ buffer 8 = 0xC0016900 ∧ buffer 9 = 0xF ∧
          buffer 11 = 0xC0016900 ∧ buffer 12 = 0x2 ∧
          buffer 14 = 0xC0016900 ∧ buffer 15 = 0x5 ∧
          buffer 17 = 0xC0016900 ∧ buffer 18 = 0x2AF ∧
          buffer 20 = 0xC0001000 then
        return 22
      else
        none
    else
      none

/-- The registers of one colour target. A run of 11 to 14 is the target itself, consumed
together with the `IT_NOP` packet of its size when that follows; any other run is set
register by register, if the indirect table knows each of them. -/
def hwCtxSetRenderTarget (cxIndirect : Nat → Bool) : RegisterParser :=
  fun cmdId cmdOffset buffer dw =>
    let count := countField cmdId
    if count < 11 ∨ 14 < count then do
      exitIf (count = 0)
      exitIf (∃ i ∈ List.range count, cxNum ≤ cmdOffset + i ∨ cxIndirect (cmdOffset + i) = false)
      return count
    else if count + 2 ≤ dw ∧ buffer count = 0xC0001000 then
      some (count + 2)
    else
      some count

/-! ### Shader registers -/

def hwShIgnoreRegisters : RegisterParser := fun cmdId _ _ _ => some (countField cmdId)

def hwShSetCsRegisters : RegisterParser :=
  knownRun [0x204, 0x205, 0x206, 0x207, 0x208, 0x209, 0x20C, 0x20D, 0x20E, 0x20F, 0x210, 0x211,
    0x212, 0x213, 0x215, 0x216, 0x217, 0x218, 0x219, 0x21A, 0x228, 0x22A, 0x27D]

def hwShSetCsUserSgpr : RegisterParser := userDataRun 0x240 0x24F
def hwShSetPsUserSgpr : RegisterParser := userDataRun 0xC 0x2B
def hwShSetGsUserSgpr : RegisterParser := userDataRun 0x8C 0xAB
def hwShSetHsUserSgpr : RegisterParser := userDataRun 0x10C 0x12B
def hwShSetPsUserAccumSgpr : RegisterParser := userDataRun 0x32 0x35
def hwShSetGsUserAccumSgpr : RegisterParser := userDataRun 0xB2 0xB5
def hwShSetHsUserAccumSgpr : RegisterParser := userDataRun 0x132 0x135

def hwShSetCsUserAccumSgpr : RegisterParser :=
  fun cmdId cmdOffset _ _ => do
    exitIf (cmdOffset < 0x224)
    return countField cmdId

/-! ### User configuration registers -/

def hwUcSetPrimitiveType : RegisterParser :=
  fun cmdId cmdOffset _ _ => do
    exitIf (cmdId ≠ 0xC0017900 ∧ cmdId ≠ 0xC0017A00)
    exitIf (cmdOffset ≠ 0x242)
    return 1

def hwUcSetIndexType : RegisterParser := singleValue 0x243
def hwUcSetObjectId : RegisterParser := singleValue 0x248
def hwUcSetGeIndexOffset : RegisterParser := singleValue 0x24A

def hwUcSetTextureGradientFactors : RegisterParser := wholeRun
def hwUcSetIaMultiVgtParam : RegisterParser := wholeRun
def hwUcSetMultiPrimIbReset : RegisterParser := wholeRun
def hwUcSetBorderColorTableAddr : RegisterParser := wholeRun

def hwUcSetGdsOaRegisters : RegisterParser := knownRun [0x41D, 0x41E, 0x41F]

/-! ### The dispatch tables -/

/-- A dispatch table: the registers of each row go to the row's parser. -/
abbrev RegisterTable := List (List Nat × RegisterParser)

/-- The parser of a register; later assignments of the source come first. -/
def lookup (table : RegisterTable) (offset : Nat) : Option RegisterParser :=
  (table.find? fun row => row.1.contains offset).map Prod.snd

/-- `g_hw_ctx_func`. -/
def contextTable (cxIndirect : Nat → Bool) : RegisterTable := [
  (List.range' 0x10F 96, hwCtxSetViewportScaleOffset),  -- PA_CL_VPORT_XSCALE ..
  (List.range' 0xB4 32, hwCtxSetViewportZ),             -- PA_SC_VPORT_ZMIN_0 ..
  (List.range' 0x94 32, hwCtxSetViewportScissor),       -- PA_SC_VPORT_SCISSOR_0_TL ..
  (List.range' 0x1E0 8, hwCtxSetBlendControl),          -- CB_BLEND0_CONTROL ..
  (List.range' 0x31C 8 15, hwCtxSetColorInfo),          -- CB_COLOR0_INFO ..
  (List.range' 0x318 8 15, hwCtxSetRenderTarget cxIndirect), -- CB_COLOR0_BASE ..
  ([0x2FA], hwCtxSetGuardBands),                        -- PA_CL_GB_VERT_CLIP_ADJ
  ([0x2D5], hwCtxSetShaderStages),                      -- VGT_SHADER_STAGES_EN
  ([0x20D], hwCtxSetObjprimIdControl),                  -- PA_CL_OBJPRIM_ID_CNTL
  ([0x2A3], hwCtxSetPrimitiveIdReset),                  -- VGT_PRIMITIVEID_RESET
  ([0x2A6], hwCtxSetDrawPayloadControl),                -- VGT_DRAW_PAYLOAD_CNTL
  ([0x2DC], hwCtxSetAlphaToMask),                       -- DB_ALPHA_TO_MASK
  -- PA_SC_BINNER_CNTL_0, _1, PA_SC_CONSERVATIVE_RASTERIZATION_CNTL, PA_SC_NGG_MODE_CNTL
  ([0x311, 0x312, 0x313, 0x314], hwCtxSetPaScExtendedControl),
  ([0x006], hwCtxSetAaMask),                            -- PS_SHADER_SAMPLE_EXCLUSION_MASK
  ([0x2F9], hwCtxSetVtxControl),                        -- PA_SU_VTX_CNTL
  ([0x30E, 0x30F], hwCtxSetAaMask),                     -- PA_SC_AA_MASK_X0Y0_X1Y0, _X0Y1_X1Y1
  ([0x2F5, 0x2F6], hwCtxSetCentroidPriority),           -- PA_SC_CENTROID_PRIORITY_0, _1
  (List.range' 0x2FE 16, hwCtxSetAaSampleControl),      -- PA_SC_AA_SAMPLE_LOCS_PIXEL_X0Y0_0 ..
  ([0x2F8], hwCtxSetAaConfig),                          -- PA_SC_AA_CONFIG
  ([0x293], hwCtxSetScanModeControl1),                  -- PA_SC_MODE_CNTL_1
  ([0x292], hwCtxSetScanModeControl),                   -- PA_SC_MODE_CNTL_0
  ([0x0EB, 0x0EC], hwCtxSetFovWindow),                  -- PA_SC_FOV_WINDOW_LR, _TB
  ([0x282], hwCtxSetLineControl),                       -- PA_SU_LINE_CNTL
  ([0x206], hwCtxSetViewportTransformControl),          -- PA_CL_VTE_CNTL
  (List.range' 0x2DE 6, hwCtxSetPolyOffsetRegisters),   -- PA_SU_POLY_OFFSET_DB_FMT_CNTL ..
  ([0x205], hwCtxSetModeControl),                       -- PA_SU_SC_MODE_CNTL
  ([0x204], hwCtxSetClipControl),                       -- PA_CL_CLIP_CNTL
  ([0x280, 0x281], hwCtxSetPointState),                 -- PA_SU_POINT_SIZE, _MINMAX
  ([0x008, 0x009], hwCtxSetDepthBounds),                -- DB_DEPTH_BOUNDS_MIN, _MAX
  ([0x202], hwCtxSetColorControl),                      -- CB_COLOR_CONTROL
  ([0x201], hwCtxSetEqaaControl),                       -- DB_EQAA
  ([0x200], hwCtxSetDepthControl),                      -- DB_DEPTH_CONTROL
  ([0x1BA], hwCtxSetSpiTmpringSize),                    -- SPI_TMPRING_SIZE
  ([0x191], hwCtxSetPsInput),                           -- SPI_PS_INPUT_CNTL_0
  ([0x10C], hwCtxSetStencilMask),                       -- DB_STENCILREFMASK
  ([0x10B], hwCtxSetStencilControl),                    -- DB_STENCIL_CONTROL
  ([0x109], hwCtxSetCbDccControl),                      -- CB_DCC_CONTROL
  ([0x105], hwCtxSetBlendColor),                        -- CB_BLEND_RED
  ([0x090], hwCtxSetGenericScissor),                    -- PA_SC_GENERIC_SCISSOR_TL
  ([0x08E], hwCtxSetRenderTargetMask),                  -- CB_TARGET_MASK
  (List.range' 0x83 9, hwCtxSetClipRect),               -- PA_SC_CLIPRECT_RULE ..
  ([0x081], hwCtxSetWindowScissor),                     -- PA_SC_WINDOW_SCISSOR_TL
  ([0x080], hwCtxSetWindowOffset),                      -- PA_SC_WINDOW_OFFSET
  ([0x08D], hwCtxSetHardwareScreenOffset),              -- PA_SU_HARDWARE_SCREEN_OFFSET
  ([0x2AF], hwCtxSetDepthHtileSurface),                 -- DB_HTILE_SURFACE
  ([0x011], hwCtxSetStencilInfo),                       -- DB_STENCIL_INFO
  ([0x010], hwCtxSetDepthRenderTarget),                 -- DB_Z_INFO
  ([0x00C], hwCtxSetScreenScissor),                     -- PA_SC_SCREEN_SCISSOR_TL
  ([0x00B], hwCtxSetDepthClear),                        -- DB_DEPTH_CLEAR
  ([0x00A], hwCtxSetStencilClear),                      -- DB_STENCIL_CLEAR
  ([0x020, 0x021], hwCtxSetBorderColorTableAddr),       -- TA_BC_BASE_ADDR, _HI
  -- DB_COUNT_CONTROL, DB_RENDER_OVERRIDE, _OVERRIDE2, DB_DFSM_CONTROL,
  -- DB_RMI_L2_CACHE_CONTROL, CB_RMI_GL2_CACHE_CONTROL
  ([0x001, 0x003, 0x004, 0x00E, 0x01F, 0x104], hwCtxSetDepthMetadataRegisters),
  ([0x000], hwCtxSetRenderControl)]                     -- DB_RENDER_CONTROL

/-- `g_hw_sh_func`. -/
def shaderTable : RegisterTable := [
  -- SPI_SHADER_TBA_LO_PS, PGM_RSRC4_PS, TMA_LO_PS, TMA_HI_PS, PGM_RSRC3_PS, REQ_CTRL_PS;
  -- PGM_RSRC4_GS, USER_DATA_ADDR_LO_GS, _HI_GS, PGM_RSRC3_GS, REQ_CTRL_ESGS;
  -- PGM_RSRC4_HS, USER_DATA_ADDR_LO_HS, _HI_HS, PGM_RSRC3_HS, REQ_CTRL_LSHS; PGM_RSRC1_ES
  ([0x000, 0x001, 0x002, 0x003, 0x007, 0x030, 0x081, 0x082, 0x083, 0x087, 0x0B0,
    0x101, 0x102, 0x103, 0x107, 0x130, 0x0CA], hwShIgnoreRegisters),
  -- COMPUTE_START_X .. NUM_THREAD_Z, PGM_LO .. RSRC2, RESOURCE_LIMITS, DESTINATION_EN_SE0, _SE1,
  -- TMPRING_SIZE, DESTINATION_EN_SE2, _SE3, PGM_RSRC3, SHADER_CHKSUM, DISPATCH_TUNNEL
  ([0x204, 0x205, 0x206, 0x207, 0x208, 0x209, 0x20C, 0x20D, 0x20E, 0x20F, 0x210, 0x211, 0x212,
    0x213, 0x215, 0x216, 0x217, 0x218, 0x219, 0x21A, 0x228, 0x22A, 0x27D], hwShSetCsRegisters),
  (List.range' 0x224 28, hwShSetCsUserAccumSgpr),       -- COMPUTE_USER_ACCUM_0 ..
  (List.range' 0x132 4, hwShSetHsUserAccumSgpr),        -- SPI_SHADER_USER_ACCUM_LSHS_0 ..
  (List.range' 0x0B2 4, hwShSetGsUserAccumSgpr),        -- SPI_SHADER_USER_ACCUM_ESGS_0 ..
  (List.range' 0x032 4, hwShSetPsUserAccumSgpr),        -- SPI_SHADER_USER_ACCUM_PS_0 ..
  (List.range' 0x240 16, hwShSetCsUserSgpr),            -- COMPUTE_USER_DATA_0 ..
  (List.range' 0x10C 32, hwShSetHsUserSgpr),            -- SPI_SHADER_USER_DATA_HS_0 ..
  (List.range' 0x08C 32, hwShSetGsUserSgpr),            -- SPI_SHADER_USER_DATA_GS_0 ..
  (List.range' 0x00C 32, hwShSetPsUserSgpr)]            -- SPI_SHADER_USER_DATA_PS_0 ..

/-- `g_hw_uc_func`. -/
def uconfigTable : RegisterTable := [
  ([0x41D, 0x41E, 0x41F], hwUcSetGdsOaRegisters),       -- GDS_OA_CNTL, _COUNTER, _ADDRESS
  ([0x24A], hwUcSetGeIndexOffset),                      -- GE_INDX_OFFSET
  ([0x380, 0x381], hwUcSetBorderColorTableAddr),        -- TA_CS_BC_BASE_ADDR, _HI
  ([0x24B], hwUcSetMultiPrimIbReset),                   -- GE_MULTI_PRIM_IB_RESET_EN
  ([0x258], hwUcSetIaMultiVgtParam),                    -- IA_MULTI_VGT_PARAM
  ([0x382], hwUcSetTextureGradientFactors),             -- TEXTURE_GRADIENT_FACTORS
  ([0x248], hwUcSetObjectId),                           -- VGT_OBJECT_ID
  ([0x243], hwUcSetIndexType),                          -- VGT_INDEX_TYPE
  ([0x242], hwUcSetPrimitiveType)]                      -- VGT_PRIMITIVE_TYPE

/-! ### Placeholder registers -/

/-- `NormalizeRegisterOffset`: the offset without its selector. -/
def normalizeRegisterOffset (rawOffset : UInt32) : Nat :=
  (rawOffset &&& 0x8fffffff).toNat

/-- `DecodeIndirectCxRegisterOffset`: selector 1 names the `SPI_PS_INPUT_CNTL` registers. -/
def decodeIndirectCxRegisterOffset (rawOffset : UInt32) : Nat :=
  let offset := normalizeRegisterOffset rawOffset
  if rawOffset &&& 0x70000000 = 0x10000000 ∧ offset < 32 then 0x191 + offset else offset

/-- `HwCtxIsFakeRegister`: `CX_NOP` and two registers the hardware does not have. -/
def hwCtxIsFakeRegister (cmdOffset : Nat) : Bool :=
  cmdOffset = 0x18 || cmdOffset = 0x19 || cmdOffset = 0x800003FF

/-- `SH_NOP`. -/
def shNop : Nat := 0x800002FF

/-- `HwUcIsFakeRegister`: the `FSR` registers, `TEXTURE_GRADIENT_CONTROL`,
`MEMORY_MAPPING_MASK` and `UC_NOP`. -/
def hwUcIsFakeRegister (cmdOffset : Nat) : Bool :=
  0x80003FF4 ≤ cmdOffset && cmdOffset ≤ 0x80003FFF

/-- `HwUcTrySetFakeRegisterRange`: the run of placeholders is taken whole; a run that leaves
them stops the process. -/
def hwUcTrySetFakeRegisterRange (cmdOffset numValues : Nat) : Option Bool :=
  if hwUcIsFakeRegister cmdOffset = false then
    some false
  else do
    exitIf (∃ i ∈ List.range numValues, hwUcIsFakeRegister (cmdOffset + i) = false)
    return true

end Prosperismo.Pm4
