/-
The handlers of packets (`pm4Handlers.cpp`) and the tables that they are found in
(`pm4Dispatch.cpp`): what they check of a packet, and the number of dwords that they return.

What a handler does to the state is a parameter, and may stop the process. So are the tables of
single register writes, which are filled at run time. Handlers that check the same things are one
definition with parameters, `fixed` and `sized` for opcodes, `exactly`, `range` and `single` for
registers.
-/
import MagnusPS5.Graphics.Pm4Packets
import MagnusPS5.Graphics.Pm4Registers

namespace MagnusPS5.Graphics.Pm4

variable (cmd_id : BitVec 32)

/-- The dwords of a packet after its header and the register. -/
def reg_num : ℕ := ((cmd_id >>> 16) &&& 0x3fff#32).toNat

def KYTY_PM4_R : BitVec 32 := (cmd_id >>> 2) &&& 0x3f#32

/-- The opcode in a header. -/
def opcodeOf : BitVec 32 := (cmd_id >>> 8) &&& 0xff#32

def NormalizeRegisterOffset (raw_offset : BitVec 32) : ℕ := (raw_offset &&& ~~~0x70000000#32).toNat

/-- A single register write; none where the process stops. -/
abbrev IndirectFunc (S : Type*) := S → ℕ → BitVec 32 → Option S

/-- A handler of an opcode: state, `cmd_id`, address of the payload, `dw` and `num_dw`. -/
abbrev Handler (S : Type*) := S → BitVec 32 → ℕ → ℕ → ℕ → Answer S

/-- A handler of registers: state, `cmd_id`, register, address of the values and `dw`. It makes a
state and a number of dwords; none where the process stops. -/
abbrev Parser (S : Type*) := S → BitVec 32 → ℕ → ℕ → ℕ → Option (S × ℕ)

/-- A command processor with the memory it reads: `word` is the dword at an address. -/
structure CommandProcessor (S : Type*) where
  word : S → ℕ → BitVec 32
  ShouldSkipPredicatedPackets : S → Bool
  m_de_count : S → ℕ
  m_ce_count : S → ℕ
  m_ce_complete : S → Bool
  /-- What the handler of `cmd_id` does, with the words that it reads. -/
  perform : S → BitVec 32 → List (BitVec 32) → Option S
  /-- What the handler of a register does, with the words that it reads. -/
  write : S → BitVec 32 → ℕ → List (BitVec 32) → Option S
  g_hw_ctx_indirect_func : ℕ → Option (IndirectFunc S)
  g_hw_uc_indirect_func : ℕ → Option (IndirectFunc S)

variable {S : Type*}

namespace CommandProcessor

variable (cp : CommandProcessor S)

/-- `buffer[i]`. -/
def dword (s : S) (buffer i : ℕ) : BitVec 32 := cp.word s (buffer + 4 * i)

/-- The first `count` dwords of a buffer. -/
def dwords (s : S) (buffer count : ℕ) : List (BitVec 32) := (List.range count).map (cp.dword s buffer)

/-- 64 bits of a buffer. -/
def qword (s : S) (buffer i : ℕ) : BitVec 64 := cp.dword s buffer (i + 1) ++ cp.dword s buffer i

/-! ## Registers -/

section Parsers

def writes (s : S) (cmd_id : BitVec 32) (cmd_offset buffer count : ℕ) : Option (S × ℕ) :=
  (cp.write s cmd_id cmd_offset (cp.dwords s buffer count)).map (·, count)

/-- Writes of one register after the other, through a table. -/
def writeEach (table : ℕ → Option (IndirectFunc S)) : S → ℕ → List (BitVec 32) → Option S
  | s, _, [] => some s
  | s, cmd_offset, value :: values =>
    match table cmd_offset with
    | none => none
    | some func => (func s cmd_offset value).bind (writeEach table · (cmd_offset + 1) values)

/-- All values of a packet, through a table with `size` registers. -/
def writesEach (table : ℕ → Option (IndirectFunc S)) (size : ℕ) (s : S)
    (cmd_offset buffer count : ℕ) : Option (S × ℕ) :=
  if count ≠ 0 ∧ size < cmd_offset + count then none
  else (writeEach table s cmd_offset (cp.dwords s buffer count)).map (·, count)

/-- A handler for one header. -/
def exactly (header : BitVec 32) (takes : ℕ → Bool) (count : ℕ) : Parser S :=
  fun s cmd_id cmd_offset buffer _ =>
    if cmd_id ≠ header then none
    else if takes cmd_offset = false then none
    else cp.writes s cmd_id cmd_offset buffer count

/-- A handler for all values of a packet. -/
def range (takes : ℕ → ℕ → Bool) : Parser S :=
  fun s cmd_id cmd_offset buffer _ =>
    if takes cmd_offset (reg_num cmd_id) = false then none
    else cp.writes s cmd_id cmd_offset buffer (reg_num cmd_id)

/-- A handler for the registers from `first` to `last`. -/
def between (first last : ℕ) : Parser S :=
  cp.range fun cmd_offset count => count ≠ 0 && first ≤ cmd_offset && cmd_offset + count - 1 ≤ last

/-- A handler for the registers from `first` to `last`, through the table of single writes. -/
def scissor (first last : ℕ) : Parser S :=
  fun s cmd_id cmd_offset buffer _ =>
    if reg_num cmd_id = 0 ∨ cmd_offset < first ∨ last < cmd_offset + reg_num cmd_id - 1 then none
    else cp.writesEach cp.g_hw_ctx_indirect_func CX_NUM s cmd_offset buffer (reg_num cmd_id)

/-- A handler for user data, of the registers from `first` to `last`. -/
def userData (first last : ℕ) : Parser S :=
  cp.range fun cmd_offset _ => first ≤ cmd_offset && cmd_offset ≤ last

/-- A handler for one value of `register`, whatever the packet has. -/
def single (register : ℕ) : Parser S :=
  fun s cmd_id cmd_offset buffer _ =>
    if cmd_offset ≠ register then none else cp.writes s cmd_id cmd_offset buffer 1

def HwCtxSetRenderControl : Parser S := cp.exactly 0xC0016900 (· == DB_RENDER_CONTROL) 1

def HwCtxSetDepthMetadataRegisters : Parser S := cp.range fun _ _ => true

def HwCtxSetBorderColorTableAddr : Parser S := cp.range fun _ _ => true

def HwCtxSetStencilClear : Parser S := cp.exactly 0xC0016900 (· == DB_STENCIL_CLEAR) 1

def HwCtxSetDepthClear : Parser S := cp.exactly 0xC0016900 (· == DB_DEPTH_CLEAR) 1

def HwCtxSetScreenScissor : Parser S := cp.scissor PA_SC_SCREEN_SCISSOR_TL PA_SC_SCREEN_SCISSOR_BR

/-- A batch takes the four packets and the filler packet after it as well. -/
def HwCtxSetDepthRenderTarget : Parser S :=
  fun s cmd_id cmd_offset buffer dw =>
    let word := cp.dword s buffer
    if cmd_offset ≠ DB_Z_INFO then none
    else if cmd_id = 0xC0016900 then cp.writes s cmd_id cmd_offset buffer 1
    else if cmd_id = 0xC0086900 then
      if 22 ≤ dw ∧ word 8 = 0xC0016900 ∧ (word 9).toNat = DB_DEPTH_INFO ∧ word 11 = 0xC0016900 ∧
          (word 12).toNat = DB_DEPTH_VIEW ∧ word 14 = 0xC0016900 ∧
          (word 15).toNat = DB_HTILE_DATA_BASE ∧ word 17 = 0xC0016900 ∧
          (word 18).toNat = DB_HTILE_SURFACE ∧ word 20 = 0xC0001000 then
        cp.writes s cmd_id cmd_offset buffer 22
      else none
    else none

def HwCtxSetStencilInfo : Parser S := cp.exactly 0xC0016900 (· == DB_STENCIL_INFO) 1

def HwCtxSetDepthHtileSurface : Parser S :=
  cp.range fun cmd_offset count => count = 1 && cmd_offset == DB_HTILE_SURFACE

def HwCtxSetHardwareScreenOffset : Parser S :=
  cp.exactly 0xC0016900 (· == PA_SU_HARDWARE_SCREEN_OFFSET) 1

def HwCtxSetWindowOffset : Parser S := cp.exactly 0xC0016900 (· == PA_SC_WINDOW_OFFSET) 1

def HwCtxSetWindowScissor : Parser S := cp.scissor PA_SC_WINDOW_SCISSOR_TL PA_SC_WINDOW_SCISSOR_BR

def HwCtxSetClipRect : Parser S := cp.between PA_SC_CLIPRECT_RULE (PA_SC_CLIPRECT_0_TL + 7)

def HwCtxSetRenderTargetMask : Parser S := cp.exactly 0xC0016900 (· == CB_TARGET_MASK) 1

def HwCtxSetGenericScissor : Parser S :=
  cp.scissor PA_SC_GENERIC_SCISSOR_TL PA_SC_GENERIC_SCISSOR_BR

def HwCtxSetBlendColor : Parser S := cp.exactly 0xC0046900 (· == CB_BLEND_RED) 4

def HwCtxSetCbDccControl : Parser S := cp.range fun _ _ => true

def HwCtxSetStencilControl : Parser S := cp.exactly 0xC0016900 (· == DB_STENCIL_CONTROL) 1

def HwCtxSetStencilMask : Parser S := cp.exactly 0xC0026900 (· == DB_STENCILREFMASK) 2

def HwCtxSetPsInput : Parser S :=
  cp.range fun cmd_offset count => cmd_offset == SPI_PS_INPUT_CNTL_0 && count ≠ 0 && count ≤ 32

def HwCtxSetSpiTmpringSize : Parser S := cp.range fun _ count => count = 1

def HwCtxSetDepthControl : Parser S := cp.exactly 0xC0016900 (· == DB_DEPTH_CONTROL) 1

def HwCtxSetEqaaControl : Parser S := cp.exactly 0xC0016900 (· == DB_EQAA) 1

def HwCtxSetColorControl : Parser S := cp.exactly 0xC0016900 (· == CB_COLOR_CONTROL) 1

def HwCtxSetDepthBounds : Parser S := cp.range fun _ _ => true

def HwCtxSetPointState : Parser S := cp.range fun _ _ => true

def HwCtxSetClipControl : Parser S := cp.exactly 0xC0016900 (· == PA_CL_CLIP_CNTL) 1

def HwCtxSetModeControl : Parser S := cp.exactly 0xC0016900 (· == PA_SU_SC_MODE_CNTL) 1

def HwCtxSetPolyOffsetRegisters : Parser S := cp.range fun _ _ => true

def HwCtxSetViewportTransformControl : Parser S := cp.exactly 0xC0016900 (· == PA_CL_VTE_CNTL) 1

def HwCtxSetLineControl : Parser S := cp.exactly 0xC0016900 (· == PA_SU_LINE_CNTL) 1

def HwCtxSetFovWindow : Parser S := cp.range fun _ _ => true

def HwCtxSetScanModeControl : Parser S := cp.exactly 0xC0016900 (· == PA_SC_MODE_CNTL_0) 1

def HwCtxSetScanModeControl1 : Parser S := cp.range fun _ _ => true

def HwCtxSetAaConfig : Parser S := cp.exactly 0xC0016900 (· == PA_SC_AA_CONFIG) 1

/-- A batch takes the packet of the centroid priorities after it as well. -/
def HwCtxSetAaSampleControl : Parser S :=
  fun s cmd_id cmd_offset buffer dw =>
    let word := cp.dword s buffer
    if cmd_id = 0xC0016900 ∧ PA_SC_AA_SAMPLE_LOCS_PIXEL_X0Y0_0 ≤ cmd_offset ∧
        cmd_offset < PA_SC_AA_SAMPLE_LOCS_PIXEL_X0Y0_0 + 16 then
      cp.writes s cmd_id cmd_offset buffer 1
    else if cmd_id ≠ 0xC0106900 then none
    else if cmd_offset ≠ PA_SC_AA_SAMPLE_LOCS_PIXEL_X0Y0_0 then none
    else if 20 ≤ dw ∧ word 16 = 0xC0026900 ∧ (word 17).toNat = PA_SC_CENTROID_PRIORITY_0 then
      cp.writes s cmd_id cmd_offset buffer 20
    else none

def HwCtxSetCentroidPriority : Parser S := cp.range fun _ _ => true

def HwCtxSetAaMask : Parser S := cp.range fun _ _ => true

def HwCtxSetVtxControl : Parser S := cp.range fun _ _ => true

def HwCtxSetPaScExtendedControl : Parser S := cp.range fun _ _ => true

def HwCtxSetAlphaToMask : Parser S := cp.range fun _ _ => true

def HwCtxSetDrawPayloadControl : Parser S := cp.range fun _ _ => true

def HwCtxSetPrimitiveIdReset : Parser S := cp.range fun _ _ => true

def HwCtxSetObjprimIdControl : Parser S := cp.range fun _ _ => true

def HwCtxSetShaderStages : Parser S := cp.exactly 0xC0016900 (· == VGT_SHADER_STAGES_EN) 1

def HwCtxSetGuardBands : Parser S := cp.exactly 0xC0046900 (· == PA_CL_GB_VERT_CLIP_ADJ) 4

/-- A batch takes the filler packet after it as well, if there is one. -/
def HwCtxSetRenderTarget : Parser S :=
  fun s cmd_id cmd_offset buffer dw =>
    let count := reg_num cmd_id
    if count < 11 ∨ 14 < count then
      if count = 0 then none
      else cp.writesEach cp.g_hw_ctx_indirect_func CX_NUM s cmd_offset buffer count
    else if count + 2 ≤ dw ∧ cp.dword s buffer count = 0xC0001000 then
      cp.writes s cmd_id cmd_offset buffer (count + 2)
    else cp.writes s cmd_id cmd_offset buffer count

def HwCtxSetColorInfo : Parser S := cp.exactly 0xC0016900 (fun _ => true) 1

def HwCtxSetBlendControl : Parser S := cp.exactly 0xC0016900 (fun _ => true) 1

def HwCtxSetViewportScissor : Parser S :=
  cp.between PA_SC_VPORT_SCISSOR_0_TL PA_SC_VPORT_SCISSOR_15_BR

def HwCtxSetViewportZ : Parser S := cp.between PA_SC_VPORT_ZMIN_0 PA_SC_VPORT_ZMAX_15

def HwCtxSetViewportScaleOffset : Parser S := cp.between PA_CL_VPORT_XSCALE PA_CL_VPORT_ZOFFSET_15

def HwShSetPsUserSgpr : Parser S :=
  cp.userData SPI_SHADER_USER_DATA_PS_0 (SPI_SHADER_USER_DATA_PS_0 + 31)

def HwShSetGsUserSgpr : Parser S :=
  cp.userData SPI_SHADER_USER_DATA_GS_0 (SPI_SHADER_USER_DATA_GS_0 + 31)

def HwShSetHsUserSgpr : Parser S :=
  cp.userData SPI_SHADER_USER_DATA_HS_0 (SPI_SHADER_USER_DATA_HS_0 + 31)

def HwShSetCsUserSgpr : Parser S := cp.userData COMPUTE_USER_DATA_0 (COMPUTE_USER_DATA_0 + 15)

def HwShSetPsUserAccumSgpr : Parser S :=
  cp.userData SPI_SHADER_USER_ACCUM_PS_0 (SPI_SHADER_USER_ACCUM_PS_0 + 3)

def HwShSetGsUserAccumSgpr : Parser S :=
  cp.userData SPI_SHADER_USER_ACCUM_ESGS_0 (SPI_SHADER_USER_ACCUM_ESGS_0 + 3)

def HwShSetHsUserAccumSgpr : Parser S :=
  cp.userData SPI_SHADER_USER_ACCUM_LSHS_0 (SPI_SHADER_USER_ACCUM_LSHS_0 + 3)

def HwShSetCsUserAccumSgpr : Parser S := cp.range fun cmd_offset _ => COMPUTE_USER_ACCUM_0 ≤ cmd_offset

def HwShSetCsRegisters : Parser S := cp.range fun _ _ => true

def HwShIgnoreRegisters : Parser S := fun s cmd_id _ _ _ => some (s, reg_num cmd_id)

def HwUcSetPrimitiveType : Parser S :=
  fun s cmd_id cmd_offset buffer _ =>
    if cmd_id ≠ 0xC0017900 ∧ cmd_id ≠ 0xC0017A00 then none
    else if cmd_offset ≠ VGT_PRIMITIVE_TYPE then none
    else cp.writes s cmd_id cmd_offset buffer 1

def HwUcSetIndexType : Parser S := cp.single VGT_INDEX_TYPE

def HwUcSetObjectId : Parser S := cp.single VGT_OBJECT_ID

def HwUcSetTextureGradientFactors : Parser S := cp.range fun _ _ => true

def HwUcSetIaMultiVgtParam : Parser S := cp.range fun _ _ => true

def HwUcSetMultiPrimIbReset : Parser S := cp.single GE_MULTI_PRIM_IB_RESET_EN

def HwUcSetBorderColorTableAddr : Parser S := cp.range fun _ _ => true

def HwUcSetGeIndexOffset : Parser S := cp.single GE_INDX_OFFSET

def HwUcSetGdsOaRegisters : Parser S := cp.range fun _ _ => true

end Parsers

/-- `MakeContextDispatchTable`; a later entry for a register takes the place of an earlier one. -/
def g_hw_ctx_func : List (List ℕ × Parser S) :=
  [([DB_RENDER_CONTROL], cp.HwCtxSetRenderControl),
    ([DB_COUNT_CONTROL, DB_RENDER_OVERRIDE, DB_RENDER_OVERRIDE2, DB_DFSM_CONTROL,
      DB_RMI_L2_CACHE_CONTROL, CB_RMI_GL2_CACHE_CONTROL], cp.HwCtxSetDepthMetadataRegisters),
    ([TA_BC_BASE_ADDR, TA_BC_BASE_ADDR_HI], cp.HwCtxSetBorderColorTableAddr),
    ([DB_STENCIL_CLEAR], cp.HwCtxSetStencilClear),
    ([DB_DEPTH_CLEAR], cp.HwCtxSetDepthClear),
    ([PA_SC_SCREEN_SCISSOR_TL], cp.HwCtxSetScreenScissor),
    ([DB_Z_INFO], cp.HwCtxSetDepthRenderTarget),
    ([DB_STENCIL_INFO], cp.HwCtxSetStencilInfo),
    ([DB_HTILE_SURFACE], cp.HwCtxSetDepthHtileSurface),
    ([PA_SU_HARDWARE_SCREEN_OFFSET], cp.HwCtxSetHardwareScreenOffset),
    ([PA_SC_WINDOW_OFFSET], cp.HwCtxSetWindowOffset),
    ([PA_SC_WINDOW_SCISSOR_TL], cp.HwCtxSetWindowScissor),
    ((List.range 9).map (PA_SC_CLIPRECT_RULE + ·), cp.HwCtxSetClipRect),
    ([CB_TARGET_MASK], cp.HwCtxSetRenderTargetMask),
    ([PA_SC_GENERIC_SCISSOR_TL], cp.HwCtxSetGenericScissor),
    ([CB_BLEND_RED], cp.HwCtxSetBlendColor),
    ([CB_DCC_CONTROL], cp.HwCtxSetCbDccControl),
    ([DB_STENCIL_CONTROL], cp.HwCtxSetStencilControl),
    ([DB_STENCILREFMASK], cp.HwCtxSetStencilMask),
    ([SPI_PS_INPUT_CNTL_0], cp.HwCtxSetPsInput),
    ([SPI_TMPRING_SIZE], cp.HwCtxSetSpiTmpringSize),
    ([DB_DEPTH_CONTROL], cp.HwCtxSetDepthControl),
    ([DB_EQAA], cp.HwCtxSetEqaaControl),
    ([CB_COLOR_CONTROL], cp.HwCtxSetColorControl),
    ([DB_DEPTH_BOUNDS_MIN, DB_DEPTH_BOUNDS_MAX], cp.HwCtxSetDepthBounds),
    ([PA_SU_POINT_SIZE, PA_SU_POINT_MINMAX], cp.HwCtxSetPointState),
    ([PA_CL_CLIP_CNTL], cp.HwCtxSetClipControl),
    ([PA_SU_SC_MODE_CNTL], cp.HwCtxSetModeControl),
    ([PA_SU_POLY_OFFSET_DB_FMT_CNTL, PA_SU_POLY_OFFSET_CLAMP, PA_SU_POLY_OFFSET_FRONT_SCALE,
      PA_SU_POLY_OFFSET_FRONT_OFFSET, PA_SU_POLY_OFFSET_BACK_SCALE, PA_SU_POLY_OFFSET_BACK_OFFSET],
      cp.HwCtxSetPolyOffsetRegisters),
    ([PA_CL_VTE_CNTL], cp.HwCtxSetViewportTransformControl),
    ([PA_SU_LINE_CNTL], cp.HwCtxSetLineControl),
    ([PA_SC_FOV_WINDOW_LR, PA_SC_FOV_WINDOW_TB], cp.HwCtxSetFovWindow),
    ([PA_SC_MODE_CNTL_0], cp.HwCtxSetScanModeControl),
    ([PA_SC_MODE_CNTL_1], cp.HwCtxSetScanModeControl1),
    ([PA_SC_AA_CONFIG], cp.HwCtxSetAaConfig),
    ((List.range 16).map (PA_SC_AA_SAMPLE_LOCS_PIXEL_X0Y0_0 + ·), cp.HwCtxSetAaSampleControl),
    ([PA_SC_CENTROID_PRIORITY_0, PA_SC_CENTROID_PRIORITY_1], cp.HwCtxSetCentroidPriority),
    ([PA_SC_AA_MASK_X0Y0_X1Y0, PA_SC_AA_MASK_X0Y1_X1Y1], cp.HwCtxSetAaMask),
    ([PA_SU_VTX_CNTL], cp.HwCtxSetVtxControl),
    ([PS_SHADER_SAMPLE_EXCLUSION_MASK], cp.HwCtxSetAaMask),
    ([PA_SC_BINNER_CNTL_0, PA_SC_BINNER_CNTL_1, PA_SC_CONSERVATIVE_RASTERIZATION_CNTL,
      PA_SC_NGG_MODE_CNTL], cp.HwCtxSetPaScExtendedControl),
    ([DB_ALPHA_TO_MASK], cp.HwCtxSetAlphaToMask),
    ([VGT_DRAW_PAYLOAD_CNTL], cp.HwCtxSetDrawPayloadControl),
    ([VGT_PRIMITIVEID_RESET], cp.HwCtxSetPrimitiveIdReset),
    ([PA_CL_OBJPRIM_ID_CNTL], cp.HwCtxSetObjprimIdControl),
    ([VGT_SHADER_STAGES_EN], cp.HwCtxSetShaderStages),
    ([PA_CL_GB_VERT_CLIP_ADJ], cp.HwCtxSetGuardBands),
    ((List.range 8).map (CB_COLOR0_BASE + · * 15), cp.HwCtxSetRenderTarget),
    ((List.range 8).map (CB_COLOR0_INFO + · * 15), cp.HwCtxSetColorInfo),
    ((List.range 8).map (CB_BLEND0_CONTROL + ·), cp.HwCtxSetBlendControl),
    ((List.range 16).map (PA_SC_VPORT_SCISSOR_0_TL + · * 2), cp.HwCtxSetViewportScissor),
    ((List.range 16).map (PA_SC_VPORT_SCISSOR_0_BR + · * 2), cp.HwCtxSetViewportScissor),
    ((List.range 16).map (PA_SC_VPORT_ZMIN_0 + · * 2), cp.HwCtxSetViewportZ),
    ((List.range 16).map (PA_SC_VPORT_ZMAX_0 + · * 2), cp.HwCtxSetViewportZ),
    ((List.range 96).map (PA_CL_VPORT_XSCALE + ·), cp.HwCtxSetViewportScaleOffset)]

/-- `MakeShaderDispatchTable`. -/
def g_hw_sh_func : List (List ℕ × Parser S) :=
  [((List.range 32).map (SPI_SHADER_USER_DATA_PS_0 + ·), cp.HwShSetPsUserSgpr),
    ((List.range 32).map (SPI_SHADER_USER_DATA_GS_0 + ·), cp.HwShSetGsUserSgpr),
    ((List.range 32).map (SPI_SHADER_USER_DATA_HS_0 + ·), cp.HwShSetHsUserSgpr),
    ((List.range 16).map (COMPUTE_USER_DATA_0 + ·), cp.HwShSetCsUserSgpr),
    ((List.range 4).map (SPI_SHADER_USER_ACCUM_PS_0 + ·), cp.HwShSetPsUserAccumSgpr),
    ((List.range 4).map (SPI_SHADER_USER_ACCUM_ESGS_0 + ·), cp.HwShSetGsUserAccumSgpr),
    ((List.range 4).map (SPI_SHADER_USER_ACCUM_LSHS_0 + ·), cp.HwShSetHsUserAccumSgpr),
    ((List.range (COMPUTE_USER_DATA_0 - COMPUTE_USER_ACCUM_0)).map (COMPUTE_USER_ACCUM_0 + ·),
      cp.HwShSetCsUserAccumSgpr),
    ([COMPUTE_PGM_LO, COMPUTE_PGM_HI, COMPUTE_TBA_LO, COMPUTE_TBA_HI, COMPUTE_TMA_LO,
      COMPUTE_TMA_HI, COMPUTE_PGM_RSRC1, COMPUTE_PGM_RSRC2, COMPUTE_START_X, COMPUTE_START_Y,
      COMPUTE_START_Z, COMPUTE_NUM_THREAD_X, COMPUTE_NUM_THREAD_Y, COMPUTE_NUM_THREAD_Z,
      COMPUTE_RESOURCE_LIMITS, COMPUTE_DESTINATION_EN_SE0, COMPUTE_DESTINATION_EN_SE1,
      COMPUTE_TMPRING_SIZE, COMPUTE_DESTINATION_EN_SE2, COMPUTE_DESTINATION_EN_SE3,
      COMPUTE_PGM_RSRC3, COMPUTE_SHADER_CHKSUM, COMPUTE_DISPATCH_TUNNEL], cp.HwShSetCsRegisters),
    ([SPI_SHADER_TBA_LO_PS, SPI_SHADER_PGM_RSRC3_PS, SPI_SHADER_PGM_RSRC4_PS,
      SPI_SHADER_TMA_LO_PS, SPI_SHADER_TMA_HI_PS, SPI_SHADER_REQ_CTRL_PS, SPI_SHADER_PGM_RSRC3_GS,
      SPI_SHADER_PGM_RSRC4_GS, SPI_SHADER_USER_DATA_ADDR_LO_GS, SPI_SHADER_USER_DATA_ADDR_HI_GS,
      SPI_SHADER_REQ_CTRL_ESGS, SPI_SHADER_PGM_RSRC3_HS, SPI_SHADER_PGM_RSRC4_HS,
      SPI_SHADER_USER_DATA_ADDR_LO_HS, SPI_SHADER_USER_DATA_ADDR_HI_HS, SPI_SHADER_REQ_CTRL_LSHS],
      HwShIgnoreRegisters)]

/-- `MakeUconfigDispatchTable`. -/
def g_hw_uc_func : List (List ℕ × Parser S) :=
  [([VGT_PRIMITIVE_TYPE], cp.HwUcSetPrimitiveType),
    ([VGT_INDEX_TYPE], cp.HwUcSetIndexType),
    ([VGT_OBJECT_ID], cp.HwUcSetObjectId),
    ([TEXTURE_GRADIENT_FACTORS], cp.HwUcSetTextureGradientFactors),
    ([IA_MULTI_VGT_PARAM], cp.HwUcSetIaMultiVgtParam),
    ([GE_MULTI_PRIM_IB_RESET_EN], cp.HwUcSetMultiPrimIbReset),
    ([TA_CS_BC_BASE_ADDR, TA_CS_BC_BASE_ADDR_HI], cp.HwUcSetBorderColorTableAddr),
    ([GE_INDX_OFFSET], cp.HwUcSetGeIndexOffset),
    ([GDS_OA_CNTL, GDS_OA_COUNTER, GDS_OA_ADDRESS], cp.HwUcSetGdsOaRegisters)]

/-- The entry of a table for a register: the last one that names it. -/
def parserAt (table : List (List ℕ × Parser S)) (cmd_offset : ℕ) : Option (Parser S) :=
  (table.reverse.find? fun entry => cmd_offset ∈ entry.1).map (·.2)

/-! ## Opcodes -/

/-- A handler that does what it does and returns `count`. -/
def runs (s : S) (cmd_id : BitVec 32) (buffer count : ℕ) : Answer S :=
  match cp.perform s cmd_id (cp.dwords s buffer count) with
  | none => .exit
  | some s' => .ran s' count

/-- A handler for the headers that are listed with the dwords after them. -/
def fixed (headers : List (BitVec 32 × ℕ)) (takes : BitVec 32 → (ℕ → BitVec 32) → Bool) :
    Handler S :=
  fun s cmd_id buffer _ _ =>
    match headers.lookup cmd_id with
    | none => .exit
    | some count =>
      if takes cmd_id (cp.dword s buffer) = false then .exit else cp.runs s cmd_id buffer count

/-- A handler for packets of an opcode, or of a custom code, that have a length it takes. -/
def sized (code : BitVec 32 → Bool) (lengths : ℕ → Bool)
    (takes : BitVec 32 → (ℕ → BitVec 32) → Bool) : Handler S :=
  fun s cmd_id buffer _ _ =>
    if code cmd_id = false then .exit
    else if lengths (KYTY_PM4_LEN cmd_id) = false then .exit
    else if takes cmd_id (cp.dword s buffer) = false then .exit
    else cp.runs s cmd_id buffer (KYTY_PM4_LEN cmd_id - 1)

/-- A handler that waits for `ready`, with the header that it takes. -/
def waits (header : BitVec 32) (takes : (ℕ → BitVec 32) → Bool)
    (ready : S → (ℕ → BitVec 32) → Option Bool) : Handler S :=
  fun s cmd_id buffer _ _ =>
    if cmd_id ≠ header then .exit
    else if takes (cp.dword s buffer) = false then .exit
    else
      match ready s (cp.dword s buffer) with
      | none => .exit
      | some ok => .tested ok 1

def CpOpAcquireMem : Handler S :=
  fun s cmd_id _ _ _ =>
    if cmd_id ≠ 0xC0055800 ∧ cmd_id ≠ 0xC0061050 then .exit
    else .ran s (if cmd_id = 0xC0061050 then 7 else 6)

def CpOpDispatchDirect : Handler S :=
  cp.sized (opcodeOf · == IT_DISPATCH_DIRECT) (· == 5) fun _ _ => true

def CpOpDispatchIndirect : Handler S :=
  cp.fixed [(0xC0011600, 2), (0xC0021600, 3)] fun cmd_id word =>
    cmd_id ≠ 0xC0021600 || word 0 ≠ 0 || word 1 ≠ 0

def CpOpGetLodStats : Handler S := cp.fixed [(0xC0038E00, 4)] fun _ _ => true

def CpOpDispatchReset : Handler S := cp.fixed [(0xC0001024, 1)] fun _ _ => true

def CpOpPfpSyncMe : Handler S := cp.fixed [(0xC0004200, 1)] fun _ _ => true

def CpOpRewind : Handler S :=
  cp.waits 0xC0005900 (fun word => word 0 &&& ~~~0x81000000 = 0) fun _ word =>
    some (word 0 &&& 0x80000000 ≠ 0)

def CpOpSetPredication : Handler S :=
  cp.sized (opcodeOf · == IT_SET_PREDICATION) (3 ≤ ·) fun _ _ => true

def CopyDataDstToDma : BitVec 32 → Option ℕ
  | 2 | 4 | 5 => some 3
  | 3 | 6 | 7 => some 1
  | _ => none

def CopyDataSrcToDma : BitVec 32 → Option ℕ
  | 2 | 4 | 5 => some 3
  | 3 | 6 | 7 => some 1
  | 10 | 11 => some 2
  | _ => none

/-- What `CpOpCopyData` checks. -/
def copies (word : ℕ → BitVec 32) : Bool :=
  let control := word 0
  let src_sel := ((control &&& 0xf) <<< 1) ||| ((control >>> 30) &&& 0x1)
  let dst_sel := ((control >>> 8) &&& 0xf) <<< 1
  let num_bytes := if (control >>> 16) &&& 0x1 ≠ 0 then 8 else 4
  let dst := word 4 ++ word 3
  let reference_clock_dst : BitVec 32 := if src_sel = 9 then 2 else if src_sel = 18 then 4 else 0
  if reference_clock_dst ≠ 0 then
    dst_sel = reference_clock_dst && dst ≠ 0 && dst.toNat % num_bytes = 0
  else
    match CopyDataSrcToDma src_sel, CopyDataDstToDma dst_sel with
    | some dma_src, some _ => !(dma_src = 2 && num_bytes = 8)
    | _, _ => false

def CpOpCopyData : Handler S := cp.fixed [(0xC0044000, 5)] fun _ word => copies word

def CpOpDmaData : Handler S := cp.fixed [(0xC0055000, 6)] fun _ _ => true

def CpOpDrawIndex : Handler S :=
  cp.fixed [(0xC0073A00, 8), (0xC0042700, 5)] fun cmd_id word =>
    if cmd_id = 0xC0073A00 then word 6 ≤ word 3 && word 7 &&& ~~~0xa0 = 0
    else word 3 ≤ word 0 && word 4 &&& ~~~0x20 = 0

def CpOpDrawIndirect : Handler S := cp.fixed [(0xC0032400, 4), (0xC0032500, 4)] fun _ _ => true

def CpOpDrawIndirectMulti : Handler S :=
  cp.fixed [(0xC0082C00, 9), (0xC0083800, 9)] fun _ _ => true

def CpOpDrawIndexOffset : Handler S :=
  cp.fixed [(0xC0033500, 4)] fun _ word => word 2 ≤ word 0 && word 3 &&& ~~~0x20 = 0

def CpOpDrawIndexAuto : Handler S := cp.fixed [(0xC0012D00, 2)] fun _ word => word 1 &&& ~~~0x22 = 0

def CpOpClearState : Handler S := cp.fixed [(0xC0001200, 1)] fun _ word => word 0 &&& ~~~0xf = 0

def CpOpContextState : Handler S :=
  cp.sized (KYTY_PM4_R · == R_CONTEXT_STATE) (fun len => len = 3 || len = 5) fun _ word =>
    word 0 ≤ 3

def CpOpDumpConstRam : Handler S :=
  cp.fixed [(0xC0038300, 4)] fun _ word =>
    word 1 < 0x3000 && word 0 ≤ 0xbffc && word 0 &&& 0x3 = 0

def CpOpEventWrite : Handler S :=
  cp.sized (opcodeOf · == IT_EVENT_WRITE) (fun _ => true) fun _ _ => true

def CpOpEventWriteEop : Handler S := cp.fixed [(0xC0044700, 5)] fun _ _ => true

def CpOpEventWriteEos : Handler S := cp.fixed [(0xC0034802, 4)] fun _ _ => true

def CpOpFlip : Handler S := cp.fixed [(0xC004105C, 5)] fun _ _ => true

def CpOpIncrementCeCounter : Handler S := cp.fixed [(0xC0008400, 1)] fun _ word => word 0 = 1

def CpOpIncrementDeCounter : Handler S := cp.fixed [(0xC0008500, 1)] fun _ word => word 0 = 0

def CpOpIndexType : Handler S := cp.fixed [(0xC0002A00, 1)] fun _ _ => true

def CpOpIndexBufferSize : Handler S := cp.fixed [(0xC0001300, 1)] fun _ _ => true

def CpOpIndexBase : Handler S := cp.fixed [(0xC0012600, 2)] fun _ _ => true

def CpOpSetBase : Handler S :=
  cp.sized (opcodeOf · == IT_SET_BASE) (· == 4) fun cmd_id word =>
    word 0 &&& 0xf = 1 && (cmd_id >>> 1) &&& 0x3 ≤ 1

def CpOpIndirectCxRegs : Handler S :=
  cp.sized (opcodeOf · == IT_SET_CONTEXT_REG_INDIRECT) (· == 5) fun _ _ => true

def CpOpIndirectShRegs : Handler S :=
  cp.sized (opcodeOf · == IT_SET_SH_REG_INDIRECT) (· == 5) fun _ _ => true

def CpOpIndirectUcRegs : Handler S :=
  cp.sized (opcodeOf · == IT_SET_UCONFIG_REG_INDIRECT) (· == 5) fun _ _ => true

def CpOpMarker : Handler S :=
  cp.sized (fun _ => true) (fun _ => true) fun _ word =>
    [0x0, 0x4, 0xd, 0x777, 0x778, 0x781].contains (word 0 &&& 0xfff).toNat

def CpOpNumInstances : Handler S := cp.fixed [(0xC0002F00, 1)] fun _ _ => true

def CpOpPopMarker : Handler S := fun s cmd_id _ _ _ => .ran s (reg_num cmd_id + 1)

def CpOpPushMarker : Handler S := fun s cmd_id _ _ _ => .ran s (reg_num cmd_id + 1)

def CpOpReleaseMem : Handler S :=
  cp.fixed [(0xC0061060, 7)] fun _ word =>
    (word 1 >>> 16) &&& 0x3 ≤ 1 && [0, 1, 2, 3, 5].contains ((word 1 >>> 29) &&& 0x7).toNat

def HwCtxIsFakeRegister (cmd_offset : ℕ) : Bool := cmd_offset ∈ [0x18, 0x19, CX_NOP]

/-- What the handler of a register has returned, with the dword of the register. -/
def returned : Option (S × ℕ) → Answer S
  | none => .exit
  | some (_, 0) => .exit
  | some (s, count + 1) => .ran s (count + 2)

/-- The packets of registers that no handler is entered for. -/
def unhandled : Option (S × ℕ) → Answer S
  | none => .exit
  | some (s, count) => .ran s (count + 1)

def CpOpSetContextReg : Handler S :=
  fun s cmd_id buffer dw _ =>
    let cmd_offset := NormalizeRegisterOffset (cp.dword s buffer 0)
    if HwCtxIsFakeRegister cmd_offset then .ran s 2
    else if CX_NUM ≤ cmd_offset then .exit
    else
      match parserAt cp.g_hw_ctx_func cmd_offset with
      | none =>
        unhandled (cp.writesEach cp.g_hw_ctx_indirect_func CX_NUM s cmd_offset (buffer + 4)
          (reg_num cmd_id))
      | some pfunc => returned (pfunc s cmd_id cmd_offset (buffer + 4) dw)

def CpOpSetShaderReg : Handler S :=
  fun s cmd_id buffer dw _ =>
    let cmd_offset := (cp.dword s buffer 0).toNat
    if cmd_offset = SH_NOP then .ran s 2
    else if SH_NUM ≤ cmd_offset then .exit
    else
      match parserAt cp.g_hw_sh_func cmd_offset with
      | none => .exit
      | some pfunc => returned (pfunc s cmd_id cmd_offset (buffer + 4) dw)

def HwUcIsFakeRegister (cmd_offset : ℕ) : Bool :=
  cmd_offset ∈ [FSR_EXTEND_SUBPIXEL_ROUNDING, FSR_ALPHA_VALUE0, FSR_ALPHA_VALUE1,
    FSR_CONTROL_POINT0, FSR_CONTROL_POINT1, FSR_CONTROL_POINT2, FSR_CONTROL_POINT3, FSR_WINDOW0,
    FSR_WINDOW1, TEXTURE_GRADIENT_CONTROL, MEMORY_MAPPING_MASK, UC_NOP]

/-- The register that `CpOpSetUconfigReg` starts at. -/
def uconfigOffset (cmd_id raw_cmd_offset : BitVec 32) : ℕ :=
  if opcodeOf cmd_id = IT_SET_UCONFIG_REG_INDEX then (raw_cmd_offset &&& 0x0fffffff).toNat
  else NormalizeRegisterOffset raw_cmd_offset

def CpOpSetUconfigReg : Handler S :=
  fun s cmd_id buffer dw _ =>
    let cmd_offset := uconfigOffset cmd_id (cp.dword s buffer 0)
    if HwUcIsFakeRegister cmd_offset then
      if (List.range (reg_num cmd_id)).all fun i => HwUcIsFakeRegister (cmd_offset + i) then
        .ran s (KYTY_PM4_LEN cmd_id - 1)
      else .exit
    else if UC_NUM ≤ cmd_offset then .exit
    else
      match parserAt cp.g_hw_uc_func cmd_offset with
      | none =>
        unhandled (cp.writesEach cp.g_hw_uc_indirect_func UC_NUM s cmd_offset (buffer + 4)
          (reg_num cmd_id))
      | some pfunc => returned (pfunc s cmd_id cmd_offset (buffer + 4) dw)

def CpOpWaitFlipDone : Handler S := cp.fixed [(0xC0051018, 6)] fun _ _ => true

/-- `CpOpWaitRegMemWaitOp`, of 32 bits. -/
def waitOp32 (control : BitVec 32) : BitVec 32 :=
  ((control >>> 8) &&& 0x3) ||| ((control >>> 4) &&& 0xc)

/-- `CpOpWaitRegMemWaitOp`, of 64 bits. -/
def waitOp64 (control : BitVec 32) : BitVec 32 :=
  ((control >>> 8) &&& 0x1) ||| ((control >>> 5) &&& 0x6)

/-- `CommandProcessor::WaitRegMem`, with the value that is read at the address. -/
def WaitRegMem (func : BitVec 32) (addr value ref mask : BitVec 64) (wait_op : BitVec 32) :
    Option Bool :=
  if addr = 0 then none
  else if wait_op &&& ~~~1 ≠ 0 then none
  else Processor.TestWaitRegMemValue value ref mask func.toNat

def CpOpWaitRegMem32 : Handler S :=
  fun s cmd_id buffer _ _ =>
    let word := cp.dword s buffer
    let addr := cp.qword s buffer 0
    if KYTY_PM4_R cmd_id ≠ R_WAIT_MEM_32 then .exit
    else if KYTY_PM4_LEN cmd_id ≠ 7 then .exit
    else if word 4 &&& 0x10 = 0 then .exit
    else
      match WaitRegMem (word 4 &&& 0x7) addr ((cp.word s addr.toNat).setWidth 64)
          ((word 3).setWidth 64) ((word 2).setWidth 64) (waitOp32 (word 4)) with
      | none => .exit
      | some ok => .tested ok 6

def CpOpWaitRegMem64 : Handler S :=
  fun s cmd_id buffer _ _ =>
    let word := cp.dword s buffer
    let addr := cp.qword s buffer 0
    if KYTY_PM4_R cmd_id ≠ R_WAIT_MEM_64 then .exit
    else if KYTY_PM4_LEN cmd_id ≠ 9 then .exit
    else if word 6 &&& 0x10 = 0 then .exit
    else
      match WaitRegMem (word 6 &&& 0x7) addr (cp.qword s addr.toNat 0) (cp.qword s buffer 4)
          (cp.qword s buffer 2) (waitOp64 (word 6)) with
      | none => .exit
      | some ok => .tested ok 8

def CpOpWaitOnCeCounter : Handler S :=
  cp.waits 0xC0008600 (fun word => word 0 = 1) fun s _ =>
    some (cp.m_de_count s < cp.m_ce_count s || cp.m_ce_complete s)

def CpOpWaitOnDeCounterDiff : Handler S :=
  cp.waits 0xC0008800 (fun _ => true) fun s word =>
    if cp.m_ce_count s < cp.m_de_count s then none
    else some (cp.m_ce_count s - cp.m_de_count s < (word 0).toNat)

def CpOpWriteConstRam : Handler S :=
  cp.sized (fun _ => true) (fun _ => true) fun cmd_id word =>
    reg_num cmd_id < 0x3000 && word 0 ≤ 0xbffc && word 0 &&& 0x3 = 0

def CpOpWriteData : Handler S :=
  cp.sized (opcodeOf · == IT_WRITE_DATA) (fun _ => true) fun _ _ => true

/-- `MakeCustomOpcodeDispatchTable`. -/
def g_cp_op_custom_func : List (BitVec 32 × Handler S) :=
  [(R_DISPATCH_RESET, cp.CpOpDispatchReset), (R_WAIT_MEM_32, cp.CpOpWaitRegMem32),
    (R_WAIT_FLIP_DONE, cp.CpOpWaitFlipDone), (R_PUSH_MARKER, CpOpPushMarker),
    (R_POP_MARKER, CpOpPopMarker), (R_ACQUIRE_MEM, CpOpAcquireMem),
    (R_WAIT_MEM_64, cp.CpOpWaitRegMem64), (R_FLIP, cp.CpOpFlip),
    (R_RELEASE_MEM, cp.CpOpReleaseMem), (R_CONTEXT_STATE, cp.CpOpContextState)]

def CpOpNop : Handler S :=
  fun s cmd_id buffer dw num_dw =>
    if KYTY_PM4_R cmd_id = R_ZERO then
      if cp.dword s buffer 0 &&& 0xffff0000 = 0x68750000 then cp.CpOpMarker s cmd_id buffer dw num_dw
      else .ran s (KYTY_PM4_LEN cmd_id - 1)
    else
      match cp.g_cp_op_custom_func.lookup (KYTY_PM4_R cmd_id) with
      | none => .exit
      | some cp_op => cp_op s cmd_id buffer dw num_dw

/-- `MakeOpcodeDispatchTable`, without the handlers of `Processor`. -/
def g_cp_op_func : List (BitVec 32 × Handler S) :=
  [(IT_NOP, cp.CpOpNop), (IT_SET_BASE, cp.CpOpSetBase), (IT_CLEAR_STATE, cp.CpOpClearState),
    (IT_INDEX_BASE, cp.CpOpIndexBase), (IT_INDEX_BUFFER_SIZE, cp.CpOpIndexBufferSize),
    (IT_DISPATCH_DIRECT, cp.CpOpDispatchDirect), (IT_DISPATCH_INDIRECT, cp.CpOpDispatchIndirect),
    (IT_DRAW_INDIRECT, cp.CpOpDrawIndirect), (IT_DRAW_INDEX_INDIRECT, cp.CpOpDrawIndirect),
    (IT_DRAW_INDIRECT_MULTI, cp.CpOpDrawIndirectMulti),
    (IT_DRAW_INDEX_INDIRECT_MULTI, cp.CpOpDrawIndirectMulti), (IT_DRAW_INDEX_2, cp.CpOpDrawIndex),
    (IT_DRAW_INDEX_OFFSET_2, cp.CpOpDrawIndexOffset),
    (IT_DISPATCH_DRAW_PREAMBLE, cp.CpOpDrawIndex), (IT_PFP_SYNC_ME, cp.CpOpPfpSyncMe),
    (IT_INDEX_TYPE, cp.CpOpIndexType), (IT_NUM_INSTANCES, cp.CpOpNumInstances),
    (IT_DRAW_INDEX_AUTO, cp.CpOpDrawIndexAuto), (IT_SET_PREDICATION, cp.CpOpSetPredication),
    (IT_WRITE_DATA, cp.CpOpWriteData), (IT_COPY_DATA, cp.CpOpCopyData),
    (IT_EVENT_WRITE, cp.CpOpEventWrite), (IT_EVENT_WRITE_EOP, cp.CpOpEventWriteEop),
    (IT_EVENT_WRITE_EOS, cp.CpOpEventWriteEos), (IT_DMA_DATA, cp.CpOpDmaData),
    (IT_ACQUIRE_MEM, CpOpAcquireMem), (IT_REWIND, cp.CpOpRewind),
    (IT_SET_CONTEXT_REG, cp.CpOpSetContextReg), (IT_SET_SH_REG, cp.CpOpSetShaderReg),
    (IT_SET_UCONFIG_REG, cp.CpOpSetUconfigReg), (IT_SET_UCONFIG_REG_INDEX, cp.CpOpSetUconfigReg),
    (IT_SET_CONTEXT_REG_INDIRECT, cp.CpOpIndirectCxRegs),
    (IT_SET_SH_REG_INDIRECT, cp.CpOpIndirectShRegs),
    (IT_SET_UCONFIG_REG_INDIRECT, cp.CpOpIndirectUcRegs),
    (IT_WRITE_CONST_RAM, cp.CpOpWriteConstRam), (IT_DUMP_CONST_RAM, cp.CpOpDumpConstRam),
    (IT_INCREMENT_CE_COUNTER, cp.CpOpIncrementCeCounter),
    (IT_INCREMENT_DE_COUNTER, cp.CpOpIncrementDeCounter),
    (IT_WAIT_ON_CE_COUNTER, cp.CpOpWaitOnCeCounter),
    (IT_WAIT_ON_DE_COUNTER_DIFF, cp.CpOpWaitOnDeCounterDiff),
    (IT_GET_LOD_STATS, cp.CpOpGetLodStats)]

/-- The processor with these handlers. -/
def processor : Processor S :=
  ⟨cp.word, cp.ShouldSkipPredicatedPackets, fun opcode => cp.g_cp_op_func.lookup opcode⟩

end CommandProcessor

end MagnusPS5.Graphics.Pm4
