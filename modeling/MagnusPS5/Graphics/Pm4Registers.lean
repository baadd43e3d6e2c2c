/-
The opcodes, custom codes and registers of `pm4.h` that the handlers of packets name.
-/
import Mathlib.Data.Nat.Notation

namespace MagnusPS5.Graphics.Pm4

/-! ## Opcodes -/

def IT_NOP : BitVec 32 := 0x10#32
def IT_SET_BASE : BitVec 32 := 0x11#32
def IT_CLEAR_STATE : BitVec 32 := 0x12#32
def IT_INDEX_BUFFER_SIZE : BitVec 32 := 0x13#32
def IT_DISPATCH_DIRECT : BitVec 32 := 0x15#32
def IT_DISPATCH_INDIRECT : BitVec 32 := 0x16#32
def IT_SET_PREDICATION : BitVec 32 := 0x20#32
def IT_DRAW_INDIRECT : BitVec 32 := 0x24#32
def IT_DRAW_INDEX_INDIRECT : BitVec 32 := 0x25#32
def IT_INDEX_BASE : BitVec 32 := 0x26#32
def IT_DRAW_INDEX_2 : BitVec 32 := 0x27#32
def IT_INDEX_TYPE : BitVec 32 := 0x2A#32
def IT_DRAW_INDIRECT_MULTI : BitVec 32 := 0x2C#32
def IT_DRAW_INDEX_AUTO : BitVec 32 := 0x2D#32
def IT_NUM_INSTANCES : BitVec 32 := 0x2F#32
def IT_DRAW_INDEX_OFFSET_2 : BitVec 32 := 0x35#32
def IT_WRITE_DATA : BitVec 32 := 0x37#32
def IT_DRAW_INDEX_INDIRECT_MULTI : BitVec 32 := 0x38#32
def IT_DISPATCH_DRAW_PREAMBLE : BitVec 32 := 0x3A#32
def IT_COPY_DATA : BitVec 32 := 0x40#32
def IT_PFP_SYNC_ME : BitVec 32 := 0x42#32
def IT_EVENT_WRITE : BitVec 32 := 0x46#32
def IT_EVENT_WRITE_EOP : BitVec 32 := 0x47#32
def IT_EVENT_WRITE_EOS : BitVec 32 := 0x48#32
def IT_DMA_DATA : BitVec 32 := 0x50#32
def IT_ACQUIRE_MEM : BitVec 32 := 0x58#32
def IT_REWIND : BitVec 32 := 0x59#32
def IT_SET_SH_REG_INDIRECT : BitVec 32 := 0x63#32
def IT_SET_UCONFIG_REG_INDIRECT : BitVec 32 := 0x64#32
def IT_SET_CONTEXT_REG : BitVec 32 := 0x69#32
def IT_SET_SH_REG : BitVec 32 := 0x76#32
def IT_SET_UCONFIG_REG : BitVec 32 := 0x79#32
def IT_SET_UCONFIG_REG_INDEX : BitVec 32 := 0x7A#32
def IT_WRITE_CONST_RAM : BitVec 32 := 0x81#32
def IT_DUMP_CONST_RAM : BitVec 32 := 0x83#32
def IT_INCREMENT_CE_COUNTER : BitVec 32 := 0x84#32
def IT_INCREMENT_DE_COUNTER : BitVec 32 := 0x85#32
def IT_WAIT_ON_CE_COUNTER : BitVec 32 := 0x86#32
def IT_WAIT_ON_DE_COUNTER_DIFF : BitVec 32 := 0x88#32
def IT_GET_LOD_STATS : BitVec 32 := 0x8E#32
def IT_SET_CONTEXT_REG_INDIRECT : BitVec 32 := 0x9F#32

/-! ## Custom codes, in `IT_NOP` -/

def R_ZERO : BitVec 32 := 0x00#32
def R_WAIT_FLIP_DONE : BitVec 32 := 0x06#32
def R_DISPATCH_RESET : BitVec 32 := 0x09#32
def R_WAIT_MEM_32 : BitVec 32 := 0x0A#32
def R_PUSH_MARKER : BitVec 32 := 0x0B#32
def R_POP_MARKER : BitVec 32 := 0x0C#32
def R_ACQUIRE_MEM : BitVec 32 := 0x14#32
def R_WAIT_MEM_64 : BitVec 32 := 0x16#32
def R_FLIP : BitVec 32 := 0x17#32
def R_RELEASE_MEM : BitVec 32 := 0x18#32
def R_CONTEXT_STATE : BitVec 32 := 0x1A#32

/-! ## Context registers -/

def DB_RENDER_CONTROL : ℕ := 0x0
def DB_COUNT_CONTROL : ℕ := 0x1
def DB_DEPTH_VIEW : ℕ := 0x2
def DB_RENDER_OVERRIDE : ℕ := 0x3
def DB_RENDER_OVERRIDE2 : ℕ := 0x4
def DB_HTILE_DATA_BASE : ℕ := 0x5
def PS_SHADER_SAMPLE_EXCLUSION_MASK : ℕ := 0x6
def DB_DEPTH_BOUNDS_MIN : ℕ := 0x8
def DB_DEPTH_BOUNDS_MAX : ℕ := 0x9
def DB_STENCIL_CLEAR : ℕ := 0xA
def DB_DEPTH_CLEAR : ℕ := 0xB
def PA_SC_SCREEN_SCISSOR_TL : ℕ := 0xC
def PA_SC_SCREEN_SCISSOR_BR : ℕ := 0xD
def DB_DFSM_CONTROL : ℕ := 0xE
def DB_DEPTH_INFO : ℕ := 0xF
def DB_Z_INFO : ℕ := 0x10
def DB_STENCIL_INFO : ℕ := 0x11
def DB_RMI_L2_CACHE_CONTROL : ℕ := 0x1F
def TA_BC_BASE_ADDR : ℕ := 0x20
def TA_BC_BASE_ADDR_HI : ℕ := 0x21
def PA_SC_WINDOW_OFFSET : ℕ := 0x80
def PA_SC_WINDOW_SCISSOR_TL : ℕ := 0x81
def PA_SC_WINDOW_SCISSOR_BR : ℕ := 0x82
def PA_SC_CLIPRECT_RULE : ℕ := 0x83
def PA_SC_CLIPRECT_0_TL : ℕ := 0x84
def PA_SU_HARDWARE_SCREEN_OFFSET : ℕ := 0x8D
def CB_TARGET_MASK : ℕ := 0x8E
def PA_SC_GENERIC_SCISSOR_TL : ℕ := 0x90
def PA_SC_GENERIC_SCISSOR_BR : ℕ := 0x91
def PA_SC_VPORT_SCISSOR_0_TL : ℕ := 0x94
def PA_SC_VPORT_SCISSOR_0_BR : ℕ := 0x95
def PA_SC_VPORT_SCISSOR_15_BR : ℕ := 0xB3
def PA_SC_VPORT_ZMIN_0 : ℕ := 0xB4
def PA_SC_VPORT_ZMAX_0 : ℕ := 0xB5
def PA_SC_VPORT_ZMAX_15 : ℕ := 0xD3
def PA_SC_FOV_WINDOW_LR : ℕ := 0xEB
def PA_SC_FOV_WINDOW_TB : ℕ := 0xEC
def CB_RMI_GL2_CACHE_CONTROL : ℕ := 0x104
def CB_BLEND_RED : ℕ := 0x105
def CB_DCC_CONTROL : ℕ := 0x109
def DB_STENCIL_CONTROL : ℕ := 0x10B
def DB_STENCILREFMASK : ℕ := 0x10C
def PA_CL_VPORT_XSCALE : ℕ := 0x10F
def PA_CL_VPORT_ZOFFSET_15 : ℕ := 0x16E
def SPI_PS_INPUT_CNTL_0 : ℕ := 0x191
def SPI_TMPRING_SIZE : ℕ := 0x1BA
def CB_BLEND0_CONTROL : ℕ := 0x1E0
def DB_DEPTH_CONTROL : ℕ := 0x200
def DB_EQAA : ℕ := 0x201
def CB_COLOR_CONTROL : ℕ := 0x202
def PA_CL_CLIP_CNTL : ℕ := 0x204
def PA_SU_SC_MODE_CNTL : ℕ := 0x205
def PA_CL_VTE_CNTL : ℕ := 0x206
def PA_CL_OBJPRIM_ID_CNTL : ℕ := 0x20D
def PA_SU_POINT_SIZE : ℕ := 0x280
def PA_SU_POINT_MINMAX : ℕ := 0x281
def PA_SU_LINE_CNTL : ℕ := 0x282
def PA_SC_MODE_CNTL_0 : ℕ := 0x292
def PA_SC_MODE_CNTL_1 : ℕ := 0x293
def VGT_PRIMITIVEID_RESET : ℕ := 0x2A3
def VGT_DRAW_PAYLOAD_CNTL : ℕ := 0x2A6
def DB_HTILE_SURFACE : ℕ := 0x2AF
def VGT_SHADER_STAGES_EN : ℕ := 0x2D5
def DB_ALPHA_TO_MASK : ℕ := 0x2DC
def PA_SU_POLY_OFFSET_DB_FMT_CNTL : ℕ := 0x2DE
def PA_SU_POLY_OFFSET_CLAMP : ℕ := 0x2DF
def PA_SU_POLY_OFFSET_FRONT_SCALE : ℕ := 0x2E0
def PA_SU_POLY_OFFSET_FRONT_OFFSET : ℕ := 0x2E1
def PA_SU_POLY_OFFSET_BACK_SCALE : ℕ := 0x2E2
def PA_SU_POLY_OFFSET_BACK_OFFSET : ℕ := 0x2E3
def PA_SC_CENTROID_PRIORITY_0 : ℕ := 0x2F5
def PA_SC_CENTROID_PRIORITY_1 : ℕ := 0x2F6
def PA_SC_AA_CONFIG : ℕ := 0x2F8
def PA_SU_VTX_CNTL : ℕ := 0x2F9
def PA_CL_GB_VERT_CLIP_ADJ : ℕ := 0x2FA
def PA_SC_AA_SAMPLE_LOCS_PIXEL_X0Y0_0 : ℕ := 0x2FE
def PA_SC_AA_MASK_X0Y0_X1Y0 : ℕ := 0x30E
def PA_SC_AA_MASK_X0Y1_X1Y1 : ℕ := 0x30F
def PA_SC_BINNER_CNTL_0 : ℕ := 0x311
def PA_SC_BINNER_CNTL_1 : ℕ := 0x312
def PA_SC_CONSERVATIVE_RASTERIZATION_CNTL : ℕ := 0x313
def PA_SC_NGG_MODE_CNTL : ℕ := 0x314
def CB_COLOR0_BASE : ℕ := 0x318
def CB_COLOR0_INFO : ℕ := 0x31C
def CX_NOP : ℕ := 0x800003FF
def CX_NUM : ℕ := 0x400

/-! ## Shader registers -/

def SPI_SHADER_TBA_LO_PS : ℕ := 0x0
def SPI_SHADER_PGM_RSRC4_PS : ℕ := 0x1
def SPI_SHADER_TMA_LO_PS : ℕ := 0x2
def SPI_SHADER_TMA_HI_PS : ℕ := 0x3
def SPI_SHADER_PGM_RSRC3_PS : ℕ := 0x7
def SPI_SHADER_USER_DATA_PS_0 : ℕ := 0xC
def SPI_SHADER_REQ_CTRL_PS : ℕ := 0x30
def SPI_SHADER_USER_ACCUM_PS_0 : ℕ := 0x32
def SPI_SHADER_PGM_RSRC4_GS : ℕ := 0x81
def SPI_SHADER_USER_DATA_ADDR_LO_GS : ℕ := 0x82
def SPI_SHADER_USER_DATA_ADDR_HI_GS : ℕ := 0x83
def SPI_SHADER_PGM_RSRC3_GS : ℕ := 0x87
def SPI_SHADER_USER_DATA_GS_0 : ℕ := 0x8C
def SPI_SHADER_REQ_CTRL_ESGS : ℕ := 0xB0
def SPI_SHADER_USER_ACCUM_ESGS_0 : ℕ := 0xB2
def SPI_SHADER_PGM_RSRC4_HS : ℕ := 0x101
def SPI_SHADER_USER_DATA_ADDR_LO_HS : ℕ := 0x102
def SPI_SHADER_USER_DATA_ADDR_HI_HS : ℕ := 0x103
def SPI_SHADER_PGM_RSRC3_HS : ℕ := 0x107
def SPI_SHADER_USER_DATA_HS_0 : ℕ := 0x10C
def SPI_SHADER_REQ_CTRL_LSHS : ℕ := 0x130
def SPI_SHADER_USER_ACCUM_LSHS_0 : ℕ := 0x132
def COMPUTE_START_X : ℕ := 0x204
def COMPUTE_START_Y : ℕ := 0x205
def COMPUTE_START_Z : ℕ := 0x206
def COMPUTE_NUM_THREAD_X : ℕ := 0x207
def COMPUTE_NUM_THREAD_Y : ℕ := 0x208
def COMPUTE_NUM_THREAD_Z : ℕ := 0x209
def COMPUTE_PGM_LO : ℕ := 0x20C
def COMPUTE_PGM_HI : ℕ := 0x20D
def COMPUTE_TBA_LO : ℕ := 0x20E
def COMPUTE_TBA_HI : ℕ := 0x20F
def COMPUTE_TMA_LO : ℕ := 0x210
def COMPUTE_TMA_HI : ℕ := 0x211
def COMPUTE_PGM_RSRC1 : ℕ := 0x212
def COMPUTE_PGM_RSRC2 : ℕ := 0x213
def COMPUTE_RESOURCE_LIMITS : ℕ := 0x215
def COMPUTE_DESTINATION_EN_SE0 : ℕ := 0x216
def COMPUTE_DESTINATION_EN_SE1 : ℕ := 0x217
def COMPUTE_TMPRING_SIZE : ℕ := 0x218
def COMPUTE_DESTINATION_EN_SE2 : ℕ := 0x219
def COMPUTE_DESTINATION_EN_SE3 : ℕ := 0x21A
def COMPUTE_USER_ACCUM_0 : ℕ := 0x224
def COMPUTE_PGM_RSRC3 : ℕ := 0x228
def COMPUTE_SHADER_CHKSUM : ℕ := 0x22A
def COMPUTE_USER_DATA_0 : ℕ := 0x240
def COMPUTE_DISPATCH_TUNNEL : ℕ := 0x27D
def SH_NOP : ℕ := 0x800002FF
def SH_NUM : ℕ := 0x300

/-! ## User config registers -/

def VGT_PRIMITIVE_TYPE : ℕ := 0x242
def VGT_INDEX_TYPE : ℕ := 0x243
def VGT_OBJECT_ID : ℕ := 0x248
def GE_INDX_OFFSET : ℕ := 0x24A
def GE_MULTI_PRIM_IB_RESET_EN : ℕ := 0x24B
def IA_MULTI_VGT_PARAM : ℕ := 0x258
def TA_CS_BC_BASE_ADDR : ℕ := 0x380
def TA_CS_BC_BASE_ADDR_HI : ℕ := 0x381
def TEXTURE_GRADIENT_FACTORS : ℕ := 0x382
def GDS_OA_CNTL : ℕ := 0x41D
def GDS_OA_COUNTER : ℕ := 0x41E
def GDS_OA_ADDRESS : ℕ := 0x41F
def FSR_EXTEND_SUBPIXEL_ROUNDING : ℕ := 0x80003FF4
def FSR_ALPHA_VALUE0 : ℕ := 0x80003FF5
def FSR_ALPHA_VALUE1 : ℕ := 0x80003FF6
def FSR_CONTROL_POINT0 : ℕ := 0x80003FF7
def FSR_CONTROL_POINT1 : ℕ := 0x80003FF8
def FSR_CONTROL_POINT2 : ℕ := 0x80003FF9
def FSR_CONTROL_POINT3 : ℕ := 0x80003FFA
def FSR_WINDOW0 : ℕ := 0x80003FFB
def FSR_WINDOW1 : ℕ := 0x80003FFC
def TEXTURE_GRADIENT_CONTROL : ℕ := 0x80003FFD
def MEMORY_MAPPING_MASK : ℕ := 0x80003FFE
def UC_NOP : ℕ := 0x80003FFF
def UC_NUM : ℕ := 0x4000

end MagnusPS5.Graphics.Pm4
