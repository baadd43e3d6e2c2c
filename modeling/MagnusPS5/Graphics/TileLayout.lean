/-
`TileGetTiledTextureLayout` (`tile.cpp`): where the levels of a tiled surface lie, and the address
of an element.

Sizes are natural numbers. The extents of a surface are at most 16384, so that nothing wraps but
`total_size`, which the code checks.
-/
import MagnusPS5.Graphics.TileBlocks

namespace MagnusPS5.Graphics.Tile

def UINT64_MAX : ℕ := 2 ^ 64 - 1

/-- `AlignUp`, for an alignment that is a power of two. -/
def AlignUp (value alignment : ℕ) : ℕ := (value + alignment - 1) / alignment * alignment

def ShiftCeil (value shift : ℕ) : ℕ := (value + 2 ^ shift - 1) >>> shift

/-! ## Formats -/

/-- `BufferFormat`: the formats of `kFormatInfo`, and the others. -/
inductive BufferFormat
  | k8UNorm | k8SNorm | k8UInt | k16UNorm | k16SNorm | k16UInt | k16SInt | k16Float | k8_8UNorm
  | k8_8SNorm | k8_8UInt | k8_8SInt | k32UInt | k32SInt | k32Float | k16_16UNorm | k16_16SNorm
  | k16_16UInt | k16_16SInt | k16_16Float | k11_11_10Float | k10_10_10_2UNorm | k10_10_10_2UInt
  | k8_8_8_8UNorm | k8_8_8_8SNorm | k8_8_8_8UInt | k8_8_8_8SInt | k32_32UInt | k32_32SInt
  | k32_32Float | k16_16_16_16UNorm | k16_16_16_16SNorm | k16_16_16_16UInt | k16_16_16_16SInt
  | k16_16_16_16Float | k32_32_32UInt | k32_32_32SInt | k32_32_32Float | k32_32_32_32UInt
  | k32_32_32_32SInt | k32_32_32_32Float | k8Srgb | k8_8Srgb | k8_8_8_8Srgb | k9_9_9_5Float
  | k5_6_5UNorm | k5_5_5_1UNorm | k1_5_5_5UNorm | k4_4_4_4UNorm | kFmask8_S4_F4 | kBc1UNorm
  | kBc1Srgb | kBc2UNorm | kBc2Srgb | kBc3UNorm | kBc3Srgb | kBc4UNorm | kBc4SNorm | kBc5UNorm
  | kBc5SNorm | kBc6UFloat | kBc6SFloat | kBc7UNorm | kBc7Srgb
  | other (value : ℕ)
  deriving DecidableEq

structure FormatInfo where
  bytes_per_element : ℕ
  block_compressed_bytes_per_block : ℕ
  render_target_bytes_per_element : ℕ

/-- `kFormatInfo`. -/
def FindFormatInfo : BufferFormat → Option FormatInfo
  | .k8UNorm | .k8UInt | .kFmask8_S4_F4 => some ⟨1, 0, 1⟩
  | .k8SNorm => some ⟨0, 0, 1⟩
  | .k16UNorm | .k16SNorm | .k16UInt | .k16SInt | .k16Float | .k8_8UNorm | .k8_8SNorm | .k8_8UInt
  | .k8_8SInt | .k5_6_5UNorm | .k5_5_5_1UNorm | .k4_4_4_4UNorm => some ⟨2, 0, 2⟩
  | .k32UInt | .k32SInt | .k32Float | .k16_16UNorm | .k16_16SNorm | .k16_16UInt | .k16_16SInt
  | .k16_16Float | .k11_11_10Float | .k10_10_10_2UNorm | .k10_10_10_2UInt | .k8_8_8_8UNorm
  | .k8_8_8_8SNorm | .k8_8_8_8UInt | .k8_8_8_8SInt | .k8_8_8_8Srgb => some ⟨4, 0, 4⟩
  | .k32_32UInt | .k32_32SInt | .k32_32Float | .k16_16_16_16UNorm | .k16_16_16_16SNorm
  | .k16_16_16_16UInt | .k16_16_16_16SInt | .k16_16_16_16Float => some ⟨8, 0, 8⟩
  | .k32_32_32UInt | .k32_32_32SInt | .k32_32_32Float => some ⟨12, 0, 12⟩
  | .k32_32_32_32UInt | .k32_32_32_32SInt | .k32_32_32_32Float => some ⟨16, 0, 16⟩
  | .k8Srgb => some ⟨1, 0, 0⟩
  | .k8_8Srgb => some ⟨2, 0, 0⟩
  | .k9_9_9_5Float => some ⟨4, 0, 0⟩
  | .k1_5_5_5UNorm => some ⟨0, 0, 2⟩
  | .kBc1UNorm | .kBc1Srgb | .kBc4UNorm | .kBc4SNorm => some ⟨0, 8, 0⟩
  | .kBc2UNorm | .kBc2Srgb | .kBc3UNorm | .kBc3Srgb | .kBc5UNorm | .kBc5SNorm | .kBc6UFloat
  | .kBc6SFloat | .kBc7UNorm | .kBc7Srgb => some ⟨0, 16, 0⟩
  | .other _ => none

variable (format : BufferFormat)

def NumBytesPerElement : ℕ :=
  ((FindFormatInfo format).map (·.bytes_per_element)).getD 0

def BlockCompressedBytesPerBlock : ℕ :=
  ((FindFormatInfo format).map (·.block_compressed_bytes_per_block)).getD 0

def RenderTargetBytesPerElement : ℕ :=
  ((FindFormatInfo format).map (·.render_target_bytes_per_element)).getD 0

inductive TileMode
  | kLinear | kStandard256B | kStandard4KB | kStandard64KB | kPrt | kDepth | kRenderTarget
  | other (value : ℕ)
  deriving DecidableEq

structure TileTextureElementLayout where
  bytes : ℕ
  texel_width : ℕ
  texel_height : ℕ

def TileGetTextureElementLayout : Option TileTextureElementLayout :=
  if has_single_bit (NumBytesPerElement format) then some ⟨NumBytesPerElement format, 1, 1⟩
  else if BlockCompressedBytesPerBlock format ≠ 0 then
    some ⟨BlockCompressedBytesPerBlock format, 4, 4⟩
  else none

structure TileTextureBlockLayout where
  block : TileBlockLayout
  texel_width : ℕ
  texel_height : ℕ
  deriving DecidableEq

/-- The family that `TileGetTextureBlockLayout` takes. -/
def textureFamily (tile : TileMode) (volume : Bool) : Option TileBlockFamily :=
  match tile with
  | .kStandard256B => if volume then none else some .standard256B
  | .kStandard4KB => some (if volume then .standard4KB3D else .standard4KB)
  | .kStandard64KB => some (if volume then .standard64KB3D else .standard64KB)
  | .kPrt => some (if volume then .prt64KB3D else .prt64KB)
  | .kDepth => some .depth64KB
  | .kRenderTarget => some .renderTarget64KB
  | .kLinear => none
  | .other _ => none

def TileGetTextureBlockLayout (tile : TileMode) (volume : Bool) : Option TileTextureBlockLayout :=
  match textureFamily tile volume with
  | none => none
  | some family =>
    match TileGetTextureElementLayout format with
    | none => none
    | some element =>
      if (family = .depth64KB ∨ family = .renderTarget64KB) ∧
          RenderTargetBytesPerElement format ≠ element.bytes then none
      else
        match TileGetBlockLayout family element.bytes with
        | none => none
        | some block => some ⟨block, element.texel_width, element.texel_height⟩

/-! ## The tail of the mip chain -/

/-- `Gen5MipTailLocation`s, for each number of bytes. -/
def GEN5_MIP_TAIL_LOCATIONS_THIN_4KB : List (List (ℕ × ℕ)) :=
  [[(32, 0), (16, 32), (0, 48), (0, 32), (16, 16), (16, 0), (0, 16), (0, 0)],
    [(32, 0), (16, 16), (0, 24), (0, 16), (16, 8), (16, 0), (0, 8), (0, 0)],
    [(16, 0), (8, 16), (0, 24), (0, 16), (8, 8), (8, 0), (0, 8), (0, 0)],
    [(16, 0), (8, 8), (0, 12), (0, 8), (8, 4), (8, 0), (0, 4), (0, 0)],
    [(8, 0), (4, 8), (0, 12), (0, 8), (4, 4), (4, 0), (0, 4), (0, 0)]]

def GEN5_MIP_TAIL_LOCATIONS_THIN_64KB : List (List (ℕ × ℕ)) :=
  [[(128, 0), (0, 128), (64, 0), (0, 64), (32, 0), (16, 32), (0, 48), (0, 32), (16, 16), (16, 0),
      (0, 16), (0, 0)],
    [(128, 0), (0, 64), (64, 0), (0, 32), (32, 0), (16, 16), (0, 24), (0, 16), (16, 8), (16, 0),
      (0, 8), (0, 0)],
    [(64, 0), (0, 64), (32, 0), (0, 32), (16, 0), (8, 16), (0, 24), (0, 16), (8, 8), (8, 0), (0, 8),
      (0, 0)],
    [(64, 0), (0, 32), (32, 0), (0, 16), (16, 0), (8, 8), (0, 12), (0, 8), (8, 4), (8, 0), (0, 4),
      (0, 0)],
    [(32, 0), (0, 32), (16, 0), (0, 16), (8, 0), (4, 8), (0, 12), (0, 8), (4, 4), (4, 0), (0, 4),
      (0, 0)]]

def GEN5_MIP_TAIL_LOCATIONS_THICK_64KB : List (List (ℕ × ℕ)) :=
  [[(32, 0), (0, 16), (16, 0), (8, 8), (0, 12), (0, 8), (8, 4), (8, 0), (0, 4), (0, 0)],
    [(16, 0), (0, 16), (8, 0), (4, 8), (0, 12), (0, 8), (4, 4), (4, 0), (0, 4), (0, 0)],
    [(16, 0), (0, 16), (8, 0), (4, 8), (0, 12), (0, 8), (4, 4), (4, 0), (0, 4), (0, 0)],
    [(16, 0), (0, 8), (8, 0), (4, 4), (0, 6), (0, 4), (4, 2), (4, 0), (0, 2), (0, 0)],
    [(8, 0), (0, 8), (4, 0), (2, 4), (0, 6), (0, 4), (2, 2), (2, 0), (0, 2), (0, 0)]]

def GEN5_MIP_TAIL_LOCATIONS_THICK_4KB : List (List (ℕ × ℕ)) :=
  [[(0, 8), (8, 4), (8, 0), (0, 4), (0, 0)], [(0, 8), (4, 4), (4, 0), (0, 4), (0, 0)],
    [(0, 8), (4, 4), (4, 0), (0, 4), (0, 0)], [(0, 4), (4, 2), (4, 0), (0, 2), (0, 0)],
    [(0, 4), (2, 2), (2, 0), (0, 2), (0, 0)]]

structure MipTailLayout where
  locations : List (ℕ × ℕ)
  max_levels : ℕ
  width_limit : ℕ
  height_limit : ℕ

def MakeMipTailLayout (locations : List (ℕ × ℕ)) (width_limit height_limit : ℕ) : MipTailLayout :=
  ⟨locations, locations.length, width_limit, height_limit⟩

def GetMipTailLayout (block : TileBlockLayout) : Option MipTailLayout :=
  let index := countr_zero block.bytes_per_element
  let thin64KB := MakeMipTailLayout (GEN5_MIP_TAIL_LOCATIONS_THIN_64KB.getD index [])
    (block.block_width >>> 1) block.block_height
  match block.family with
  | .standard4KB =>
    some (MakeMipTailLayout (GEN5_MIP_TAIL_LOCATIONS_THIN_4KB.getD index [])
      (block.block_width >>> 1) block.block_height)
  | .standard4KB3D =>
    some (MakeMipTailLayout (GEN5_MIP_TAIL_LOCATIONS_THICK_4KB.getD index []) block.block_width
      (block.block_height >>> 1))
  | .standard64KB3D | .prt64KB3D =>
    some (MakeMipTailLayout (GEN5_MIP_TAIL_LOCATIONS_THICK_64KB.getD index [])
      (block.block_width >>> 1) block.block_height)
  | .depth64KB =>
    some (if block.bytes_per_element < 4 then
        { thin64KB with width_limit := 64, height_limit := 128 }
      else thin64KB)
  | .standard64KB | .prt64KB | .renderTarget64KB => some thin64KB
  | .standard256B => none

/-! ## Surfaces -/

inductive TileSurfaceDimension
  | dim2D
  | dim3D
  deriving DecidableEq

structure TileSurfaceDescription where
  format : BufferFormat
  tile_mode : TileMode
  dimension : TileSurfaceDimension
  width : ℕ
  height : ℕ
  depth : ℕ
  levels : ℕ
  layers : ℕ

structure TileMipLayout where
  offset : ℕ := 0
  size : ℕ := 0
  width : ℕ := 0
  height : ℕ := 0
  padded_width : ℕ := 0
  padded_height : ℕ := 0
  tail_x : ℕ := 0
  tail_y : ℕ := 0

/-- A layout; `mips` has the default where the array has no entry. -/
structure TileSurfaceLayout where
  description : TileSurfaceDescription
  texture : TileTextureBlockLayout
  first_tail_level : ℕ
  block_slice_size : ℕ
  total_size : ℕ
  mips : ℕ → TileMipLayout

/-- Where `TileGetTiledTextureLayout` starts the tail: the first level that fits, or none. -/
def firstTailLevel (levels width0 height0 : ℕ) (tail : Option MipTailLayout) : ℕ :=
  match tail with
  | none => levels
  | some tail =>
    if levels ≤ 1 then levels
    else
      ((List.range levels).find? fun level =>
        ShiftCeil width0 level ≤ tail.width_limit && ShiftCeil height0 level ≤ tail.height_limit &&
          levels - level ≤ tail.max_levels).getD levels

/-- The elements of a level along one side of a surface. -/
def levelElements (extent texel level : ℕ) : ℕ := max (((extent >>> level) + texel - 1) / texel) 1

variable (description : TileSurfaceDescription) (texture : TileTextureBlockLayout)

/-- The entry of a level before the tail, but for its offset. -/
def levelMip (width0 height0 level : ℕ) : TileMipLayout :=
  let block := texture.block
  let padded_width := AlignUp (max (ShiftCeil width0 level) 1) block.block_width
  let padded_height := AlignUp (max (ShiftCeil height0 level) 1) block.block_height
  { width := levelElements description.width texture.texel_width level
    height := levelElements description.height texture.texel_height level
    padded_width := padded_width
    padded_height := padded_height
    size := block.block_depth * padded_width * padded_height * block.bytes_per_element }

/-- The entry of a level in the tail. -/
def tailMip (tail : Option MipTailLayout) (first_tail_level level : ℕ) : TileMipLayout :=
  let block := texture.block
  let location := match tail with
    | none => (0, 0)
    | some tail => tail.locations.getD (level - first_tail_level) (0, 0)
  { width := levelElements description.width texture.texel_width level
    height := levelElements description.height texture.texel_height level
    padded_width := block.block_width
    padded_height := block.block_height
    size := block.block_size
    tail_x := location.1
    tail_y := location.2 }

/-- The entries of the levels, before they have an offset. -/
def levelEntries (width0 height0 first_tail_level level : ℕ) : TileMipLayout :=
  if level < first_tail_level then levelMip description texture width0 height0 level
  else if level < description.levels then
    tailMip description texture (GetMipTailLayout texture.block) first_tail_level level
  else {}

/-- The loop that gives the levels below `level` their offsets, from the last of them on. -/
def assignOffsets (mips : ℕ → TileMipLayout) : ℕ → ℕ → (ℕ → TileMipLayout) × ℕ
  | 0, offset => (mips, offset)
  | level + 1, offset =>
    assignOffsets (Function.update mips level { mips level with offset := offset }) level
      (offset + (mips level).size)

def TileGetTiledTextureLayout : Option TileSurfaceLayout :=
  let volume := decide (description.dimension = .dim3D)
  if description.width = 0 ∨ description.height = 0 ∨ description.depth = 0 ∨
      description.levels = 0 ∨ 16 < description.levels ∨ description.layers = 0 ∨
      (if volume then description.layers ≠ 1 else description.depth ≠ 1) then none
  else
    match TileGetTextureBlockLayout description.format description.tile_mode volume with
    | none => none
    | some texture =>
      let block := texture.block
      let width0 := (description.width + texture.texel_width - 1) / texture.texel_width
      let height0 := (description.height + texture.texel_height - 1) / texture.texel_height
      let block_slices :=
        if volume then ShiftCeil description.depth (countr_zero block.block_depth)
        else description.layers
      let first_tail_level :=
        firstTailLevel description.levels width0 height0 (GetMipTailLayout block)
      let mips := levelEntries description texture width0 height0 first_tail_level
      let tail_size := if first_tail_level < description.levels then block.block_size else 0
      let block_slice_size :=
        (List.range first_tail_level).foldl (fun size level => size + (mips level).size) 0 +
          tail_size
      let assigned := assignOffsets mips first_tail_level tail_size
      if assigned.2 ≠ block_slice_size ∨ UINT64_MAX / block_slices < block_slice_size then none
      else
        some ⟨description, texture, first_tail_level, block_slice_size,
          block_slice_size * block_slices, assigned.1⟩

/-! ## Addresses -/

variable (layout : TileSurfaceLayout)

/-- The slices of a surface. -/
def TileSurfaceLayout.slices : ℕ :=
  if layout.description.dimension = .dim3D then
    ShiftCeil layout.description.depth (countr_zero layout.texture.block.block_depth)
  else layout.description.layers

/-- The block of a level, along a side, that an element at `coordinate` lies in: the tail has but
one. -/
def TileSurfaceLayout.blockAt (level block_side coordinate : ℕ) : ℕ :=
  if layout.first_tail_level ≤ level then 0 else coordinate / block_side

/-- The place in its block, along a side, of an element at `coordinate`. -/
def TileSurfaceLayout.placeIn (level block_side tail_start coordinate : ℕ) : ℕ :=
  if layout.first_tail_level ≤ level then coordinate + tail_start else coordinate % block_side

/-- The address of an element of a level, `z` being its depth in the slice. `surface_z` is what is
given to `TileGetBlockXor` for a slice. -/
def TileSurfaceLayout.address (surface_z : ℕ → ℕ) (slice level x y z : ℕ) : Option ℕ :=
  let block := layout.texture.block
  let mip := layout.mips level
  let block_x := layout.blockAt level block.block_width x
  let block_y := layout.blockAt level block.block_height y
  let columns := mip.padded_width / block.block_width
  match TileGetBlockOffset block (layout.placeIn level block.block_width mip.tail_x x)
      (layout.placeIn level block.block_height mip.tail_y y) z,
    TileGetBlockXor block block_x block_y (surface_z slice) with
  | some offset, some xor =>
    some (slice * layout.block_slice_size + mip.offset +
      (block_y * columns + block_x) * block.block_size + (offset ^^^ xor))
  | _, _ => none

end MagnusPS5.Graphics.Tile
