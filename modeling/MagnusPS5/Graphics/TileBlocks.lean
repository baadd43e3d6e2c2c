/-
The blocks that tiled surfaces are made of (`tile.cpp`): their dimensions, where an element lies in
a block (`TileGetBlockOffset`), and the word that the offsets in a block are changed by
(`TileGetBlockXor`).

Words are natural numbers. The formulas take bits of coordinates below 16384 to places below bit 16
by shifts and masks, so that nothing of a shift to the left is lost.
-/
import MagnusPS5.Lib.XorLinear

namespace MagnusPS5.Graphics.Tile

def UINT32_MAX : ℕ := 2 ^ 32 - 1

def has_single_bit (value : ℕ) : Bool := value != 0 && value &&& (value - 1) == 0

/-- `std::countr_zero` of a word with a single bit. -/
def countr_zero (value : ℕ) : ℕ := value.log2

inductive TileBlockFamily
  | standard256B
  | standard4KB
  | standard4KB3D
  | standard64KB
  | standard64KB3D
  | prt64KB
  | prt64KB3D
  | renderTarget64KB
  | depth64KB
  deriving DecidableEq

structure Log2BlockDimensions where
  width : ℕ
  height : ℕ
  depth : ℕ
  deriving DecidableEq

/-! The tables are indexed by the logarithm of the bytes of an element. -/

def LOG2_BLOCK_THIN_256B : List Log2BlockDimensions :=
  [⟨4, 4, 0⟩, ⟨4, 3, 0⟩, ⟨3, 3, 0⟩, ⟨3, 2, 0⟩, ⟨2, 2, 0⟩]

def LOG2_BLOCK_THIN_4KB : List Log2BlockDimensions :=
  [⟨6, 6, 0⟩, ⟨6, 5, 0⟩, ⟨5, 5, 0⟩, ⟨5, 4, 0⟩, ⟨4, 4, 0⟩]

def LOG2_BLOCK_THIN_64KB : List Log2BlockDimensions :=
  [⟨8, 8, 0⟩, ⟨8, 7, 0⟩, ⟨7, 7, 0⟩, ⟨7, 6, 0⟩, ⟨6, 6, 0⟩]

def LOG2_BLOCK_THICK_4KB : List Log2BlockDimensions :=
  [⟨4, 4, 4⟩, ⟨3, 4, 4⟩, ⟨3, 4, 3⟩, ⟨3, 3, 3⟩, ⟨2, 3, 3⟩]

def LOG2_BLOCK_THICK_64KB : List Log2BlockDimensions :=
  [⟨6, 5, 5⟩, ⟨5, 5, 5⟩, ⟨5, 5, 4⟩, ⟨5, 4, 4⟩, ⟨4, 4, 4⟩]

structure BlockFamilyInfo where
  block_size : ℕ
  dimensions : List Log2BlockDimensions
  max_bytes_per_element : ℕ

def BLOCK_FAMILIES : TileBlockFamily → BlockFamilyInfo
  | .standard256B => ⟨256, LOG2_BLOCK_THIN_256B, 16⟩
  | .standard4KB => ⟨4096, LOG2_BLOCK_THIN_4KB, 16⟩
  | .standard4KB3D => ⟨4096, LOG2_BLOCK_THICK_4KB, 16⟩
  | .standard64KB => ⟨65536, LOG2_BLOCK_THIN_64KB, 16⟩
  | .standard64KB3D => ⟨65536, LOG2_BLOCK_THICK_64KB, 16⟩
  | .prt64KB => ⟨65536, LOG2_BLOCK_THIN_64KB, 16⟩
  | .prt64KB3D => ⟨65536, LOG2_BLOCK_THICK_64KB, 16⟩
  | .renderTarget64KB => ⟨65536, LOG2_BLOCK_THIN_64KB, 16⟩
  | .depth64KB => ⟨65536, LOG2_BLOCK_THIN_64KB, 8⟩

structure TileBlockLayout where
  family : TileBlockFamily
  bytes_per_element : ℕ
  block_size : ℕ
  block_width : ℕ
  block_height : ℕ
  block_depth : ℕ
  deriving DecidableEq

def TileGetBlockLayout (family : TileBlockFamily) (bytes_per_element : ℕ) :
    Option TileBlockLayout :=
  let info := BLOCK_FAMILIES family
  if has_single_bit bytes_per_element = false then none
  else if info.max_bytes_per_element < bytes_per_element then none
  else
    match info.dimensions[countr_zero bytes_per_element]? with
    | none => none
    | some dimensions =>
      let result : TileBlockLayout :=
        ⟨family, bytes_per_element, info.block_size, 2 ^ dimensions.width, 2 ^ dimensions.height,
          2 ^ dimensions.depth⟩
      if result.block_width * result.block_height * result.block_depth * bytes_per_element ≠
          result.block_size then none
      else some result

/-! ## Where an element lies in a block -/

/-- A formula for offsets, from the coordinates `x`, `y` and `z`. -/
abbrev Formula := ℕ → ℕ → ℕ → ℕ

/-- `offset ^= (value << shift) & mask` for some shifts and masks. -/
def shifted (terms : List (ℕ × ℕ)) (value : ℕ) : ℕ :=
  terms.foldr (fun term offset => ((value <<< term.1) &&& term.2) ^^^ offset) 0

def Bit (value source destination : ℕ) : ℕ := ((value >>> source) &&& 1) <<< destination

/-- `Gen5Standard4KBOffsetInBlock`; like the others it has a formula for each number of bytes. -/
def Gen5Standard4KBOffsetInBlock : ℕ → Option Formula
  | 1 => some fun x y _ =>
    shifted [(4, 0x1f0), (5, 0x400)] y ^^^ shifted [(0, 0x00f), (5, 0x200), (6, 0x800)] x
  | 2 => some fun x y _ =>
    shifted [(4, 0x070), (5, 0x100), (6, 0x400)] y ^^^
      shifted [(1, 0x00e), (4, 0x080), (5, 0x200), (6, 0x800)] x
  | 4 => some fun x y _ =>
    shifted [(4, 0x070), (5, 0x100), (6, 0x400)] y ^^^
      shifted [(2, 0x00c), (5, 0x080), (6, 0x200), (7, 0x800)] x
  | 8 => some fun x y _ =>
    shifted [(4, 0x030), (6, 0x100), (7, 0x400)] y ^^^
      shifted [(3, 0x008), (5, 0x0c0), (6, 0x200), (7, 0x800)] x
  | 16 => some fun x y _ =>
    shifted [(4, 0x030), (6, 0x100), (7, 0x400)] y ^^^
      shifted [(6, 0x0c0), (7, 0x200), (8, 0x800)] x
  | _ => none

def Gen5Standard4KBVolumeOffsetInBlock : ℕ → Option Formula
  | 1 => some fun x y z =>
    shifted [(0, 0x3), (4, 0x40), (6, 0x200)] x ^^^
      shifted [(3, 0x8), (4, 0x20), (6, 0x100), (8, 0x800)] y ^^^
      shifted [(2, 0x4), (3, 0x10), (5, 0x80), (7, 0x400)] z
  | 2 => some fun x y z =>
    shifted [(1, 0x2), (5, 0x40), (7, 0x200)] x ^^^
      shifted [(3, 0x8), (4, 0x20), (6, 0x100), (8, 0x800)] y ^^^
      shifted [(2, 0x4), (3, 0x10), (5, 0x80), (7, 0x400)] z
  | 4 => some fun x y z =>
    shifted [(2, 0x4), (5, 0x40), (7, 0x200)] x ^^^
      shifted [(3, 0x8), (4, 0x20), (6, 0x100), (8, 0x800)] y ^^^
      shifted [(4, 0x10), (6, 0x80), (8, 0x400)] z
  | 8 => some fun x y z =>
    shifted [(3, 0x8), (5, 0x40), (7, 0x200)] x ^^^
      shifted [(5, 0x20), (7, 0x100), (9, 0x800)] y ^^^
      shifted [(4, 0x10), (6, 0x80), (8, 0x400)] z
  | 16 => some fun x y z =>
    shifted [(6, 0x40), (8, 0x200)] x ^^^
      shifted [(5, 0x20), (7, 0x100), (9, 0x800)] y ^^^
      shifted [(4, 0x10), (6, 0x80), (8, 0x400)] z
  | _ => none

/-- `SOURCES` of `Gen5Standard64KBVolumeOffsetInBlock`. -/
def standard64KBVolumeSources : List (ℕ × ℕ × ℕ × ℕ) :=
  [(4, 4, 4, 5), (3, 4, 4, 4), (3, 3, 4, 4), (3, 3, 3, 4), (2, 3, 3, 3)]

def Gen5Standard64KBVolumeOffsetInBlock (bytes_per_element : ℕ) : Option Formula := do
  let bits ← standard64KBVolumeSources[countr_zero bytes_per_element]?
  let offset ← Gen5Standard4KBVolumeOffsetInBlock bytes_per_element
  return fun x y z =>
    offset x y z ^^^ Bit x bits.1 12 ^^^ Bit z bits.2.1 13 ^^^ Bit y bits.2.2.1 14 ^^^
      Bit x bits.2.2.2 15

def Gen5Standard256BOffsetInBlock (bytes_per_element : ℕ) : Option Formula := do
  let offset ← Gen5Standard4KBOffsetInBlock bytes_per_element
  return fun x y z => offset x y z &&& 0xff

/-- The formula of the tables `x_words` and `y_words`, whose words are shifted to the right by
`shift`. -/
def tables (shift : ℕ) (x_terms y_terms : List (ℕ × ℕ)) : Formula := fun x y _ =>
  ((shifted x_terms x >>> shift) ^^^ (shifted y_terms y >>> shift)) * 2 ^ shift

/-- `Standard64KB8Tables`, `Standard64KB16Tables` and so on. -/
def Standard64KBTables : ℕ → Option Formula
  | 1 => some (tables 0 [(0, 0x000f), (5, 0x0200), (6, 0x0800), (7, 0x2000), (8, 0x8000)]
    [(4, 0x01f0), (5, 0x0400), (6, 0x1000), (7, 0x4000)])
  | 2 => some (tables 1 [(1, 0x000e), (4, 0x0080), (5, 0x0200), (6, 0x0800), (7, 0x2000),
      (8, 0x8000)]
    [(4, 0x0070), (5, 0x0100), (6, 0x0400), (7, 0x1000), (8, 0x4000)])
  | 4 => some (tables 2 [(2, 0x0c), (5, 0x80), (6, 0x200), (7, 0x800), (8, 0x2000), (9, 0x8000)]
    [(4, 0x70), (5, 0x100), (6, 0x400), (7, 0x1000), (8, 0x4000)])
  | 8 => some (tables 3 [(3, 0x0008), (5, 0x00c0), (6, 0x0200), (7, 0x0800), (8, 0x2000),
      (9, 0x8000)]
    [(4, 0x0030), (6, 0x0100), (7, 0x0400), (8, 0x1000), (9, 0x4000)])
  | 16 => some (tables 4 [(6, 0x00c0), (7, 0x0200), (8, 0x0800), (9, 0x2000), (10, 0x8000)]
    [(4, 0x0030), (6, 0x0100), (7, 0x0400), (8, 0x1000), (9, 0x4000)])
  | _ => none

def Gen5RenderTargetOffsetInBlock : ℕ → Option Formula
  | 1 => some fun x y _ =>
    shifted [(2, 0x0008), (4, 0x0010), (3, 0x00a0), (5, 0x0f00), (6, 0x1000), (7, 0x4000)] y ^^^
      shifted [(0, 0x0007), (3, 0x0040), (5, 0x0300), (4, 0x0400), (6, 0x0800), (7, 0x2000),
        (8, 0x8000)] x
  | 2 => some fun x y _ =>
    shifted [(4, 0x0070), (5, 0x0f00), (8, 0x5000)] y ^^^
      shifted [(1, 0x000e), (4, 0x0480), (5, 0x0300), (6, 0x0800), (7, 0x2000), (8, 0x8000)] x
  | 4 => some fun x y _ =>
    shifted [(4, 0x0070), (5, 0x0f00), (9, 0x1000), (8, 0x4000)] y ^^^
      shifted [(2, 0x000c), (5, 0x0380), (4, 0x0400), (6, 0x0800), (9, 0xa000)] x
  | 8 => some fun x y _ =>
    shifted [(4, 0x0010), (6, 0x0080), (5, 0x0f00), (10, 0x5000)] y ^^^
      shifted [(3, 0x0008), (4, 0x0460), (5, 0x0300), (6, 0x0800), (10, 0x2000), (9, 0x8000)] x
  | 16 => some fun x y _ =>
    shifted [(4, 0x0410), (5, 0x0340), (6, 0x0800), (11, 0xa000)] x ^^^
      shifted [(5, 0x0f20), (6, 0x0080), (10, 0x1000), (11, 0x4000)] y
  | _ => none

/-- `Depth64KB8XOffsetBytes`, `Depth64KB8YOffsetBytes` and so on. -/
def Depth64KBOffsetBytes : ℕ → Option Formula
  | 1 => some fun x y _ =>
    shifted [(0, 0x0001), (1, 0x0004), (2, 0x0010), (3, 0x0040), (5, 0x0300), (4, 0x0400),
        (6, 0x0800), (7, 0x2000), (8, 0x8000)] x ^^^
      shifted [(1, 0x0002), (2, 0x0008), (3, 0x00a0), (5, 0x0f00), (6, 0x1000), (7, 0x4000)] y
  | 2 => some fun x y _ =>
    shifted [(1, 0x0002), (2, 0x0008), (3, 0x0020), (4, 0x0480), (5, 0x0300), (6, 0x0800),
        (7, 0x2000), (8, 0x8000)] x ^^^
      shifted [(2, 0x0004), (3, 0x0010), (4, 0x0040), (5, 0x0f00), (8, 0x5000)] y
  | 4 => some fun x y _ =>
    shifted [(2, 0x0004), (3, 0x0010), (4, 0x0440), (5, 0x0300), (6, 0x0800), (9, 0xa000)] x ^^^
      shifted [(3, 0x0008), (4, 0x0020), (5, 0x0f80), (9, 0x1000), (8, 0x4000)] y
  | 8 => some fun x y _ =>
    shifted [(3, 0x0008), (4, 0x0420), (5, 0x0380), (6, 0x0800), (10, 0x2000), (9, 0x8000)] x ^^^
      shifted [(4, 0x0010), (5, 0x0f40), (10, 0x5000)] y
  | _ => none

/-- `SOURCES` of `Prt64KB3D`. -/
def prt64KB3DSources : List (ℕ × ℕ × ℕ × ℕ) :=
  [(4, 5, 4, 4), (4, 4, 3, 4), (4, 4, 3, 3), (3, 4, 3, 3), (3, 3, 2, 3)]

/-- `SOURCES` of `Prt64KB`. -/
def prt64KBSources : List (ℕ × ℕ × ℕ × ℕ) :=
  [(7, 7, 6, 6), (7, 6, 6, 5), (6, 6, 5, 5), (6, 5, 5, 4), (5, 5, 4, 4)]

/-- The formula that `TileGetBlockOffset` comes to for a family. -/
def blockFormula (family : TileBlockFamily) (bytes_per_element : ℕ) : Option Formula :=
  match family with
  | .standard256B => Gen5Standard256BOffsetInBlock bytes_per_element
  | .standard4KB => Gen5Standard4KBOffsetInBlock bytes_per_element
  | .standard4KB3D => Gen5Standard4KBVolumeOffsetInBlock bytes_per_element
  | .standard64KB3D => Gen5Standard64KBVolumeOffsetInBlock bytes_per_element
  | .prt64KB3D => do
    let bits ← prt64KB3DSources[countr_zero bytes_per_element]?
    let offset ← Gen5Standard64KBVolumeOffsetInBlock bytes_per_element
    return fun x y z =>
      offset x y z ^^^ (Bit y bits.1 10 ^^^ Bit x bits.2.1 10 ^^^ Bit x bits.2.2.1 11 ^^^
        Bit z bits.2.2.2 11)
  | .standard64KB => Standard64KBTables bytes_per_element
  | .prt64KB => do
    let bits ← prt64KBSources[countr_zero bytes_per_element]?
    let offset ← Standard64KBTables bytes_per_element
    return fun x y z =>
      offset x y z ^^^ (Bit x bits.1 8 ^^^ Bit y bits.2.1 9 ^^^ Bit x bits.2.2.1 10 ^^^
        Bit y bits.2.2.2 11)
  | .renderTarget64KB => Gen5RenderTargetOffsetInBlock bytes_per_element
  | .depth64KB => Depth64KBOffsetBytes bytes_per_element

variable (layout : TileBlockLayout)

/-- The layout has the dimensions of its family. -/
def matchesFamily : Bool :=
  match TileGetBlockLayout layout.family layout.bytes_per_element with
  | none => false
  | some expected =>
    layout.block_size == expected.block_size && layout.block_width == expected.block_width &&
      layout.block_height == expected.block_height && layout.block_depth == expected.block_depth

def TileGetBlockOffset (x y z : ℕ) : Option ℕ :=
  if matchesFamily layout = false ∨ layout.block_width ≤ x ∨ layout.block_height ≤ y ∨
      layout.block_depth ≤ z then none
  else
    match blockFormula layout.family layout.bytes_per_element with
    | none => none
    | some formula =>
      let offset := formula x y z
      if layout.block_size ≤ offset ∨ offset % layout.bytes_per_element ≠ 0 then none
      else some offset

/-- What `TileGetBlockXor` takes from the coordinates of a block. -/
def xorBytes (block_x block_y : ℕ) : Option ℕ :=
  if (layout.family = .depth64KB ∧ layout.bytes_per_element = 8) ∨
      layout.family = .renderTarget64KB then
    if UINT32_MAX / layout.block_width < block_x ∨ UINT32_MAX / layout.block_height < block_y then
      none
    else
      match blockFormula layout.family layout.bytes_per_element with
      | none => none
      | some formula =>
        some (formula (block_x * layout.block_width) (block_y * layout.block_height) 0)
  else some 0

/-- What it takes from `block_z`. -/
def xorDepth (block_z : ℕ) : ℕ :=
  if layout.family = .renderTarget64KB ∨ layout.family = .depth64KB then
    ((block_z &&& 8) <<< 5) ^^^ ((block_z &&& 4) <<< 7) ^^^ ((block_z &&& 2) <<< 9) ^^^
      ((block_z &&& 1) <<< 11)
  else 0

def TileGetBlockXor (block_x block_y block_z : ℕ) : Option ℕ :=
  if matchesFamily layout = false then none
  else
    match xorBytes layout block_x block_y with
    | none => none
    | some bytes =>
      let byte_offset := bytes ^^^ xorDepth layout block_z
      if layout.block_size ≤ byte_offset ∨ byte_offset % layout.bytes_per_element ≠ 0 then none
      else some byte_offset

end MagnusPS5.Graphics.Tile
