/-
The addresses of a tiled surface.

A level has a region of the slice, in whole blocks: the levels before the tail one region each, from
the last of them on, and those in the tail all the block at the start (`Chain`). In a block the tail
levels keep apart (`Packed`), and nothing else shares one. So an address gives back the slice, the
level, the block and, by `Laid.injective`, the place in the block (`address_injective`).
-/
import MagnusPS5.Graphics.TileBlocksSpec
import MagnusPS5.Graphics.TileLayout
import MagnusPS5.Lib.Stacked

namespace MagnusPS5.Graphics.Tile

open Lib Nat TileSurfaceLayout Function Option

/-! ## Sizes -/

theorem shiftCeil_le_iff (value shift n : ℕ) : ShiftCeil value shift ≤ n ↔ value ≤ n * 2 ^ shift := by
  have hpos : 0 < 2 ^ shift := Nat.two_pow_pos shift
  rw [ShiftCeil, Nat.shiftRight_eq_div_pow, ← Nat.lt_succ_iff, Nat.div_lt_iff_lt_mul hpos, succ_mul]
  omega

variable {level texel extent n a b c : ℕ}

theorem shiftCeil_add_le {value limit : ℕ} (h : ShiftCeil value level ≤ limit) (k : ℕ) :
    ShiftCeil value (level + k) ≤ ShiftCeil limit k := by
  have hlimit := (shiftCeil_le_iff limit k _).mp le_rfl
  rw [shiftCeil_le_iff] at h
  rw [shiftCeil_le_iff, add_comm, pow_add, ← mul_assoc]
  exact h.trans (mul_le_mul_right _ hlimit)

/-- A level has no more elements than its padded size has room for: halving the elements of the
surface and rounding up is no less than halving its width and then counting elements. -/
theorem levelElements_le (htexel : 0 < texel) (extent level : ℕ) :
    levelElements extent texel level ≤ max (ShiftCeil ((extent + texel - 1) / texel) level) 1 := by
  refine max_le_max_right 1 ?_
  -- `n` elements at this level have room for `n * texel * 2 ^ level` of the surface
  generalize hn : ShiftCeil ((extent + texel - 1) / texel) level = n
  have hfits := (shiftCeil_le_iff _ _ _).mp hn.le
  rw [← Nat.lt_succ_iff, Nat.div_lt_iff_lt_mul htexel, Nat.succ_mul] at hfits
  have hextent : extent ≤ n * texel * 2 ^ level := by
    rw [Nat.mul_right_comm]
    omega
  have hhalf : extent / 2 ^ level ≤ n * texel := Nat.div_le_of_le_mul (by rwa [Nat.mul_comm])
  rw [Nat.shiftRight_eq_div_pow, ← Nat.lt_succ_iff, Nat.div_lt_iff_lt_mul htexel, Nat.succ_mul]
  omega

theorem levelElements_le_extent (htexel : 0 < texel)
    (hextent : 0 < extent) (level : ℕ) : levelElements extent texel level ≤ extent := by
  refine max_le ?_ hextent
  have hshift : extent >>> level ≤ extent := Nat.shiftRight_le extent level
  rw [← Nat.lt_succ_iff, Nat.div_lt_iff_lt_mul htexel, Nat.succ_mul]
  have hmul : extent ≤ extent * texel := Nat.le_mul_of_pos_right extent htexel
  omega

theorem le_alignUp {alignment : ℕ} (h : 0 < alignment) (value : ℕ) :
    value ≤ AlignUp value alignment := by
  have hdiv := lt_div_mul_add h (a := value + alignment - 1)
  unfold AlignUp
  omega

theorem alignUp_div {alignment : ℕ} (h : 0 < alignment) (value : ℕ) :
    AlignUp value alignment / alignment * alignment = AlignUp value alignment := by
  rw [AlignUp, Nat.mul_div_cancel _ h]

theorem add_le_of_lt_of_dvd (h : a < b) (ha : n ∣ a) (hb : n ∣ b) : a + n ≤ b := by
  obtain ⟨q, rfl⟩ := ha
  obtain ⟨r, rfl⟩ := hb
  calc n * q + n = n * (q + 1) := (mul_succ n q).symm
    _ ≤ n * r := mul_le_mul_left n (lt_of_mul_lt_mul_left h (zero_le n))

theorem index_lt {m : ℕ} (ha : a < m) (hb : b < n) : a * n + b < m * n := by
  calc a * n + b < a * n + n := Nat.add_lt_add_left hb _
    _ = (a + 1) * n := (succ_mul a n).symm
    _ ≤ m * n := mul_le_mul_right n ha

theorem index_inj {a' b' : ℕ} (hb : b < n) (hb' : b' < n) (h : a * n + b = a' * n + b') :
    a = a' ∧ b = b' := by
  have hdiv := congrArg (· / n) h
  have hmod := congrArg (· % n) h
  have hn : 0 < n := by omega
  simp only [mul_comm _ n, mul_add_div hn, div_eq_of_lt hb, div_eq_of_lt hb', add_zero] at hdiv
  simp only [mul_comm _ n, mul_add_mod, mod_eq_of_lt hb, mod_eq_of_lt hb'] at hmod
  exact ⟨hdiv, hmod⟩

/-! ## The tail -/

/-- The sides of level `k` of a tail lie in the block. -/
def tailFits (block : TileBlockLayout) (tail : MipTailLayout) (k : ℕ) : Bool :=
  let location := tail.locations.getD k (0, 0)
  location.1 + max (ShiftCeil tail.width_limit k) 1 ≤ block.block_width &&
    location.2 + max (ShiftCeil tail.height_limit k) 1 ≤ block.block_height

/-- Two intervals have nothing in common. -/
def apart (a m b n : ℕ) : Bool := a + m ≤ b || b + n ≤ a

/-- Two levels of a tail are side by side, or one above the other. -/
def tailApart (tail : MipTailLayout) (k k' : ℕ) : Bool :=
  let location := tail.locations.getD k (0, 0)
  let location' := tail.locations.getD k' (0, 0)
  apart location.1 (max (ShiftCeil tail.width_limit k) 1) location'.1
      (max (ShiftCeil tail.width_limit k') 1) ||
    apart location.2 (max (ShiftCeil tail.height_limit k) 1) location'.2
      (max (ShiftCeil tail.height_limit k') 1)

/-- The tail of a block has its levels in the block, and apart. -/
def packed (block : TileBlockLayout) (tail : MipTailLayout) : Bool :=
  (List.range tail.max_levels).all fun k =>
    tailFits block tail k &&
      (List.range tail.max_levels).all fun k' => k == k' || tailApart tail k k'

def tailChecked (family : TileBlockFamily) (i : ℕ) : Bool :=
  match TileGetBlockLayout family (2 ^ i) with
  | none => true
  | some block =>
    match GetMipTailLayout block with
    | none => true
    | some tail => packed block tail

theorem tails_checked (family : TileBlockFamily) : ∀ i < 5, tailChecked family i = true := by
  cases family <;> decide +kernel

/-- The levels of a tail are in the block, and apart. -/
structure Packed (block : TileBlockLayout) (tail : MipTailLayout) : Prop where
  fits : ∀ k < tail.max_levels, tailFits block tail k = true
  apart : ∀ k < tail.max_levels, ∀ k' < tail.max_levels, k ≠ k' → tailApart tail k k' = true

theorem packed_tail {family : TileBlockFamily} {block : TileBlockLayout}
    (h : TileGetBlockLayout family b = some block) {tail : MipTailLayout}
    (htail : GetMipTailLayout block = some tail) : Packed block tail := by
  obtain ⟨hbit, hle, -, -, -⟩ := layout_cases h
  obtain ⟨i, hi, rfl⟩ := bytes_cases hbit hle
  have hchecked := tails_checked family i hi
  unfold tailChecked at hchecked
  simp only [h, htail, packed, List.all_eq_true, List.mem_range, Bool.and_eq_true, Bool.or_eq_true,
    beq_iff_eq] at hchecked
  exact ⟨fun k hk => (hchecked k hk).1, fun k hk k' hk' hne =>
    ((hchecked k hk).2 k' hk').resolve_left hne⟩

/-! ## What is laid out -/

theorem assignOffsets_of_le (h : n ≤ level) (mips : ℕ → TileMipLayout) (offset : ℕ) :
    (assignOffsets mips n offset).1 level = mips level := by
  induction n generalizing mips offset with
  | zero => rfl
  | succ n ih =>
    rw [assignOffsets, ih (by omega), update_of_ne (by omega)]

theorem assignOffsets_entry (mips : ℕ → TileMipLayout) (n offset : ℕ) :
    (assignOffsets mips n offset).2 = offset + totalSize (fun l => (mips l).size) n ∧
      ∀ level < n, ∃ o, (assignOffsets mips n offset).1 level = { mips level with offset := o } ∧
        o + totalSize (fun l => (mips l).size) (level + 1) =
          offset + totalSize (fun l => (mips l).size) n := by
  induction n generalizing mips offset with
  | zero => exact ⟨rfl, fun level h => absurd h (not_lt_zero level)⟩
  | succ n ih =>
    -- the loop goes on with the entry of level `n` changed, whose size stays what it was
    have hsize : ∀ m, totalSize (fun l => ((update mips n
        { mips n with offset := offset }) l).size) m = totalSize (fun l => (mips l).size) m := by
      intro m
      apply totalSize_congr
      intro k _
      by_cases hk : k = n
      · rw [hk, update_self]
      · rw [update_of_ne hk]
    obtain ⟨hsnd, hentry⟩ := ih (update mips n { mips n with offset := offset })
      (offset + (mips n).size)
    simp only [hsize] at hsnd hentry
    rw [assignOffsets, totalSize_succ _ n]
    refine ⟨hsnd.trans (by omega), fun level hlevel => ?_⟩
    by_cases hlt : level < n
    · obtain ⟨o, heq, hmeets⟩ := hentry level hlt
      rw [update_of_ne (by omega)] at heq
      exact ⟨o, heq, by omega⟩
    · have hlast : level = n := by omega
      refine ⟨offset, ?_, ?_⟩
      · rw [assignOffsets_of_le (by omega), hlast, update_self]
      · rw [hlast, totalSize_succ]

/-- The tail starts at a level that fits. -/
structure TailFrom (levels width0 height0 first : ℕ) (tail : MipTailLayout) : Prop where
  width : ShiftCeil width0 first ≤ tail.width_limit
  height : ShiftCeil height0 first ≤ tail.height_limit
  levels : levels - first ≤ tail.max_levels

theorem firstTailLevel_spec (levels width0 height0 : ℕ) (tail : Option MipTailLayout) :
    firstTailLevel levels width0 height0 tail ≤ levels ∧
      (firstTailLevel levels width0 height0 tail < levels → ∃ t, tail = some t ∧
        TailFrom levels width0 height0 (firstTailLevel levels width0 height0 tail) t) := by
  unfold firstTailLevel
  cases tail with
  | none => exact ⟨le_rfl, fun h => absurd h (lt_irrefl _)⟩
  | some tail =>
    dsimp only
    split
    · exact ⟨le_rfl, fun h => absurd h (lt_irrefl _)⟩
    · cases hfind : (List.range levels).find? fun level =>
        ShiftCeil width0 level ≤ tail.width_limit && ShiftCeil height0 level ≤ tail.height_limit &&
          levels - level ≤ tail.max_levels with
      | none => exact ⟨le_rfl, fun h => absurd h (lt_irrefl _)⟩
      | some level =>
        have hmem := List.mem_range.mp (List.mem_of_find?_eq_some hfind)
        have hfits := List.find?_some hfind
        simp only [Bool.and_eq_true, decide_eq_true_eq] at hfits
        exact ⟨hmem.le, fun _ => ⟨tail, rfl, hfits.1.1, hfits.1.2, hfits.2⟩⟩

theorem textureBlockLayout_cases {format : BufferFormat} {tile : TileMode} {volume : Bool}
    {texture : TileTextureBlockLayout}
    (h : TileGetTextureBlockLayout format tile volume = some texture) :
    (∃ family b, TileGetBlockLayout family b = some texture.block) ∧ 0 < texture.texel_width ∧
      0 < texture.texel_height := by
  unfold TileGetTextureBlockLayout at h
  split at h
  · simp at h
  next family _ =>
  split at h
  · simp at h
  next element helement =>
  split at h
  · simp at h
  split at h
  · simp at h
  next block hblock =>
  cases h
  refine ⟨⟨family, element.bytes, hblock⟩, ?_⟩
  unfold TileGetTextureElementLayout at helement
  split at helement
  · cases helement
    exact ⟨zero_lt_one, zero_lt_one⟩
  · split at helement
    · cases helement
      exact ⟨zero_lt_succ 3, zero_lt_succ 3⟩
    · simp at helement

/-- The elements along a side of a surface. -/
def elements (extent texel : ℕ) : ℕ := (extent + texel - 1) / texel

namespace TileSurfaceLayout

variable (layout : TileSurfaceLayout)

/-- What a slice has below its levels: the block of the tail, if there is one. -/
def tailSize : ℕ :=
  if layout.first_tail_level < layout.description.levels then layout.texture.block.block_size else 0

/-- The bytes of level `level`. -/
def sizes (level : ℕ) : ℕ := (layout.mips level).size

def offsets (level : ℕ) : ℕ := (layout.mips level).offset

/-- What `TileGetTiledTextureLayout` lays out. -/
structure Mapped (layout : TileSurfaceLayout) : Prop where
  block : ∃ family b, TileGetBlockLayout family b = some layout.texture.block
  texel : 0 < layout.texture.texel_width ∧ 0 < layout.texture.texel_height
  extent : 0 < layout.description.width ∧ 0 < layout.description.height
  first_le : layout.first_tail_level ≤ layout.description.levels
  stacked : Stacked layout.sizes layout.offsets layout.first_tail_level layout.tailSize
  slice_size :
    layout.block_slice_size = layout.tailSize + totalSize layout.sizes layout.first_tail_level
  total_size : layout.total_size = layout.block_slice_size * layout.slices
  level : ∀ level < layout.first_tail_level, ∃ offset, layout.mips level =
    { levelMip layout.description layout.texture
        (elements layout.description.width layout.texture.texel_width)
        (elements layout.description.height layout.texture.texel_height) level with
      offset := offset }
  tail_level : ∀ level, layout.first_tail_level ≤ level → level < layout.description.levels →
    layout.mips level = tailMip layout.description layout.texture
      (GetMipTailLayout layout.texture.block) layout.first_tail_level level
  tail : layout.first_tail_level < layout.description.levels →
    ∃ tail, GetMipTailLayout layout.texture.block = some tail ∧
      TailFrom layout.description.levels
        (elements layout.description.width layout.texture.texel_width)
        (elements layout.description.height layout.texture.texel_height)
        layout.first_tail_level tail

end TileSurfaceLayout

theorem mapped {description : TileSurfaceDescription} {layout : TileSurfaceLayout}
    (h : TileGetTiledTextureLayout description = some layout) :
    layout.description = description ∧ layout.Mapped := by
  unfold TileGetTiledTextureLayout at h
  obtain ⟨hvalid, h⟩ := ite_none_left_eq_some.mp h
  split at h
  · simp at h
  next texture htexture =>
  obtain ⟨hsize, h⟩ := ite_none_left_eq_some.mp h
  obtain ⟨hblock, htexel⟩ := textureBlockLayout_cases htexture
  generalize hwidth0 :
    (description.width + texture.texel_width - 1) / texture.texel_width = width0 at h
  generalize hheight0 :
    (description.height + texture.texel_height - 1) / texture.texel_height = height0 at h
  obtain ⟨hfirst, htail⟩ :=
    firstTailLevel_spec description.levels width0 height0 (GetMipTailLayout texture.block)
  generalize firstTailLevel description.levels width0 height0 (GetMipTailLayout texture.block) =
    first at h hfirst htail
  generalize htailSize : (if first < description.levels then texture.block.block_size else 0) =
    tail_size at h
  generalize hmips : levelEntries description texture width0 height0 first = mips at h
  obtain ⟨-, hentry⟩ := assignOffsets_entry mips first tail_size
  have hsizes : ∀ m ≤ first, totalSize (fun l => ((assignOffsets mips first tail_size).1 l).size) m =
      totalSize (fun l => (mips l).size) m := by
    intro m hm
    apply totalSize_congr
    intro k hk
    obtain ⟨o, heq, -⟩ := hentry k (by omega)
    rw [heq]
  cases h
  subst hwidth0 hheight0
  have hpos : 0 < description.width ∧ 0 < description.height := by
    simp only [not_or] at hvalid
    exact ⟨pos_of_ne_zero hvalid.1, pos_of_ne_zero hvalid.2.1⟩
  refine ⟨rfl, ?_⟩
  constructor
  case block => exact hblock
  case texel => exact htexel
  case extent => exact hpos
  case first_le => exact hfirst
  case tail => exact htail
  case stacked =>
    constructor
    intro k hk
    obtain ⟨o, heq, hmeets⟩ := hentry k hk
    have hoffset : ((assignOffsets mips first tail_size).1 k).offset = o := by rw [heq]
    unfold sizes offsets tailSize
    rw [hsizes (k + 1) hk, hsizes first le_rfl, hoffset, htailSize]
    exact hmeets
  case slice_size =>
    unfold sizes tailSize
    rw [hsizes first le_rfl, htailSize, add_comm, ← foldl_totalSize]
  case total_size =>
    simp only [slices, decide_eq_true_eq]
  case level =>
    intro level hlevel
    obtain ⟨o, heq, -⟩ := hentry level hlevel
    refine ⟨o, ?_⟩
    rw [← hmips, levelEntries, if_pos hlevel, hmips] at heq
    exact heq
  case tail_level =>
    intro level hlevel hlevels
    dsimp only
    rw [assignOffsets_of_le hlevel, ← hmips, levelEntries, if_neg (not_lt.mpr hlevel),
      if_pos hlevels]

/-! ## Elements and their places -/

theorem side_lt_columns {block : ℕ} (htexel : 0 < texel) (hblock : 0 < block)
    (hc : c < levelElements extent texel level) :
    c / block < AlignUp (max (ShiftCeil (elements extent texel) level) 1) block / block := by
  rw [div_lt_iff_lt_mul hblock, alignUp_div hblock]
  exact hc.trans_le ((levelElements_le htexel extent level).trans (le_alignUp hblock _))

theorem side_lt_tail {limit first k : ℕ} (htexel : 0 < texel)
    (hfits : ShiftCeil (elements extent texel) first ≤ limit)
    (hc : c < levelElements extent texel (first + k)) : c < max (ShiftCeil limit k) 1 :=
  hc.trans_le ((levelElements_le htexel extent _).trans
    (max_le_max_right 1 (shiftCeil_add_le hfits k)))

namespace TileSurfaceLayout

/-- An element of a surface: of the level `level` of the slice `slice`, at `x` and `y`, and `z` deep
in the slice. -/
structure IsElement (layout : TileSurfaceLayout) (slice level x y z : ℕ) : Prop where
  slice_lt : slice < layout.slices
  level_lt : level < layout.description.levels
  x_lt : x < levelElements layout.description.width layout.texture.texel_width level
  y_lt : y < levelElements layout.description.height layout.texture.texel_height level
  z_lt : z < layout.texture.block.block_depth

instance (layout : TileSurfaceLayout) (slice level x y z : ℕ) :
    Decidable (layout.IsElement slice level x y z) :=
  decidable_of_iff (slice < layout.slices ∧ level < layout.description.levels ∧
      x < levelElements layout.description.width layout.texture.texel_width level ∧
      y < levelElements layout.description.height layout.texture.texel_height level ∧
      z < layout.texture.block.block_depth)
    ⟨fun h => ⟨h.1, h.2.1, h.2.2.1, h.2.2.2.1, h.2.2.2.2⟩,
      fun h => ⟨h.slice_lt, h.level_lt, h.x_lt, h.y_lt, h.z_lt⟩⟩

variable (layout : TileSurfaceLayout)

/-- The blocks of a level, along its width and its height. -/
def columns (level : ℕ) : ℕ :=
  (layout.mips level).padded_width / layout.texture.block.block_width

def rows (level : ℕ) : ℕ :=
  (layout.mips level).padded_height / layout.texture.block.block_height

/-- The block of an element, and its place there. -/
def blockX (level x : ℕ) : ℕ := layout.blockAt level layout.texture.block.block_width x

def blockY (level y : ℕ) : ℕ := layout.blockAt level layout.texture.block.block_height y

def placeX (level x : ℕ) : ℕ :=
  layout.placeIn level layout.texture.block.block_width (layout.mips level).tail_x x

def placeY (level y : ℕ) : ℕ :=
  layout.placeIn level layout.texture.block.block_height (layout.mips level).tail_y y

/-- An element lies in a block of its level, at a place of the block. -/
structure Placed (level x y : ℕ) : Prop where
  block_x : layout.blockX level x < layout.columns level
  block_y : layout.blockY level y < layout.rows level
  x : layout.placeX level x < layout.texture.block.block_width
  y : layout.placeY level y < layout.texture.block.block_height

variable {layout}

section Laid

variable {w h d size i : ℕ} {formula : Formula}

theorem Mapped.extents (hm : layout.Mapped) (hlevel : level < layout.description.levels) :
    (layout.mips level).width =
        levelElements layout.description.width layout.texture.texel_width level ∧
      (layout.mips level).height =
        levelElements layout.description.height layout.texture.texel_height level := by
  by_cases htail : layout.first_tail_level ≤ level
  · rw [hm.tail_level level htail hlevel]
    exact ⟨rfl, rfl⟩
  · obtain ⟨o, heq⟩ := hm.level level (not_le.mp htail)
    rw [heq]
    exact ⟨rfl, rfl⟩

theorem Mapped.size_eq (hm : layout.Mapped) (hlaid : Laid layout.texture.block w h d size i formula)
    (hlevel : level < layout.description.levels) :
    layout.sizes level =
      layout.rows level * layout.columns level * layout.texture.block.block_size := by
  have hwidth : 0 < layout.texture.block.block_width := hlaid.width ▸ Nat.two_pow_pos w
  have hheight : 0 < layout.texture.block.block_height := hlaid.height ▸ Nat.two_pow_pos h
  unfold sizes rows columns
  by_cases htail : layout.first_tail_level ≤ level
  · -- the tail is one block
    rw [hm.tail_level level htail hlevel]
    simp only [tailMip]
    rw [Nat.div_self hwidth, Nat.div_self hheight, Nat.mul_one, Nat.one_mul]
  · obtain ⟨o, heq⟩ := hm.level level (by omega)
    rw [heq, ← hlaid.volume]
    simp only [levelMip]
    conv_lhs => rw [← alignUp_div hwidth, ← alignUp_div hheight]
    ring

variable {slice x y z level' : ℕ}

/-- **Each element of a level is at a place of a block of it.** -/
theorem Mapped.placed (hm : layout.Mapped) (hlaid : Laid layout.texture.block w h d size i formula)
    (he : layout.IsElement slice level x y z) : layout.Placed level x y := by
  have hwidth : 0 < layout.texture.block.block_width := hlaid.width ▸ Nat.two_pow_pos w
  have hheight : 0 < layout.texture.block.block_height := hlaid.height ▸ Nat.two_pow_pos h
  obtain ⟨family, b, hblock⟩ := hm.block
  by_cases hlevel : layout.first_tail_level ≤ level
  · -- level `k` of the tail: a rectangle of the block, which the extents bound
    obtain ⟨tail, htail, hfrom⟩ := hm.tail (hlevel.trans_lt he.level_lt)
    obtain ⟨k, rfl⟩ := Nat.exists_eq_add_of_le hlevel
    have hlevels := he.level_lt
    have hk : k < tail.max_levels := by
      have hmax := hfrom.levels
      omega
    have hfits := (packed_tail hblock htail).fits k hk
    simp only [tailFits, Bool.and_eq_true, decide_eq_true_eq] at hfits
    have hx := side_lt_tail hm.texel.1 hfrom.width he.x_lt
    have hy := side_lt_tail hm.texel.2 hfrom.height he.y_lt
    have hmip := hm.tail_level _ hlevel hlevels
    simp only [htail, tailMip, Nat.add_sub_cancel_left] at hmip
    constructor <;>
      simp only [blockX, blockY, placeX, placeY, columns, rows, blockAt, placeIn, if_pos hlevel, hmip]
    · rw [Nat.div_self hwidth]
      exact Nat.one_pos
    · rw [Nat.div_self hheight]
      exact Nat.one_pos
    · omega
    · omega
  · obtain ⟨o, hmip⟩ := hm.level level (not_le.mp hlevel)
    constructor <;>
      simp only [blockX, blockY, placeX, placeY, columns, rows, blockAt, placeIn, if_neg hlevel, hmip]
    · exact side_lt_columns hm.texel.1 hwidth he.x_lt
    · exact side_lt_columns hm.texel.2 hheight he.y_lt
    · exact Nat.mod_lt x hwidth
    · exact Nat.mod_lt y hheight

theorem blockAt_mul_le (level block_side c : ℕ) :
    layout.blockAt level block_side c * block_side ≤ c := by
  unfold blockAt
  split
  · rw [zero_mul]
    exact zero_le c
  · exact div_mul_le_self c block_side

/-- What an element is at, in the slice: the number of its block in the level, row by row, and the
offset in that block. -/
def position (level x y offset : ℕ) : ℕ :=
  layout.offsets level +
    (layout.blockY level y * layout.columns level + layout.blockX level x) *
      layout.texture.block.block_size + offset

section

variable (hm : layout.Mapped)

include hm

section

variable (hlaid : Laid layout.texture.block w h d size i formula)

include hlaid

theorem Mapped.address_eq
    (hwidth : layout.description.width ≤ 16384) (hheight : layout.description.height ≤ 16384)
    (surface_z : ℕ → ℕ) (he : layout.IsElement slice level x y z) :
    ∃ bytes, TileGetBlockXor layout.texture.block (layout.blockX level x) (layout.blockY level y)
        (surface_z slice) = some bytes ∧
      InBlock layout.texture.block bytes ∧
      InBlock layout.texture.block (formula (layout.placeX level x) (layout.placeY level y) z) ∧
      layout.address surface_z slice level x y z =
        some (slice * layout.block_slice_size + layout.position level x y
          (formula (layout.placeX level x) (layout.placeY level y) z ^^^ bytes)) := by
  have hplaced := hm.placed hlaid he
  have hx := he.x_lt.trans_le (levelElements_le_extent hm.texel.1 hm.extent.1 level)
  have hy := he.y_lt.trans_le (levelElements_le_extent hm.texel.2 hm.extent.2 level)
  have hblockx : layout.blockX level x * layout.texture.block.block_width ≤ x :=
    blockAt_mul_le level _ x
  have hblocky : layout.blockY level y * layout.texture.block.block_height ≤ y :=
    blockAt_mul_le level _ y
  obtain ⟨hoffset, hin⟩ := hlaid.offset hplaced.x hplaced.y he.z_lt
  have hxfits : layout.blockX level x * layout.texture.block.block_width < 2 ^ 32 := by omega
  have hyfits : layout.blockY level y * layout.texture.block.block_height < 2 ^ 32 := by omega
  obtain ⟨bytes, hxor, hinxor⟩ := hlaid.xor_total hxfits hyfits (surface_z slice)
  refine ⟨bytes, hxor, hinxor, hin, ?_⟩
  unfold placeX placeY at hoffset
  unfold blockX blockY at hxor
  unfold address
  simp only [hoffset, hxor]
  unfold position offsets columns blockX blockY placeX placeY
  rw [add_assoc, add_assoc, add_assoc]

theorem Mapped.position_mem (he : layout.IsElement slice level x y z) {offset : ℕ}
    (hoffset : InBlock layout.texture.block offset) :
    layout.offsets level ≤ layout.position level x y offset ∧
      layout.position level x y offset < layout.offsets level + layout.sizes level := by
  have hplaced := hm.placed hlaid he
  have hblock := index_lt hplaced.block_y hplaced.block_x
  have hbyte := index_lt hblock hoffset.1
  rw [← hm.size_eq hlaid he.level_lt] at hbyte
  unfold position
  omega

end

theorem Mapped.region_tail (hfirst : layout.first_tail_level ≤ level)
    (hlevel : level < layout.description.levels) :
    layout.offsets level = 0 ∧ layout.sizes level = layout.tailSize ∧
      layout.tailSize = layout.texture.block.block_size := by
  unfold offsets sizes tailSize
  rw [hm.tail_level level hfirst hlevel, if_pos (hfirst.trans_lt hlevel)]
  exact ⟨rfl, rfl, rfl⟩

theorem Mapped.region_le (hlevel : level < layout.description.levels) :
    layout.offsets level + layout.sizes level ≤ layout.block_slice_size := by
  rw [hm.slice_size]
  by_cases hfirst : layout.first_tail_level ≤ level
  · obtain ⟨hoffset, hsize, -⟩ := hm.region_tail hfirst hlevel
    omega
  · exact hm.stacked.end_le (not_le.mp hfirst)

/-- **Two levels that share a byte are both in the tail.** -/
theorem Mapped.level_cases {byte : ℕ}
    (hlevel : level < layout.description.levels) (hlevel' : level' < layout.description.levels)
    (hmem : layout.offsets level ≤ byte ∧ byte < layout.offsets level + layout.sizes level)
    (hmem' : layout.offsets level' ≤ byte ∧ byte < layout.offsets level' + layout.sizes level') :
    level = level' ∨ (layout.first_tail_level ≤ level ∧ layout.first_tail_level ≤ level') := by
  by_cases hfirst : layout.first_tail_level ≤ level
  · by_cases hfirst' : layout.first_tail_level ≤ level'
    · exact .inr ⟨hfirst, hfirst'⟩
    · -- the block of the tail is below the other levels
      have hregion := hm.region_tail hfirst hlevel
      have hbase := hm.stacked.base_le (not_le.mp hfirst')
      omega
  · by_cases hfirst' : layout.first_tail_level ≤ level'
    · have hregion := hm.region_tail hfirst' hlevel'
      have hbase := hm.stacked.base_le (not_le.mp hfirst)
      omega
    · exact .inl (hm.stacked.eq_of_mem (not_le.mp hfirst) (not_le.mp hfirst') hmem hmem')

end

theorem coordinate_eq {block_side tail_start c' : ℕ}
    (hblock : layout.blockAt level block_side c = layout.blockAt level block_side c')
    (hplace : layout.placeIn level block_side tail_start c =
      layout.placeIn level block_side tail_start c') : c = c' := by
  unfold blockAt placeIn at *
  split at hblock
  · next hfirst =>
    rw [if_pos hfirst, if_pos hfirst] at hplace
    omega
  · next hfirst =>
    rw [if_neg hfirst, if_neg hfirst] at hplace
    rw [← div_add_mod c block_side, hblock, hplace, div_add_mod]

section

variable (hm : layout.Mapped) (hfirst : layout.first_tail_level ≤ level)

include hm hfirst

/-- **Two levels of the tail have no place of its block in common.** -/
theorem Mapped.tail_apart {slice' x' y' z' : ℕ} (hfirst' : layout.first_tail_level ≤ level')
    (he : layout.IsElement slice level x y z) (he' : layout.IsElement slice' level' x' y' z')
    (hx : layout.placeX level x = layout.placeX level' x')
    (hy : layout.placeY level y = layout.placeY level' y') : level = level' := by
  obtain ⟨family, b, hblock⟩ := hm.block
  obtain ⟨tail, htail, hfrom⟩ := hm.tail (hfirst.trans_lt he.level_lt)
  have hmip := hm.tail_level _ hfirst he.level_lt
  have hmip' := hm.tail_level _ hfirst' he'.level_lt
  unfold placeX placeIn at hx
  unfold placeY placeIn at hy
  rw [if_pos hfirst, if_pos hfirst'] at hx hy
  obtain ⟨k, rfl⟩ := Nat.exists_eq_add_of_le hfirst
  obtain ⟨k', rfl⟩ := Nat.exists_eq_add_of_le hfirst'
  have hmax := hfrom.levels
  have hlevel := he.level_lt
  have hlevel' := he'.level_lt
  by_contra hne
  have hapart := (packed_tail hblock htail).apart k (by omega) k' (by omega) (by omega)
  simp only [tailApart, apart, Bool.or_eq_true, decide_eq_true_eq] at hapart
  simp only [htail, tailMip, Nat.add_sub_cancel_left] at hmip hmip'
  simp only [hmip, hmip'] at hx hy
  -- each coordinate is in the rectangle of its level
  have hxlt := side_lt_tail hm.texel.1 hfrom.width he.x_lt
  have hxlt' := side_lt_tail hm.texel.1 hfrom.width he'.x_lt
  have hylt := side_lt_tail hm.texel.2 hfrom.height he.y_lt
  have hylt' := side_lt_tail hm.texel.2 hfrom.height he'.y_lt
  omega

theorem Mapped.position_tail {offset : ℕ} (hlevel : level < layout.description.levels) :
    layout.position level x y offset = offset := by
  unfold position blockX blockY blockAt
  rw [(hm.region_tail hfirst hlevel).1, if_pos hfirst, if_pos hfirst, Nat.zero_mul, Nat.zero_mul,
    Nat.zero_add]

end

/-- **No two elements of a surface have one address.** -/
theorem Mapped.address_injective (hm : layout.Mapped)
    (hwidth : layout.description.width ≤ 16384) (hheight : layout.description.height ≤ 16384)
    (surface_z : ℕ → ℕ) {slice' x' y' z' : ℕ}
    (he : layout.IsElement slice level x y z) (he' : layout.IsElement slice' level' x' y' z')
    (heq : layout.address surface_z slice level x y z =
      layout.address surface_z slice' level' x' y' z') :
    slice = slice' ∧ level = level' ∧ x = x' ∧ y = y' ∧ z = z' := by
  obtain ⟨family, b, hblock⟩ := hm.block
  obtain ⟨w, h, d, size, i, formula, hlaid⟩ := laid hblock
  obtain ⟨bytes, hxor, hinxor, hin, haddress⟩ :=
    hm.address_eq hlaid hwidth hheight surface_z he
  obtain ⟨bytes', hxor', hinxor', hin', haddress'⟩ :=
    hm.address_eq hlaid hwidth hheight surface_z he'
  have hoffset := hlaid.xor _ _ hin hinxor
  have hoffset' := hlaid.xor _ _ hin' hinxor'
  have hmem := hm.position_mem hlaid he hoffset
  have hmem' := hm.position_mem hlaid he' hoffset'
  have hend := hm.region_le he.level_lt
  have hend' := hm.region_le he'.level_lt
  rw [haddress, haddress', some.injEq] at heq
  -- the address gives back the slice, and what is left of it the level
  obtain ⟨rfl, hposition⟩ := index_inj (hmem.2.trans_le hend) (hmem'.2.trans_le hend') heq
  have hplaced := hm.placed hlaid he
  have hplaced' := hm.placed hlaid he'
  rcases hm.level_cases he.level_lt he'.level_lt hmem (hposition ▸ hmem') with rfl | ⟨hfirst, hfirst'⟩
  · -- one level: the number of the block, and then the place in it
    unfold position at hposition
    rw [add_assoc, add_assoc, add_left_cancel_iff] at hposition
    obtain ⟨hnumber, hplace⟩ := index_inj hoffset.1 hoffset'.1 hposition
    obtain ⟨hblocky, hblockx⟩ := index_inj hplaced.block_x hplaced'.block_x hnumber
    rw [hblockx, hblocky, hxor', some.injEq] at hxor
    rw [← hxor, xor_left_inj] at hplace
    obtain ⟨hplacex, hplacey, hz⟩ := hlaid.injective hplaced.x hplaced.y he.z_lt hplaced'.x
      hplaced'.y he'.z_lt hplace
    exact ⟨rfl, rfl, coordinate_eq hblockx hplacex, coordinate_eq hblocky hplacey, hz⟩
  · -- two levels of the tail: one block, where they are apart
    rw [hm.position_tail hfirst he.level_lt, hm.position_tail hfirst' he'.level_lt] at hposition
    have hblockx : layout.blockX level x = layout.blockX level' x' := by
      unfold blockX blockAt
      rw [if_pos hfirst, if_pos hfirst']
    have hblocky : layout.blockY level y = layout.blockY level' y' := by
      unfold blockY blockAt
      rw [if_pos hfirst, if_pos hfirst']
    rw [hblockx, hblocky, hxor', some.injEq] at hxor
    rw [← hxor, xor_left_inj] at hposition
    obtain ⟨hplacex, hplacey, hz⟩ := hlaid.injective hplaced.x hplaced.y he.z_lt hplaced'.x
      hplaced'.y he'.z_lt hposition
    obtain rfl := hm.tail_apart hfirst hfirst' he he' hplacex hplacey
    exact ⟨rfl, rfl, coordinate_eq hblockx hplacex, coordinate_eq hblocky hplacey, hz⟩

/-! ## Alignment -/

theorem Mapped.dvd_tailSize : layout.texture.block.block_size ∣ layout.tailSize := by
  unfold tailSize
  split
  · exact dvd_rfl
  · exact dvd_zero _

section

variable (hm : layout.Mapped) (hlaid : Laid layout.texture.block w h d size i formula)

include hm hlaid

theorem Mapped.dvd_offsets (hlevel : level < layout.description.levels) :
    layout.texture.block.block_size ∣ layout.offsets level := by
  by_cases hfirst : layout.first_tail_level ≤ level
  · rw [(hm.region_tail hfirst hlevel).1]
    exact dvd_zero _
  · refine hm.stacked.dvd_offset dvd_tailSize (fun k hk => ?_) (not_le.mp hfirst)
    rw [hm.size_eq hlaid (hk.trans_le hm.first_le)]
    exact dvd_mul_left _ _

theorem Mapped.dvd_slice : layout.texture.block.block_size ∣ layout.block_slice_size := by
  rw [hm.slice_size]
  refine dvd_tailSize.add (Stacked.dvd_totalSize fun k hk => ?_)
  rw [hm.size_eq hlaid (hk.trans_le hm.first_le)]
  exact dvd_mul_left _ _

end

/-- **Each element has an address, at a multiple of its size and in the surface.** -/
theorem Mapped.address_total (hm : layout.Mapped)
    (hwidth : layout.description.width ≤ 16384) (hheight : layout.description.height ≤ 16384)
    (surface_z : ℕ → ℕ) (he : layout.IsElement slice level x y z) :
    ∃ address, layout.address surface_z slice level x y z = some address ∧
      layout.texture.block.bytes_per_element ∣ address ∧
      address + layout.texture.block.bytes_per_element ≤ layout.total_size := by
  obtain ⟨family, b, hblock⟩ := hm.block
  obtain ⟨w, h, d, size, i, formula, hlaid⟩ := laid hblock
  obtain ⟨bytes, -, hinxor, hin, haddress⟩ := hm.address_eq hlaid hwidth hheight surface_z he
  have hoffset := hlaid.xor _ _ hin hinxor
  refine ⟨_, haddress, ?_⟩
  have hbytes : layout.texture.block.bytes_per_element ∣ layout.texture.block.block_size :=
    hlaid.volume ▸ dvd_mul_left _ _
  have hslice := hbytes.trans (hm.dvd_slice hlaid)
  have haligned : layout.texture.block.bytes_per_element ∣
      slice * layout.block_slice_size + layout.position level x y
        (formula (layout.placeX level x) (layout.placeY level y) z ^^^ bytes) := by
    refine (hslice.mul_left slice).add ((dvd_add ?_ ?_).add ?_)
    · exact hbytes.trans (hm.dvd_offsets hlaid he.level_lt)
    · exact hbytes.mul_left _
    · exact dvd_of_mod_eq_zero hoffset.2
  refine ⟨haligned, ?_⟩
  -- below the end, and like the end a multiple
  have hmem := (hm.position_mem hlaid he hoffset).2.trans_le (hm.region_le he.level_lt)
  have hlt := index_lt he.slice_lt hmem
  rw [hm.total_size, mul_comm layout.block_slice_size]
  exact add_le_of_lt_of_dvd hlt haligned (hslice.mul_left _)

end Laid

end TileSurfaceLayout

open TileSurfaceLayout in
/-- **Addresses in a tiled surface.** In a surface that is at most 16384 wide and high, each element
of each level has an address, at a multiple of its size and in the surface, and no two elements have
one. The levels before the tail are made of whole blocks; they are apart and fill the slice above
the block of the tail. -/
theorem tiled_addresses {description : TileSurfaceDescription} {layout : TileSurfaceLayout}
    (h : TileGetTiledTextureLayout description = some layout) (hwidth : description.width ≤ 16384)
    (hheight : description.height ≤ 16384) (surface_z : ℕ → ℕ) :
    (∀ slice level x y z, layout.IsElement slice level x y z →
      ∃ address, layout.address surface_z slice level x y z = some address ∧
        layout.texture.block.bytes_per_element ∣ address ∧
        address + layout.texture.block.bytes_per_element ≤ layout.total_size) ∧
    (∀ slice level x y z slice' level' x' y' z', layout.IsElement slice level x y z →
      layout.IsElement slice' level' x' y' z' →
      layout.address surface_z slice level x y z =
        layout.address surface_z slice' level' x' y' z' →
      slice = slice' ∧ level = level' ∧ x = x' ∧ y = y' ∧ z = z') ∧
    (∀ level < layout.description.levels,
      (layout.mips level).width =
          levelElements description.width layout.texture.texel_width level ∧
        (layout.mips level).height =
          levelElements description.height layout.texture.texel_height level ∧
        layout.texture.block.block_size ∣ (layout.mips level).offset ∧
        (layout.mips level).size =
          layout.rows level * layout.columns level * layout.texture.block.block_size) ∧
    (∀ level, layout.first_tail_level ≤ level → level < layout.description.levels →
      (layout.mips level).offset = 0 ∧
        (layout.mips level).size = layout.texture.block.block_size) ∧
    ∀ byte, layout.tailSize ≤ byte → byte < layout.block_slice_size →
      ∃! level, level < layout.first_tail_level ∧ (layout.mips level).offset ≤ byte ∧
        byte < (layout.mips level).offset + (layout.mips level).size := by
  obtain ⟨rfl, hm⟩ := mapped h
  obtain ⟨family, b, hblock⟩ := hm.block
  obtain ⟨w, h, d, size, i, formula, hlaid⟩ := laid hblock
  refine ⟨?_, ?_, ?_, ?_, ?_⟩
  · intro slice level x y z he
    exact hm.address_total hwidth hheight surface_z he
  · intro slice level x y z slice' level' x' y' z' he he' heq
    exact hm.address_injective hwidth hheight surface_z he he' heq
  · intro level hlevel
    obtain ⟨hw, hh⟩ := hm.extents hlevel
    exact ⟨hw, hh, hm.dvd_offsets hlaid hlevel, hm.size_eq hlaid hlevel⟩
  · intro level hfirst hlevel
    obtain ⟨hoffset, hsize, htail⟩ := hm.region_tail hfirst hlevel
    exact ⟨hoffset, hsize.trans htail⟩
  · intro byte hlow hhigh
    rw [hm.slice_size] at hhigh
    obtain ⟨level, hlevel, hmem⟩ := hm.stacked.exists_mem hlow hhigh
    refine ⟨level, ⟨hlevel, hmem⟩, ?_⟩
    rintro other ⟨hother, hmem'⟩
    exact hm.stacked.eq_of_mem hother hlevel hmem' hmem

/-- A render target with four levels, of which the last is in the tail, and two layers. -/
def renderTarget : TileSurfaceDescription :=
  ⟨.k8_8_8_8UNorm, .kRenderTarget, .dim2D, 300, 200, 1, 4, 2⟩

/-- An element of its third level, and no other, is at byte 760200. -/
theorem tiled_addresses_renderTarget :
    ∃ layout, TileGetTiledTextureLayout renderTarget = some layout ∧
      layout.address id 1 2 70 40 0 = some 760200 ∧
      ∀ slice level x y z, layout.IsElement slice level x y z →
        layout.address id slice level x y z = some 760200 →
        slice = 1 ∧ level = 2 ∧ x = 70 ∧ y = 40 ∧ z = 0 := by
  have hsome : (TileGetTiledTextureLayout renderTarget).isSome = true := by decide +kernel
  obtain ⟨layout, hlayout⟩ := Option.isSome_iff_exists.mp hsome
  have haddress : ((TileGetTiledTextureLayout renderTarget).bind fun layout =>
      layout.address id 1 2 70 40 0) = some 760200 := by decide +kernel
  have helement : ((TileGetTiledTextureLayout renderTarget).map fun layout =>
      decide (layout.IsElement 1 2 70 40 0)) = some true := by decide +kernel
  rw [hlayout, Option.bind_some] at haddress
  rw [hlayout, Option.map_some, Option.some.injEq, decide_eq_true_eq] at helement
  refine ⟨layout, hlayout, haddress, fun slice level x y z he heq => ?_⟩
  have hinjective := (tiled_addresses hlayout (by decide) (by decide) id).2.1
  exact hinjective slice level x y z 1 2 70 40 0 he helement (heq.trans haddress.symm)

end MagnusPS5.Graphics.Tile
