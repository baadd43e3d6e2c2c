/-
Offsets in a block are one to one.

Each formula respects exclusive or (`blockFormula_linear`), so that it is enough to look at the
images of the powers of two, for each family and each number of bytes (`blocks_checked`).
`Block.offset` and `Block.xor` read off what `TileGetBlockOffset` and `TileGetBlockXor` compute.
-/
import MagnusPS5.Graphics.TileBlocks

namespace MagnusPS5.Graphics.Tile

open Lib XorLinear₃ Nat XorLinear Option

/-! ## The formulas respect exclusive or -/

theorem shifted_linear (terms : List (ℕ × ℕ)) : XorLinear (shifted terms) := by
  induction terms with
  | nil => exact ⟨fun _ _ => (xor_self 0).symm⟩
  | cons term terms ih =>
    have hterm := (XorLinear.and term.2).comp (XorLinear.shiftLeft term.1)
    constructor
    intro a b
    have hxor := hterm.xor a b
    have hrest := ih.xor a b
    simp only [shifted, List.foldr_cons] at hxor hrest ⊢
    rw [hxor, hrest, xor_swap]

theorem bit_linear (source destination : ℕ) : XorLinear (Bit · source destination) :=
  (XorLinear.shiftLeft destination).comp ((XorLinear.and 1).comp (XorLinear.shiftRight source))

variable {family : TileBlockFamily} {b : ℕ} {formula : Formula} {block : TileBlockLayout}

section Formulas

theorem standard4KB_linear (h : Gen5Standard4KBOffsetInBlock b = some formula) :
    XorLinear₃ formula := by
  unfold Gen5Standard4KBOffsetInBlock at h
  split at h <;> cases h <;>
    exact (second (shifted_linear _)).add (.first (shifted_linear _))

theorem standard4KBVolume_linear (h : Gen5Standard4KBVolumeOffsetInBlock b = some formula) :
    XorLinear₃ formula := by
  unfold Gen5Standard4KBVolumeOffsetInBlock at h
  split at h <;> cases h <;>
    exact ((first (shifted_linear _)).add (.second (shifted_linear _))).add
      (.third (shifted_linear _))

theorem standard64KBVolume_linear (h : Gen5Standard64KBVolumeOffsetInBlock b = some formula) :
    XorLinear₃ formula := by
  simp only [Gen5Standard64KBVolumeOffsetInBlock, bind_eq_bind, bind_eq_some_iff] at h
  obtain ⟨bits, -, offset, hoffset, h⟩ := h
  cases h
  exact ((((standard4KBVolume_linear hoffset).add (.first (bit_linear _ _))).add
    (.third (bit_linear _ _))).add (.second (bit_linear _ _))).add (.first (bit_linear _ _))

theorem tables_linear (shift : ℕ) (x_terms y_terms : List (ℕ × ℕ)) :
    XorLinear₃ (tables shift x_terms y_terms) := by
  have hword : ∀ terms, XorLinear fun value => shifted terms value >>> shift := fun terms =>
    (XorLinear.shiftRight shift).comp (shifted_linear terms)
  have hxor := (first (hword x_terms)).add (.second (hword y_terms))
  exact .post (mul shift) hxor

theorem standard64KB_linear (h : Standard64KBTables b = some formula) : XorLinear₃ formula := by
  unfold Standard64KBTables at h
  split at h <;> cases h <;> exact tables_linear _ _ _

theorem renderTarget_linear (h : Gen5RenderTargetOffsetInBlock b = some formula) :
    XorLinear₃ formula := by
  unfold Gen5RenderTargetOffsetInBlock at h
  split at h <;> cases h
  case h_5 => exact (first (shifted_linear _)).add (.second (shifted_linear _))
  all_goals exact (second (shifted_linear _)).add (.first (shifted_linear _))

theorem depth_linear (h : Depth64KBOffsetBytes b = some formula) : XorLinear₃ formula := by
  unfold Depth64KBOffsetBytes at h
  split at h <;> cases h <;>
    exact (first (shifted_linear _)).add (.second (shifted_linear _))

/-- **The formulas respect exclusive or.** -/
theorem blockFormula_linear (h : blockFormula family b = some formula) : XorLinear₃ formula := by
  cases family with
  | standard256B =>
    simp only [blockFormula, Gen5Standard256BOffsetInBlock, bind_eq_bind, bind_eq_some_iff] at h
    obtain ⟨offset, hoffset, h⟩ := h
    cases h
    exact .post (and 0xff) (standard4KB_linear hoffset)
  | standard4KB => exact standard4KB_linear h
  | standard4KB3D => exact standard4KBVolume_linear h
  | standard64KB => exact standard64KB_linear h
  | standard64KB3D => exact standard64KBVolume_linear h
  | prt64KB =>
    simp only [blockFormula, bind_eq_bind, bind_eq_some_iff] at h
    obtain ⟨bits, -, offset, hoffset, h⟩ := h
    cases h
    exact (standard64KB_linear hoffset).add
      ((((first (bit_linear _ _)).add (.second (bit_linear _ _))).add
        (.first (bit_linear _ _))).add (.second (bit_linear _ _)))
  | prt64KB3D =>
    simp only [blockFormula, bind_eq_bind, bind_eq_some_iff] at h
    obtain ⟨bits, -, offset, hoffset, h⟩ := h
    cases h
    exact (standard64KBVolume_linear hoffset).add
      ((((second (bit_linear _ _)).add (.first (bit_linear _ _))).add
        (.first (bit_linear _ _))).add (.third (bit_linear _ _)))
  | renderTarget64KB => exact renderTarget_linear h
  | depth64KB => exact depth_linear h

end Formulas

/-! ## The blocks -/

theorem bytes_cases {bytes_per_element : ℕ} (hbit : has_single_bit bytes_per_element = true)
    (hle : bytes_per_element ≤ 16) : ∃ i < 5, bytes_per_element = 2 ^ i := by
  interval_cases bytes_per_element <;> first
    | exact absurd hbit (by decide)
    | exact ⟨0, by decide, rfl⟩
    | exact ⟨1, by decide, rfl⟩
    | exact ⟨2, by decide, rfl⟩
    | exact ⟨3, by decide, rfl⟩
    | exact ⟨4, by decide, rfl⟩

/-- What the block of a family with elements of `2 ^ i` bytes has to be, for a formula. -/
def suits (i : ℕ) (block : TileBlockLayout) (formula : Formula) : Bool :=
  let w := block.block_width.log2
  let h := block.block_height.log2
  let d := block.block_depth.log2
  block.block_width == 2 ^ w && block.block_height == 2 ^ h && block.block_depth == 2 ^ d &&
    block.bytes_per_element == 2 ^ i && block.block_size == 2 ^ block.block_size.log2 &&
    i ≤ block.block_size.log2 && w ≤ 8 && h ≤ 8 && d ≤ 5 &&
    independent 16 (basisImages₃ w h d formula) &&
    (basisImages₃ 32 32 5 formula).all (fun v => v < block.block_size && v % 2 ^ i == 0) &&
    (List.range 16).all fun z =>
      xorDepth block z < block.block_size && xorDepth block z % 2 ^ i == 0

/-- The block of a family suits its formula. -/
def checked (family : TileBlockFamily) (i : ℕ) : Bool :=
  match TileGetBlockLayout family (2 ^ i), blockFormula family (2 ^ i) with
  | some block, some formula => suits i block formula
  | some _, none => false
  | none, _ => true

theorem blocks_checked (family : TileBlockFamily) : ∀ i < 5, checked family i = true := by
  cases family <;> decide +kernel

/-- An offset of an element in a block. -/
def InBlock (block : TileBlockLayout) (offset : ℕ) : Prop :=
  offset < block.block_size ∧ offset % block.bytes_per_element = 0

/-- What is known of a block that `TileGetBlockLayout` has laid out. -/
structure Laid (block : TileBlockLayout) (w h d size i : ℕ) (formula : Formula) : Prop where
  matched : matchesFamily block = true
  formula_eq : blockFormula block.family block.bytes_per_element = some formula
  linear : XorLinear₃ formula
  width : block.block_width = 2 ^ w
  height : block.block_height = 2 ^ h
  depth : block.block_depth = 2 ^ d
  bytes : block.bytes_per_element = 2 ^ i
  size : block.block_size = 2 ^ size
  volume : block.block_width * block.block_height * block.block_depth * block.bytes_per_element =
    block.block_size
  bytes_le : i < 5
  dims_le : w ≤ 8 ∧ h ≤ 8 ∧ d ≤ 5
  independent : independent 16 (basisImages₃ w h d formula) = true
  images : ∀ v ∈ basisImages₃ 32 32 5 formula, InBlock block v
  depths : ∀ z < 16, InBlock block (xorDepth block z)

theorem layout_cases (h : TileGetBlockLayout family b = some block) :
    has_single_bit b = true ∧ b ≤ 16 ∧ block.family = family ∧ block.bytes_per_element = b ∧
      block.block_width * block.block_height * block.block_depth * block.bytes_per_element =
        block.block_size := by
  simp only [TileGetBlockLayout] at h
  split at h
  · simp at h
  next hbit =>
  split at h
  · simp at h
  next hmax =>
  split at h
  · simp at h
  next dimensions _ =>
  split at h
  · simp at h
  next hvolume =>
  cases h
  have hle : (BLOCK_FAMILIES family).max_bytes_per_element ≤ 16 := by
    cases family <;> decide
  exact ⟨by simpa using hbit, by omega, rfl, rfl, not_not.mp hvolume⟩

theorem laid (h : TileGetBlockLayout family b = some block) :
    ∃ w h d size i formula, Laid block w h d size i formula := by
  obtain ⟨hbit, hle, hfamily, hbytes, hvolume⟩ := layout_cases h
  obtain ⟨i, hi, rfl⟩ := bytes_cases hbit hle
  have hchecked := blocks_checked family i hi
  unfold checked at hchecked
  rw [h] at hchecked
  cases hformula : blockFormula family (2 ^ i) with
  | none => simp [hformula] at hchecked
  | some formula =>
    simp only [hformula, suits, Bool.and_eq_true, beq_iff_eq, decide_eq_true_eq,
      List.all_eq_true, List.mem_range] at hchecked
    obtain ⟨⟨⟨⟨⟨⟨⟨⟨⟨⟨⟨hw, hh⟩, hd⟩, hb⟩, hsize⟩, hile⟩, hw8⟩, hh8⟩, hd5⟩, hind⟩, himages⟩,
      hdepths⟩ := hchecked
    refine ⟨_, _, _, _, i, formula, ⟨?_, ?_, blockFormula_linear hformula, hw, hh, hd, hb, hsize,
      hvolume, hi, ?_, hind, fun v hv => ?_, fun z hz => ?_⟩⟩
    · unfold matchesFamily
      rw [hfamily, hbytes, h]
      simp
    · rw [hfamily, hbytes]
      exact hformula
    · exact ⟨hw8, hh8, hd5⟩
    · exact ⟨(himages v hv).1, hb ▸ (himages v hv).2⟩
    · exact ⟨(hdepths z hz).1, hb ▸ (hdepths z hz).2⟩

/-! ## Offsets -/

section Laid

variable {w h d size i : ℕ}

theorem Laid.zero (hl : Laid block w h d size i formula) : InBlock block 0 := by
  refine ⟨?_, zero_mod _⟩
  rw [hl.size]
  exact Nat.two_pow_pos size

theorem Laid.xor (hl : Laid block w h d size i formula) (a b : ℕ) (ha : InBlock block a)
    (hb : InBlock block b) : InBlock block (a ^^^ b) := by
  unfold InBlock at ha hb ⊢
  rw [hl.size, hl.bytes] at ha hb ⊢
  refine ⟨xor_lt_two_pow ha.1 hb.1, ?_⟩
  rw [xor_mod_two_pow, ha.2, hb.2]
  rfl

variable {x y z : ℕ}

section

variable (hl : Laid block w h d size i formula)

include hl

theorem Laid.formula_inBlock (hx : x < 2 ^ 32)
    (hy : y < 2 ^ 32) (hz : z < 2 ^ 5) : InBlock block (formula x y z) :=
  hl.linear.mem hl.zero hl.xor hl.images hx hy hz

section

variable (hx : x < block.block_width) (hy : y < block.block_height) (hz : z < block.block_depth)

include hx hy hz

theorem Laid.offset :
    TileGetBlockOffset block x y z = some (formula x y z) ∧ InBlock block (formula x y z) := by
  obtain ⟨hw, hh, hd⟩ := hl.dims_le
  have hin : InBlock block (formula x y z) := by
    rw [hl.width] at hx
    rw [hl.height] at hy
    rw [hl.depth] at hz
    exact hl.formula_inBlock (hx.trans_le (Nat.pow_le_pow_right Nat.zero_lt_two (by omega)))
      (hy.trans_le (Nat.pow_le_pow_right Nat.zero_lt_two (by omega)))
      (hz.trans_le (Nat.pow_le_pow_right Nat.zero_lt_two hd))
  refine ⟨?_, hin⟩
  have hinside : ¬ (matchesFamily block = false ∨ block.block_width ≤ x ∨ block.block_height ≤ y ∨
      block.block_depth ≤ z) := by
    rw [hl.matched]
    simp
    omega
  have haligned : ¬ (block.block_size ≤ formula x y z ∨
      formula x y z % block.bytes_per_element ≠ 0) := by
    have hlt := hin.1
    have hmod := hin.2
    omega
  rw [TileGetBlockOffset, if_neg hinside, hl.formula_eq]
  dsimp only
  rw [if_neg haligned]

/-- **No two elements of a block have one offset.** -/
theorem Laid.injective {x' y' z' : ℕ}
    (hx' : x' < block.block_width) (hy' : y' < block.block_height) (hz' : z' < block.block_depth)
    (heq : formula x y z = formula x' y' z') : x = x' ∧ y = y' ∧ z = z' := by
  rw [hl.width] at hx hx'
  rw [hl.height] at hy hy'
  rw [hl.depth] at hz hz'
  exact hl.linear.injective hl.independent hx hy hz hx' hy' hz' heq

end

end

theorem xorDepth_low (block : TileBlockLayout) (block_z : ℕ) :
    xorDepth block block_z = xorDepth block (block_z % 16) := by
  have hlow : ∀ mask < 16, block_z &&& mask = (block_z % 16) &&& mask := by
    intro mask hmask
    have hpow : (16 : ℕ) = 2 ^ 4 := rfl
    have hle : block_z &&& mask ≤ mask := and_le_right
    rw [← mod_eq_of_lt (a := block_z &&& mask) (b := 16) (by omega), hpow, and_mod_two_pow,
      mod_eq_of_lt (a := mask) (b := 2 ^ 4) (by omega)]
  unfold xorDepth
  rw [hlow 8 (by omega), hlow 4 (by omega), hlow 2 (by omega), hlow 1 (by omega)]

theorem Laid.xor_total (hl : Laid block w h d size i formula) {block_x block_y : ℕ}
    (hx : block_x * block.block_width < 2 ^ 32) (hy : block_y * block.block_height < 2 ^ 32)
    (block_z : ℕ) :
    ∃ bytes, TileGetBlockXor block block_x block_y block_z = some bytes ∧ InBlock block bytes := by
  have hbytes : ∃ bytes, xorBytes block block_x block_y = some bytes ∧ InBlock block bytes := by
    have hfits : ¬ (UINT32_MAX / block.block_width < block_x ∨
        UINT32_MAX / block.block_height < block_y) := by
      have hwpos : 0 < block.block_width := hl.width ▸ Nat.two_pow_pos w
      have hhpos : 0 < block.block_height := hl.height ▸ Nat.two_pow_pos h
      unfold UINT32_MAX
      rw [div_lt_iff_lt_mul hwpos, div_lt_iff_lt_mul hhpos]
      omega
    unfold xorBytes
    rw [if_neg hfits, hl.formula_eq]
    split
    · exact ⟨_, rfl, hl.formula_inBlock hx hy (by omega)⟩
    · exact ⟨0, rfl, hl.zero⟩
  obtain ⟨bytes, heq, hin⟩ := hbytes
  have hdepth : InBlock block (xorDepth block block_z) := by
    rw [xorDepth_low]
    exact hl.depths _ (mod_lt _ (by omega))
  have hboth := hl.xor _ _ hin hdepth
  have haligned : ¬ (block.block_size ≤ bytes ^^^ xorDepth block block_z ∨
      (bytes ^^^ xorDepth block block_z) % block.bytes_per_element ≠ 0) := by
    have hlt := hboth.1
    have hmod := hboth.2
    omega
  refine ⟨_, ?_, hboth⟩
  rw [TileGetBlockXor, if_neg (by simp [hl.matched]), heq]
  dsimp only
  rw [if_neg haligned]

end Laid

end MagnusPS5.Graphics.Tile
