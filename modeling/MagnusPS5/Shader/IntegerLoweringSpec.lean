/-
What the emitted code of wide integer instructions computes.

Every instruction is exact but the 32-bit mask: `BitFieldInsert` is undefined where its field
reaches over the end of the word, and nothing cuts the field there.
-/
import MagnusPS5.Shader.FoldArithmetic
import MagnusPS5.Shader.IntegerLowering

namespace MagnusPS5.Shader.IntegerLowering

open Option BitVec Bool

open Program Instruction

/-! ## Sums and differences -/

theorem writeCarry_eq (vector : Option Bool) (dst : Word) (carry : Bool) :
    writeCarry vector dst carry = some ⟨.u32 dst, some (masked vector carry)⟩ := by
  cases vector <;> rfl

theorem exists_conditionBit (bit : Bool) :
    ∃ word, conditionBit bit = some word ∧ word.toNat = bit.toNat ∧ bit.toNat ≤ 1 := by
  cases bit <;> exact ⟨_, rfl, rfl, by decide⟩

section

variable (vector : Option Bool) (lhs rhs : Word)

include vector lhs rhs

theorem lowerAddCarry_eq (carry : Bool) : lowerAddCarry vector lhs rhs carry =
      some (sum32 vector (lhs.toNat + rhs.toNat + carry.toNat)) := by
  obtain ⟨carry_in, hin, hbit, hle⟩ := exists_conditionBit carry
  have hsum : lhs + rhs + carry_in = .ofNat 32 (lhs.toNat + rhs.toNat + carry.toNat) := by
    apply eq_of_toNat_eq
    simp [toNat_add, hbit]
  have hcarry : decide ((if lhs.toNat + rhs.toNat < 2 ^ 32 then (0 : Word) else 1) |||
      (if (lhs + rhs).toNat + carry_in.toNat < 2 ^ 32 then 0 else 1) ≠ 0) =
        decide (2 ^ 32 ≤ lhs.toNat + rhs.toNat + carry.toNat) := by
    rw [toNat_add, hbit, decide_eq_decide]
    split_ifs <;> simp <;> omega
  unfold lowerAddCarry
  rw [hin]
  refine (writeCarry_eq vector _ _).trans ?_
  unfold sum32 word
  rw [← hsum, ← hcarry]

theorem lowerSubBorrow_eq :
    lowerSubBorrow vector lhs rhs = some (difference32 vector (lhs.toNat - rhs.toNat)) := by
  have hdst : lhs - rhs = .ofInt 32 (lhs.toNat - rhs.toNat) := by
    apply eq_of_toNat_eq
    rw [toNat_ofInt, toNat_sub]
    omega
  have hborrow : decide (lhs.toNat < rhs.toNat) = decide ((lhs.toNat : ℤ) - rhs.toNat < 0) := by
    rw [decide_eq_decide]
    omega
  refine (writeCarry_eq vector (lhs - rhs) (decide (lhs.toNat < rhs.toNat))).trans ?_
  rw [hdst, hborrow]
  rfl

theorem lowerSubBorrowCarry_eq (borrow : Bool) : lowerSubBorrowCarry vector lhs rhs borrow =
      some (difference32 vector (lhs.toNat - rhs.toNat - borrow.toNat)) := by
  obtain ⟨borrow_in, hin, hbit, hle⟩ := exists_conditionBit borrow
  have hdst : lhs - rhs - borrow_in = .ofInt 32 (lhs.toNat - rhs.toNat - borrow.toNat) := by
    apply eq_of_toNat_eq
    rw [toNat_ofInt, toNat_sub, toNat_sub, hbit]
    omega
  have hborrow : (decide (lhs.toNat < rhs.toNat) ||
      decide ((lhs - rhs).toNat < borrow_in.toNat)) =
        decide ((lhs.toNat : ℤ) - rhs.toNat - borrow.toNat < 0) := by
    rw [← decide_or, decide_eq_decide, toNat_sub, hbit]
    omega
  unfold lowerSubBorrowCarry
  rw [hin]
  refine (writeCarry_eq vector (lhs - rhs - borrow_in) (decide (lhs.toNat < rhs.toNat) ||
    decide ((lhs - rhs).toNat < borrow_in.toNat))).trans ?_
  rw [hdst, hborrow]
  rfl

end

theorem toNat_pair (low high : Word) :
    (high ++ low : BitVec 64).toNat = high.toNat * 2 ^ 32 + low.toNat := by
  rw [toNat_append, Nat.shiftLeft_eq, Nat.mul_comm,
    ← Nat.two_pow_add_eq_or_of_lt low.isLt, Nat.mul_comm]

theorem lowerMad_eq (src0 src1 : Word) (src2 : BitVec 64) :
    lowerMad src0 src1 src2 = some (vMadU64U32 src0 src1 src2).result := by
  have hproduct : src0.toNat * src1.toNat < 2 ^ 32 * 2 ^ 32 :=
    Nat.mul_lt_mul'' src0.isLt src1.isLt
  let low := src0 * src1 + src2.extractLsb' 0 32
  let high0 := .ofNat 32 (src0.toNat * src1.toNat / 2 ^ 32) + src2.extractLsb' 32 32
  obtain ⟨bit, hselect, hbit, -⟩ := exists_conditionBit (decide (low.toNat < (src0 * src1).toNat))
  let high := high0 + bit
  -- the words of the sum, each modulo 2 ^ 32
  have hlow : low.toNat = (src0.toNat * src1.toNat + src2.toNat) % 2 ^ 32 := by
    simp only [low, toNat_add, toNat_mul, extractLsb'_toNat]
    omega
  have hcarry : bit.toNat = if src0.toNat * src1.toNat % 2 ^ 32 + src2.toNat % 2 ^ 32 < 2 ^ 32
      then 0 else 1 := by
    rw [hbit, hlow, toNat_mul]
    split <;> simp <;> omega
  have hhigh0 : high0.toNat =
      (src0.toNat * src1.toNat / 2 ^ 32 + src2.toNat / 2 ^ 32) % 2 ^ 32 := by
    simp only [high0, toNat_add, toNat_ofNat, extractLsb'_toNat, Nat.shiftRight_eq_div_pow]
    omega
  have hhigh : high.toNat = (high0.toNat + bit.toNat) % 2 ^ 32 := toNat_add _ _
  have hdst : (high ++ low : BitVec 64) = .ofNat 64 (src0.toNat * src1.toNat + src2.toNat) := by
    apply eq_of_toNat_eq
    rw [toNat_pair, toNat_ofNat, hhigh, hhigh0, hlow, hcarry]
    split <;> omega
  -- at most one of the two sums of the high word wraps
  have hbit64 : (decide (high0.toNat < src0.toNat * src1.toNat / 2 ^ 32 % 2 ^ 32) ||
      decide (high.toNat < high0.toNat)) =
        decide (2 ^ 64 ≤ src0.toNat * src1.toNat + src2.toNat) := by
    rw [← decide_or, decide_eq_decide, hhigh, hhigh0, hcarry]
    split <;> omega
  have hlower : lowerMad src0 src1 src2 =
      (conditionBit (decide (low.toNat < (src0 * src1).toNat))).bind fun bit =>
        some ⟨.u64 (high0 + bit ++ low),
          some (decide (high0.toNat < src0.toNat * src1.toNat / 2 ^ 32 % 2 ^ 32) ||
            decide ((high0 + bit).toNat < high0.toNat))⟩ := rfl
  rw [hlower, hselect, bind_some, hdst, hbit64]
  rfl

/-! ## Masks -/

theorem exists_mask_31 (value : Word) :
    ∃ word, mask value 31 = some word ∧ word.toNat = value.toNat % 32 :=
  ⟨_, rfl, mask_31 value⟩

theorem exists_mask_63 (value : Word) :
    ∃ word, mask value 63 = some word ∧ word.toNat = value.toNat % 64 :=
  ⟨_, rfl, mask_63 value⟩

theorem testBit_ones (count offset k : ℕ) :
    ((2 ^ count - 1) * 2 ^ offset).testBit k = decide (offset ≤ k ∧ k < offset + count) := by
  rw [Nat.testBit_mul_two_pow, Nat.testBit_two_pow_sub_one, ← decide_and, decide_eq_decide]
  omega

theorem eval_insert (base insert offset count : Word) :
    eval .bitFieldInsert [.u32 base, .u32 insert, .u32 offset, .u32 count] =
      if offset.toNat + count.toNat ≤ 32 then
        some (.u32 (ofBits fun k => if offset.toNat ≤ k ∧ k < offset.toNat + count.toNat then
          insert.getLsbD (k - offset.toNat) else base.getLsbD k))
      else none := rfl

theorem insert_ones {offset count : Word} (h : offset.toNat + count.toNat ≤ 32) :
    emitU32 .bitFieldInsert [.u32 0, .u32 0xffffffff, .u32 offset, .u32 count] =
      some (.ofNat 32 ((2 ^ count.toNat - 1) * 2 ^ offset.toNat)) := by
  unfold emitU32
  rw [eval_insert, if_pos h]
  apply congrArg some
  apply eq_of_getLsbD_eq
  intro k hk
  have hones : (0xffffffff : Word).getLsbD (k - offset.toNat) = true := by
    have hword : (0xffffffff : Word) = .allOnes 32 := rfl
    rw [hword, getLsbD_allOnes, decide_eq_true_eq]
    omega
  rw [getLsbD_ofBits _ hk, getLsbD_ofNat, testBit_ones, hones]
  by_cases hin : offset.toNat ≤ k ∧ k < offset.toNat + count.toNat
  · simp [hin, hk]
  · simp [hin]

theorem insert_ones_eq_none {offset count : Word} (h : ¬ offset.toNat + count.toNat ≤ 32) :
    emitU32 .bitFieldInsert [.u32 0, .u32 0xffffffff, .u32 offset, .u32 count] = none := by
  unfold emitU32
  rw [eval_insert, if_neg h]

theorem rightMask32_eq {count : Word} (h : count.toNat ≤ 32) :
    rightMask32 count = some (.ofNat 32 (2 ^ count.toNat - 1)) := by
  have hones : rightMask32 count = _ := insert_ones ((Nat.zero_add _).trans_le h)
  rw [hones]
  exact congrArg (fun n => some (BitVec.ofNat 32 n)) (Nat.mul_one _)

theorem select_eq (condition : Bool) (a b : Word) :
    select condition a b = some (if condition then a else b) := by
  cases condition <;> rfl

theorem rightMask64_eq {count : Word} (h : count.toNat ≤ 64) :
    rightMask64 count = some (.ofNat 64 (2 ^ count.toNat - 1)) := by
  let low : Word := if decide (count.toNat < 32) then count else 32
  let high : Word := if decide (32 < count.toNat) then count - 32 else 0
  have hlow : low.toNat = min count.toNat 32 := by
    by_cases hlt : count.toNat < 32 <;> simp [low, hlt] <;> omega
  have hhigh : high.toNat = count.toNat - 32 := by
    by_cases hlt : 32 < count.toNat <;> simp [high, hlt, toNat_sub] <;> omega
  have hparts : rightMask64 count =
      (select (decide (count.toNat < 32)) count 32).bind fun low =>
        (select (decide (32 < count.toNat)) (count - 32) 0).bind fun high =>
          (rightMask32 low).bind fun l => (rightMask32 high).bind fun h => packUint2x32 l h := rfl
  rw [hparts, select_eq, bind_some, select_eq, bind_some,
    rightMask32_eq (show low.toNat ≤ 32 by omega), rightMask32_eq (show high.toNat ≤ 32 by omega),
    hlow, hhigh]
  apply congrArg some
  apply eq_of_toNat_eq
  rw [toNat_pair, toNat_ofNat, toNat_ofNat, toNat_ofNat]
  have hpow (n m : ℕ) (hle : n ≤ m) : (2 ^ n - 1) % 2 ^ m = 2 ^ n - 1 := by
    have h1 : 2 ^ n ≤ 2 ^ m := Nat.pow_le_pow_right (by decide) hle
    have h0 : 0 < 2 ^ n := Nat.two_pow_pos n
    exact Nat.mod_eq_of_lt (by omega)
  rw [hpow _ 32 (by omega), hpow _ 32 (by omega), hpow _ 64 h]
  -- up to 32 bits the high word is empty, beyond that the low word is full
  by_cases hle : count.toNat ≤ 32
  · rw [Nat.sub_eq_zero_of_le hle, Nat.min_eq_left hle]
    simp
  · have hsplit : 2 ^ count.toNat = 2 ^ (count.toNat - 32) * 2 ^ 32 := by
      rw [← Nat.pow_add]
      congr 1
      omega
    have h0 : 0 < 2 ^ (count.toNat - 32) := Nat.two_pow_pos _
    rw [Nat.min_eq_right (by omega), hsplit]
    omega

/-! ## Fields -/

theorem eval_extract (value offset width : Word) :
    eval .bitFieldUExtract [.u32 value, .u32 offset, .u32 width] =
      if offset.toNat + width.toNat ≤ 32 then
        some (.u32 ((value.extractLsb' offset.toNat width.toNat).setWidth 32)) else none := rfl

theorem exists_extract (value offset width : Word)
    (h : offset.toNat + width.toNat ≤ 32) : ∃ word, extract value offset width = some word ∧
      word.toNat = field value.toNat offset.toNat width.toNat := by
  refine ⟨(value.extractLsb' offset.toNat width.toNat).setWidth 32, ?_, ?_⟩
  · unfold extract emitU32
    rw [eval_extract, if_pos h]
  · have hle : 2 ^ width.toNat ≤ 2 ^ 32 := Nat.pow_le_pow_right (by decide) (by omega)
    rw [toNat_setWidth, extractLsb'_toNat, Nat.shiftRight_eq_div_pow]
    exact Nat.mod_eq_of_lt (by omega)

theorem field_min {n offset bits : ℕ} (width : ℕ) (hn : n < 2 ^ bits) (hoffset : offset ≤ bits) :
    n / 2 ^ offset % 2 ^ min width (bits - offset) = field n offset width := by
  unfold field
  by_cases hle : width ≤ bits - offset
  · rw [Nat.min_eq_left hle]
  · have hlt : n / 2 ^ offset < 2 ^ (bits - offset) := by
      rw [Nat.div_lt_iff_lt_mul (Nat.two_pow_pos _), ← Nat.pow_add, Nat.sub_add_cancel hoffset]
      exact hn
    have hle' : 2 ^ (bits - offset) ≤ 2 ^ width := Nat.pow_le_pow_right (by decide) (by omega)
    rw [Nat.min_eq_right (by omega), Nat.mod_eq_of_lt hlt, Nat.mod_eq_of_lt (by omega)]

variable {offset count : ℕ}

section

variable (src : Word) (width : ℕ) (hoffset : offset < 32) (hcount : count = min width (32 - offset))

include src width hoffset hcount

theorem extract_eq :
    (src.extractLsb' offset count).setWidth 32 = field32 false src offset width := by
  apply eq_of_toNat_eq
  have hfield := field_min width src.isLt hoffset.le
  rw [toNat_setWidth, extractLsb'_toNat, Nat.shiftRight_eq_div_pow, hcount, hfield]
  exact (toNat_ofNat _ _).symm

theorem signedExtract_eq :
    (src.extractLsb' offset count).signExtend 32 = field32 true src offset width := by
  have hsame : (src.extractLsb' offset count).toInt =
      Int.bmod (src.toInt / 2 ^ offset) (2 ^ count) := by
    rw [toInt_eq_toNat_bmod, extractLsb'_toNat, Nat.shiftRight_eq_div_pow,
      Int.natCast_emod, Int.emod_bmod, toInt_eq_toNat_cond]
    by_cases hsign : 2 * src.toNat < 2 ^ 32
    · rw [if_pos hsign]
      rfl
    · -- the sign is a multiple of the range of the field
      have hpow : 2 ^ 32 = 2 ^ count * 2 ^ (32 - offset - count) * 2 ^ offset := by
        rw [← pow_add, ← pow_add]
        congr 1
        omega
      rw [if_neg hsign, hpow, Nat.cast_mul _ (2 ^ offset), Nat.cast_pow 2 offset, Nat.cast_ofNat,
        Int.sub_mul_ediv_right _ _ (by positivity), Nat.cast_mul, Int.sub_mul_bmod_self_left]
      rfl
  have hcut : Int.bmod (src.toInt / 2 ^ offset) (2 ^ count) =
      Int.bmod (src.toInt / 2 ^ offset) (2 ^ width) := by
    -- a field that is cut ends with the sign, and has the value of the whole shifted word
    by_cases hle : width ≤ 32 - offset
    · rw [hcount, Nat.min_eq_left hle]
    · have hlow : -2 ^ 31 ≤ src.toInt := le_toInt src
      have hhigh : src.toInt < 2 ^ 31 := toInt_lt
      have hhalf : (2 : ℤ) ^ 31 = 2 ^ (31 - offset) * 2 ^ offset := by
        rw [← pow_add]
        congr 1
        omega
      have hrange : (2 : ℤ) ^ count = 2 * 2 ^ (31 - offset) := by
        rw [hcount, Nat.min_eq_right (by omega), ← pow_succ']
        congr 1
        omega
      have hwidth : (2 : ℤ) ^ count ≤ 2 ^ width := pow_le_pow_right₀ (by decide) (by omega)
      have hbelow : -2 ^ (31 - offset) ≤ src.toInt / 2 ^ offset := by
        rw [Int.le_ediv_iff_mul_le (by positivity)]
        linarith
      have habove : src.toInt / 2 ^ offset < 2 ^ (31 - offset) := by
        rw [Int.ediv_lt_iff_lt_mul (by positivity)]
        linarith
      rw [Int.bmod_eq_of_le_mul_two, Int.bmod_eq_of_le_mul_two] <;> push_cast <;> linarith
  unfold field32 BitVec.signExtend
  rw [hsame, hcut]
  rfl

end

/-- The width that is left behind an offset. -/
def cutWidth (bits width offset : Word) : Word :=
  if width.toNat ≤ (bits - offset).toNat then width else bits - offset

theorem toNat_cutWidth {bits width offset : Word} (h : offset.toNat ≤ bits.toNat) :
    (cutWidth bits width offset).toNat = min width.toNat (bits.toNat - offset.toNat) := by
  have hsub : (bits - offset).toNat = bits.toNat - offset.toNat := toNat_sub_of_le h
  unfold cutWidth
  rw [hsub]
  split
  · exact (Nat.min_eq_left ‹_›).symm
  · rw [hsub]
    exact (Nat.min_eq_right (by omega)).symm

theorem lowerExtract_eq (signed : Bool) (src offset width : Word) (hoffset : offset.toNat < 32) :
    lowerExtract signed src offset width =
      some (field32 signed src offset.toNat width.toNat) := by
  have hcount : (cutWidth 32 width offset).toNat = min width.toNat (32 - offset.toNat) :=
    toNat_cutWidth hoffset.le
  have hfits : offset.toNat + (cutWidth 32 width offset).toNat ≤ 32 := by omega
  cases signed with
  | false =>
    have heval : lowerExtract false src offset width =
      extract src offset (cutWidth 32 width offset) := rfl
    have hextract : extract src offset (cutWidth 32 width offset) =
      some ((src.extractLsb' offset.toNat (cutWidth 32 width offset).toNat).setWidth 32) := by
      unfold extract emitU32
      rw [eval_extract, if_pos hfits]
    rw [heval, hextract, extract_eq src width.toNat hoffset hcount]
  | true =>
    have heval : lowerExtract true src offset width =
      emitU32 .bitFieldSExtract [.u32 src, .u32 offset, .u32 (cutWidth 32 width offset)] := rfl
    have hextract :
        eval .bitFieldSExtract [.u32 src, .u32 offset, .u32 (cutWidth 32 width offset)] =
        if offset.toNat + (cutWidth 32 width offset).toNat ≤ 32 then some (.u32
          ((src.extractLsb' offset.toNat (cutWidth 32 width offset).toNat).signExtend 32))
        else none := rfl
    rw [heval, emitU32, hextract, if_pos hfits]
    exact congrArg some (signedExtract_eq src width.toNat hoffset hcount)

theorem field_lt (n offset width : ℕ) : field n offset width < 2 ^ width :=
  Nat.mod_lt _ (Nat.two_pow_pos _)

section

variable (src : BitVec 64)

include src

theorem and_mask (width : ℕ) (hoffset : offset ≤ 64) (hcount : count = min width (64 - offset)) :
    src >>> offset &&& .ofNat 64 (2 ^ count - 1) =
      .ofNat 64 (field src.toNat offset width) := by
  apply eq_of_toNat_eq
  have hle : 2 ^ count ≤ 2 ^ 64 := Nat.pow_le_pow_right (by decide) (by omega)
  have hfield : src.toNat / 2 ^ offset % 2 ^ count = field src.toNat offset width := by
    rw [hcount]
    exact field_min width src.isLt hoffset
  rw [toNat_and, toNat_ushiftRight, toNat_ofNat, toNat_ofNat,
    Nat.mod_eq_of_lt (by omega), Nat.and_two_pow_sub_one_eq_mod, Nat.shiftRight_eq_div_pow, hfield,
    Nat.mod_eq_of_lt (by omega)]

/-! ## Shifts -/

theorem shiftLeft_eq (n : ℕ) : src <<< n = .ofNat 64 (src.toNat * 2 ^ n) := by
  apply eq_of_toNat_eq
  rw [toNat_shiftLeft, toNat_ofNat, Nat.shiftLeft_eq]

theorem shiftRight_eq (n : ℕ) : src >>> n = .ofNat 64 (src.toNat / 2 ^ n) := by
  apply eq_of_toNat_eq
  have hle : src.toNat / 2 ^ n ≤ src.toNat := Nat.div_le_self _ _
  rw [toNat_ushiftRight, toNat_ofNat, Nat.shiftRight_eq_div_pow, Nat.mod_eq_of_lt (by omega)]

theorem emit_shiftLeft (shift : Word) : emitU64 .shiftLeftLogical64 [.u64 src, .u32 shift] =
      some (.ofNat 64 (src.toNat * 2 ^ (shift.toNat % 64))) :=
  congrArg some (shiftLeft_eq src _)

theorem emit_shiftRight (shift : Word) :
    emitU64 .shiftRightLogical64 [.u64 src, .u32 shift] = some (src >>> (shift.toNat % 64)) := rfl

end

theorem low_shiftRight (hi lo : Word) (n : ℕ) :
    ((hi ++ lo : BitVec 64) >>> n).extractLsb' 0 32 =
      .ofNat 32 ((hi.toNat * 2 ^ 32 + lo.toNat) / 2 ^ n) := by
  apply eq_of_toNat_eq
  rw [extractLsb'_toNat, toNat_ushiftRight, toNat_pair, toNat_ofNat,
    Nat.shiftRight_zero, Nat.shiftRight_eq_div_pow]

theorem align_parts (hi lo : Word) {n : ℕ} (hn : n < 32) :
    lo >>> n ||| (if n ≠ 0 then hi <<< ((32 - n) % 32) else 0) =
      ((hi ++ lo : BitVec 64) >>> n).extractLsb' 0 32 := by
  apply eq_of_getLsbD_eq
  intro k hk
  rw [getLsbD_or, getLsbD_extractLsb', getLsbD_ushiftRight, getLsbD_ushiftRight, getLsbD_append]
  by_cases h0 : n = 0
  · simp [h0, hk]
  · have hmod : (32 - n) % 32 = 32 - n := Nat.mod_eq_of_lt (by omega)
    have hindex : n + k - 32 = k - (32 - n) := by omega
    rw [if_pos h0, hmod, getLsbD_shiftLeft, Nat.zero_add]
    by_cases hlow : n + k < 32
    · have hshort : k < 32 - n := by omega
      simp [hlow, hk, hshort]
    · have hlong : ¬ k < 32 - n := by omega
      have hnone : lo.getLsbD (n + k) = false := getLsbD_of_ge _ _ (by omega)
      simp [hlow, hk, hlong, hnone, hindex]

/-! ## All instructions -/

theorem writeScc_u32 (value : Word) :
    writeScc .iNotEqual32 (.u32 value) (.u32 0) = some ⟨.u32 value, some (decide (value ≠ 0))⟩ :=
  rfl

theorem writeScc_u64 (value : BitVec 64) :
    writeScc .iNotEqual64 (.u64 value) (.u64 0) = some ⟨.u64 value, some (decide (value ≠ 0))⟩ :=
  rfl

/-- **The lowering is exact** for all operands, but for the 32-bit mask, which is exact if and
only if it fits into the word. -/
theorem lowering_exact_iff (i : Instruction) : i.lower = some i.result ↔ i.MaskFits := by
  cases i with
  | vMadU64U32 src0 src1 src2 => exact iff_of_true (lowerMad_eq src0 src1 src2) trivial
  | add vector src0 src1 carry_in =>
    exact iff_of_true (lowerAddCarry_eq vector src0 src1 carry_in) trivial
  | sub vector src0 src1 => exact iff_of_true (lowerSubBorrow_eq vector src0 src1) trivial
  | subRev vector src0 src1 => exact iff_of_true (lowerSubBorrow_eq vector src1 src0) trivial
  | subBorrow vector src0 src1 borrow_in =>
    exact iff_of_true (lowerSubBorrowCarry_eq vector src0 src1 borrow_in) trivial
  | subRevBorrow vector src0 src1 borrow_in =>
    exact iff_of_true (lowerSubBorrowCarry_eq vector src1 src0 borrow_in) trivial
  | bfmB32 src0 src1 =>
    obtain ⟨count, hcount, hcount_eq⟩ := exists_mask_31 src0
    obtain ⟨offset, hoffset, hoffset_eq⟩ := exists_mask_31 src1
    simp only [lower, hcount, hoffset, bind_eq_bind, bind_some]
    by_cases hfits : offset.toNat + count.toNat ≤ 32
    · rw [insert_ones hfits, hcount_eq, hoffset_eq]
      exact iff_of_true rfl (by unfold MaskFits; omega)
    · rw [insert_ones_eq_none hfits]
      refine iff_of_false (fun h => by cases h) fun h => ?_
      unfold MaskFits at h
      omega
  | sBfmB64 src0 src1 =>
    refine iff_of_true ?_ trivial
    obtain ⟨count, hcount, hcount_eq⟩ := exists_mask_63 src0
    obtain ⟨offset, hoffset, hoffset_eq⟩ := exists_mask_63 src1
    have hmask := rightMask64_eq (show count.toNat ≤ 64 by omega)
    simp only [lower, hcount, hoffset, hmask, emit_shiftLeft, bind_eq_bind, bind_some]
    have hle : 2 ^ count.toNat ≤ 2 ^ 64 := Nat.pow_le_pow_right (by decide) (by omega)
    rw [toNat_ofNat, Nat.mod_eq_of_lt (by omega), hoffset_eq, Nat.mod_mod, hcount_eq]
    rfl
  | sBfe32 signed src0 src1 =>
    refine iff_of_true ?_ trivial
    obtain ⟨offset, hoffset, hoffset_eq⟩ := exists_extract src1 0 5 (by decide)
    obtain ⟨width, hwidth, hwidth_eq⟩ := exists_extract src1 16 7 (by decide)
    have hlt := field_lt src1.toNat 0 5
    have hextract := lowerExtract_eq signed src0 offset width (hoffset_eq.trans_lt hlt)
    simp only [lower, hoffset, hwidth, hextract, bind_eq_bind, bind_some]
    rw [writeScc_u32, hoffset_eq, hwidth_eq]
    rfl
  | sBfeU64 src0 src1 =>
    refine iff_of_true ?_ trivial
    obtain ⟨offset, hoffset, hoffset_eq⟩ := exists_extract src1 0 6 (by decide)
    obtain ⟨width, hwidth, hwidth_eq⟩ := exists_extract src1 16 7 (by decide)
    -- the width is cut at the end of the register, so that the mask has 64 bits at most
    have hlt : offset.toNat < 64 := hoffset_eq.trans_lt (field_lt src1.toNat 0 6)
    have hcount : (cutWidth 64 width offset).toNat = min width.toNat (64 - offset.toNat) :=
      toNat_cutWidth hlt.le
    have hmask := rightMask64_eq (show (cutWidth 64 width offset).toNat ≤ 64 by omega)
    have hlower : (sBfeU64 src0 src1).lower =
        (extract src1 0 6).bind fun offset => (extract src1 16 7).bind fun width =>
          (rightMask64 (cutWidth 64 width offset)).bind fun bits =>
            writeScc .iNotEqual64 (.u64 (src0 >>> (offset.toNat % 64) &&& bits)) (.u64 0) := rfl
    rw [hlower, hoffset, hwidth, bind_some, bind_some, hmask, bind_some,
      Nat.mod_eq_of_lt hlt, and_mask src0 width.toNat hlt.le hcount, writeScc_u64,
      hoffset_eq, hwidth_eq]
    rfl
  | vBfe signed src0 src1 src2 =>
    refine iff_of_true ?_ trivial
    obtain ⟨offset, hoffset, hoffset_eq⟩ := exists_mask_31 src1
    obtain ⟨width, hwidth, hwidth_eq⟩ := exists_mask_31 src2
    have hextract := lowerExtract_eq signed src0 offset width (by omega)
    simp only [lower, hoffset, hwidth, hextract, bind_eq_bind, bind_some]
    rw [hoffset_eq, hwidth_eq]
    rfl
  | vAlignbitB32 hi lo src2 =>
    refine iff_of_true ?_ trivial
    obtain ⟨shift, hshift, hshift_eq⟩ := exists_mask_31 src2
    have hlt : shift.toNat < 32 := by omega
    obtain ⟨hi_shift, hhi, hhi_eq⟩ := exists_mask_31 (32 - shift)
    have hlower : (vAlignbitB32 hi lo src2).lower =
        (mask src2 31).bind fun shift => (mask (32 - shift) 31).bind fun hi_shift =>
          (select (decide (shift ≠ 0)) (hi <<< (hi_shift.toNat % 32)) 0).bind fun hi_part =>
            some ⟨.u32 (lo >>> (shift.toNat % 32) ||| hi_part), none⟩ := rfl
    have hsub : (32 - shift).toNat = 32 - shift.toNat := toNat_sub_of_le hlt.le
    have hzero : shift ≠ 0 ↔ shift.toNat ≠ 0 := not_congr (toNat_inj (y := 0)).symm
    have hparts := align_parts hi lo hlt
    rw [hlower, hshift, bind_some, hhi, bind_some, select_eq, bind_some,
      hhi_eq, hsub, Nat.mod_mod, Nat.mod_eq_of_lt hlt]
    simp only [decide_eq_true_eq, hzero]
    rw [hparts, low_shiftRight, hshift_eq]
    rfl
  | vAlignbyteB32 hi lo src2 =>
    refine iff_of_true ?_ trivial
    obtain ⟨byte_offset, hbyte, hbyte_eq⟩ := exists_mask_31 src2
    obtain ⟨shift, hshift, hshift_eq⟩ := exists_mask_63 (byte_offset <<< 3)
    have hlower : (vAlignbyteB32 hi lo src2).lower =
        (mask src2 31).bind fun byte_offset => (mask (byte_offset <<< 3) 63).bind fun shift =>
          (select (decide (byte_offset.toNat < 8))
            (((hi ++ lo : BitVec 64) >>> (shift.toNat % 64)).extractLsb' 0 32) 0).bind fun dst =>
              some ⟨.u32 dst, none⟩ := rfl
    have hbits : (byte_offset <<< 3).toNat = 8 * byte_offset.toNat := by
      rw [toNat_shiftLeft, Nat.shiftLeft_eq]
      omega
    rw [hlower, hbyte, bind_some, hshift, bind_some, select_eq, bind_some,
      low_shiftRight, hshift_eq, hbits, Nat.mod_mod]
    have hresult : (vAlignbyteB32 hi lo src2).result = ⟨word
        ((hi.toNat * 2 ^ 32 + lo.toNat) / 2 ^ (8 * byte_offset.toNat)), none⟩ := by
      rw [hbyte_eq]
      rfl
    rw [hresult]
    unfold word
    by_cases hin : byte_offset.toNat < 8
    · rw [decide_eq_true hin, if_pos rfl, Nat.mod_eq_of_lt (by omega)]
    · -- nothing is left of the pair
      have hle : 2 ^ 64 ≤ 2 ^ (8 * byte_offset.toNat) :=
        Nat.pow_le_pow_right (by decide) (by omega)
      have hnone : (hi.toNat * 2 ^ 32 + lo.toNat) / 2 ^ (8 * byte_offset.toNat) = 0 :=
        Nat.div_eq_of_lt (by omega)
      rw [decide_eq_false hin, if_neg Bool.false_ne_true, hnone]
      rfl
  | sLshlB64 src0 src1 =>
    refine iff_of_true ?_ trivial
    obtain ⟨shift, hshift, hshift_eq⟩ := exists_mask_63 src1
    simp only [lower, hshift, emit_shiftLeft, bind_eq_bind, bind_some]
    rw [writeScc_u64, hshift_eq, Nat.mod_mod]
    rfl
  | sLshrB64 src0 src1 =>
    refine iff_of_true ?_ trivial
    obtain ⟨shift, hshift, hshift_eq⟩ := exists_mask_63 src1
    simp only [lower, hshift, emit_shiftRight, bind_eq_bind, bind_some]
    rw [writeScc_u64, hshift_eq, Nat.mod_mod, shiftRight_eq]
    rfl

/-- `S_BFM_B32` with eight bits at offset 28: the upper four are asked for, and undefined. -/
theorem bfm_not_exact : (bfmB32 8 28).lower ≠ some (bfmB32 8 28).result := by
  have hnone : (bfmB32 8 28).lower = none := by decide
  rw [hnone]
  exact fun h => by cases h

end MagnusPS5.Shader.IntegerLowering
