/-
The arithmetic of folded immediates: the masks, shifts and widenings that the source
computes with give what the opcodes mean.
-/
import MagnusPS5.Common.BitArray
import MagnusPS5.Shader.ValueSemantics

namespace MagnusPS5.Shader.Program

open BitVec Nat

/-! ## Shift counts, products and quotients -/

theorem mask_31 (b : BitVec 32) : (b &&& 31).toNat = b.toNat % 32 := by
  rw [toNat_and]
  exact and_two_pow_sub_one_eq_mod b.toNat 5

theorem mask_63 (b : BitVec 32) : (b &&& 63).toNat = b.toNat % 64 := by
  rw [toNat_and]
  exact and_two_pow_sub_one_eq_mod b.toNat 6

theorem sMulHi_eq (a b : BitVec 32) : sMulHi a b = .ofInt 32 (a.toInt * b.toInt / 2 ^ 32) := by
  apply eq_of_toNat_eq
  have hproduct : a.signExtend 64 * b.signExtend 64 = .ofInt 64 (a.toInt * b.toInt) := by
    rw [ofInt_mul]
    rfl
  simp only [sMulHi, hproduct, toNat_setWidth, toNat_ushiftRight, toNat_ofInt,
    shiftRight_eq_div_pow]
  generalize a.toInt * b.toInt = n
  omega

theorem uMulHi_eq (a b : BitVec 32) : uMulHi a b = .ofNat 32 (a.toNat * b.toNat / 2 ^ 32) := by
  apply eq_of_toNat_eq
  have ha : a.toNat % 2 ^ 64 = a.toNat := by omega
  have hb : b.toNat % 2 ^ 64 = b.toNat := by omega
  simp only [uMulHi, toNat_setWidth, toNat_ushiftRight, toNat_ofNat,
    toNat_mul, shiftRight_eq_div_pow, ha, hb]
  generalize a.toNat * b.toNat = n
  omega

theorem sign_bit (a : BitVec 32) : a &&& 0x80000000 ≠ 0 ↔ a.toInt < 0 := by
  have h : (0x80000000 : BitVec 32) = .twoPow 32 31 := rfl
  rw [h, and_twoPow]
  have hmsb : a.getLsbD 31 = a.msb := rfl
  rw [hmsb, msb_eq_toInt]
  split
  next h' =>
    simpa using h'
  next h' =>
    simpa using h'

/-! ## Comparisons -/

theorem sMin_eq (a b : BitVec 32) :
    (if a.slt b then a else b) = if a.toInt ≤ b.toInt then a else b := by
  simp only [BitVec.slt, decide_eq_true_eq]
  by_cases heq : a.toInt = b.toInt
  · obtain rfl := eq_of_toInt_eq heq
    simp
  · simp only [Int.lt_iff_le_and_ne, ne_eq, heq, not_false_eq_true, and_true]

theorem sMax_eq (a b : BitVec 32) :
    (if b.slt a then a else b) = if a.toInt ≤ b.toInt then b else a := by
  simp only [BitVec.slt, decide_eq_true_eq, ← Int.not_le, ite_not]

theorem uMin_eq (a b : BitVec 32) :
    (if b.ult a then b else a) = if a.toNat ≤ b.toNat then a else b := by
  simp only [BitVec.ult, decide_eq_true_eq, ← not_le, ite_not]

theorem uMax_eq (a b : BitVec 32) :
    (if a.ult b then b else a) = if a.toNat ≤ b.toNat then b else a := by
  simp only [BitVec.ult, decide_eq_true_eq]
  by_cases heq : a.toNat = b.toNat
  · obtain rfl := eq_of_toNat_eq heq
    simp
  · simp only [lt_iff_le_and_ne, ne_eq, heq, not_false_eq_true, and_true]

theorem bne_decide {w : ℕ} (a b : BitVec w) : (a != b) = decide (a ≠ b) := by
  rw [bne, beq_eq_decide, decide_not]

/-! ## Pairs of words -/

theorem carry_eq (a b : BitVec 32) :
    (a.setWidth 64 + b.setWidth 64).setWidth 32 = a + b ∧
    ((a.setWidth 64 + b.setWidth 64) >>> 32).setWidth 32 =
      if a.toNat + b.toNat < 2 ^ 32 then 0#32 else 1#32 := by
  constructor
  · apply eq_of_toNat_eq
    simp only [toNat_setWidth, toNat_add]
    omega
  · apply eq_of_toNat_eq
    simp only [toNat_setWidth, toNat_ushiftRight, toNat_add, shiftRight_eq_div_pow]
    split
    · rw [toNat_ofNat]
      omega
    · rw [toNat_ofNat]
      omega

theorem pack_eq (low high : BitVec 32) :
    (low.setWidth 64 ||| high.setWidth 64 <<< 32 : BitVec 64) = high ++ low := by
  apply eq_of_getLsbD_eq
  intro k hk
  rw [getLsbD_append]
  by_cases h : k < 32
  · simp [h, hk]
  · simp [h, hk, getLsbD_of_ge low k (by omega)]

theorem unpack_pack (x y : BitVec 32) :
    (y ++ x : BitVec 64).extractLsb' 0 32 = x ∧ (y ++ x : BitVec 64).extractLsb' 32 32 = y := by
  constructor
  · apply eq_of_getLsbD_eq
    intro k hk
    rw [getLsbD_extractLsb', getLsbD_append]
    simp [hk]
  · apply eq_of_getLsbD_eq
    intro k hk
    rw [getLsbD_extractLsb', getLsbD_append]
    simp [hk]

/-! ## Fields -/

variable {k count offset : ℕ}

theorem getLsbD_ofBits (bit : ℕ → Bool) (hk : k < 32) : (ofBits bit).getLsbD k = bit k := by
  unfold ofBits
  rw [getLsbD_setWidth, getLsbD_ofBoolListLE]
  simp [hk]

theorem getLsbD_lowMask (hcount : count ≤ 32) :
    (if count = 32 then (0xffffffff : BitVec 32) else 1#32 <<< count - 1#32).getLsbD k =
      decide (k < count) := by
  split
  next heq =>
    have hones : (0xffffffff : BitVec 32) = .allOnes 32 := rfl
    rw [hones, getLsbD_allOnes, heq]
  · exact Common.getLsbD_lowBits (by omega)

section

variable (h : offset + count ≤ 32)

include h

theorem uExtract_eq {value : BitVec 32} : (value >>> offset) &&&
      (if count = 32 then (0xffffffff : BitVec 32) else 1#32 <<< count - 1#32) =
      (value.extractLsb' offset count).setWidth 32 := by
  apply eq_of_getLsbD_eq
  intro k hk
  rw [getLsbD_and, getLsbD_lowMask (by omega), getLsbD_ushiftRight,
    getLsbD_setWidth, getLsbD_extractLsb']
  simp [hk, Bool.and_comm]

theorem getLsbD_fieldMask (hk : k < 32) : (if count = 32 then (0xffffffff : BitVec 32)
      else (1#32 <<< count - 1#32) <<< offset).getLsbD k =
      decide (offset ≤ k ∧ k < offset + count) := by
  split
  · have hones : (0xffffffff : BitVec 32) = .allOnes 32 := rfl
    rw [hones, getLsbD_allOnes, decide_eq_decide]
    omega
  · rw [getLsbD_shiftLeft, Common.getLsbD_lowBits (by omega), ← decide_not,
      ← Bool.decide_and, ← Bool.decide_and, decide_eq_decide]
    omega

theorem insert_eq {base insert : BitVec 32} :
    let mask := if count = 32 then (0xffffffff : BitVec 32)
      else (1#32 <<< count - 1#32) <<< offset
    (base &&& ~~~mask) ||| ((insert <<< offset) &&& mask) =
      ofBits fun k =>
        if offset ≤ k ∧ k < offset + count then insert.getLsbD (k - offset)
        else base.getLsbD k := by
  apply eq_of_getLsbD_eq
  intro k hk
  simp only [getLsbD_or, getLsbD_and, getLsbD_not, getLsbD_shiftLeft,
    getLsbD_fieldMask h hk, getLsbD_ofBits _ hk]
  by_cases hin : offset ≤ k ∧ k < offset + count
  · simp [hin, hk]
  · simp [hin, hk]

end

theorem insert_empty (base insert : BitVec 32) (offset : ℕ) :
    base = ofBits fun k =>
      if offset ≤ k ∧ k < offset + 0 then insert.getLsbD (k - offset) else base.getLsbD k := by
  apply eq_of_getLsbD_eq
  intro k hk
  rw [getLsbD_ofBits _ hk, if_neg (by omega)]

theorem extract_empty (value : BitVec 32) (offset : ℕ) :
    0 = (value.extractLsb' offset 0).setWidth 32 ∧ 0 = (value.extractLsb' offset 0).signExtend 32 := by
  have hempty : value.extractLsb' offset 0 = 0#0 := of_length_zero
  rw [hempty]
  exact ⟨rfl, rfl⟩

theorem sExtract_eq {value : BitVec 32} (h : offset + count ≤ 32) (hcount : count ≠ 0) :
    (value <<< (32 - offset - count)).sshiftRight (32 - offset - count + offset) =
      (value.extractLsb' offset count).signExtend 32 := by
  apply eq_of_getLsbD_eq
  intro k hk
  have hsign : (value <<< (32 - offset - count)).msb = value.getLsbD (offset + (count - 1)) := by
    rw [msb_eq_getLsbD_last, getLsbD_shiftLeft]
    simp [show ¬ 31 < 32 - offset - count by omega,
      show 31 - (32 - offset - count) = offset + (count - 1) by omega]
  have hsign' : (value.extractLsb' offset count).msb = value.getLsbD (offset + (count - 1)) := by
    rw [msb_eq_getLsbD_last, getLsbD_extractLsb']
    simp [show count - 1 < count by omega]
  rw [getLsbD_sshiftRight, getLsbD_signExtend, hsign, hsign',
    getLsbD_shiftLeft, getLsbD_extractLsb']
  by_cases hin : k < count
  · simp [hin, hk, show 32 - offset - count + offset + k < 32 by omega,
      show 32 - offset - count + offset + k - (32 - offset - count) = offset + k by omega,
      show ¬ 32 - offset - count + offset + k < 32 - offset - count by omega]
  · simp [hin, hk, show ¬ 32 - offset - count + offset + k < 32 by omega]

end MagnusPS5.Shader.Program
