/-
Fields of a machine word: bits of a value that are put at a place of the word, and taken from
there again.

A field is put with a mask and a shift, `(v &&& m) <<< k`, and taken with a shift and a mask,
`(x >>> j) &&& n`. Whether a field that is taken meets one that was put depends on the masks and
the shifts only, so for those of a program it is decided.
-/
import Mathlib

namespace MagnusPS5.Lib

open BitVec Nat

variable {w : ℕ}

/-! ## One field -/

theorem take_or (x y n : BitVec w) (j : ℕ) :
    ((x ||| y) >>> j) &&& n = ((x >>> j) &&& n) ||| ((y >>> j) &&& n) := by
  rw [BitVec.ushiftRight_or_distrib, BitVec.and_or_distrib_right]

theorem take_put (v m n : BitVec w) (k j : ℕ) :
    (((v &&& m) <<< k) >>> j) &&& n = ((v <<< k) >>> j) &&& (((m <<< k) >>> j) &&& n) := by
  rw [BitVec.shiftLeft_and_distrib, BitVec.ushiftRight_and_distrib, BitVec.and_assoc]

variable {m n v : BitVec w}

theorem take_apart (v : BitVec w) {k j : ℕ} (h : ((m <<< k) >>> j) &&& n = 0#w) :
    (((v &&& m) <<< k) >>> j) &&& n = 0#w := by
  rw [take_put, h, BitVec.and_zero]

theorem take_moved (v : BitVec w) {j d : ℕ} (h : ((m <<< (j + d)) >>> j) &&& n = m <<< d) :
    (((v &&& m) <<< (j + d)) >>> j) &&& n = (v &&& m) <<< d := by
  rw [take_put, h, BitVec.shiftLeft_and_distrib]
  ext i hi
  simp only [BitVec.getElem_and, getElem_ushiftRight, getLsbD_shiftLeft, getElem_shiftLeft]
  by_cases hk : j + i < w
  · by_cases hd : i < d
    · simp [hd]
    · simp [hd, hk, show ¬ j + i < j + d by omega, show j + i - (j + d) = i - d by omega,
        getLsbD_eq_getElem (show i - d < w by omega)]
  · -- a bit of the mask is not shifted out
    have hbit := congrArg (fun x : BitVec w => x[i]) h
    simp only [getElem_and, getElem_ushiftRight, getLsbD_shiftLeft, hk,
      decide_false, Bool.false_and, getElem_shiftLeft] at hbit
    rw [← hbit, Bool.and_false, Bool.and_false]

theorem take_same (v : BitVec w) {k : ℕ} (h : (m <<< k) >>> k = m) :
    (((v &&& m) <<< k) >>> k) &&& m = v &&& m := by
  have hmask : ((m <<< (k + 0)) >>> k) &&& m = m <<< 0 := by
    rw [Nat.add_zero, h, BitVec.and_self, BitVec.shiftLeft_zero]
  have hmoved := take_moved v hmask
  rwa [Nat.add_zero, BitVec.shiftLeft_zero] at hmoved

theorem put_take (v m : BitVec w) (k : ℕ) : ((v >>> k) &&& m) <<< k = v &&& (m <<< k) := by
  ext i hi
  by_cases hk : i < k
  · simp [hk]
  · simp [hk, show k + (i - k) = i by omega, getLsbD_eq_getElem hi]

/-! ### Fields at the low end -/

theorem take_apart_low (v : BitVec w) {j : ℕ} (h : (m >>> j) &&& n = 0#w) :
    ((v &&& m) >>> j) &&& n = 0#w := by
  rw [BitVec.ushiftRight_and_distrib, BitVec.and_assoc, h, BitVec.and_zero]

theorem low_apart (v : BitVec w) {k : ℕ} (h : (m <<< k) &&& n = 0#w) :
    ((v &&& m) <<< k) &&& n = 0#w := by
  rw [BitVec.shiftLeft_and_distrib, BitVec.and_assoc, h, BitVec.and_zero]

theorem low_same (v m : BitVec w) : (v &&& m) &&& m = v &&& m := by
  rw [BitVec.and_assoc, BitVec.and_self]

theorem and_low {n : ℕ} (hv : v.toNat < 2 ^ n) (hn : n ≤ w) : v &&& .ofNat w (2 ^ n - 1) = v := by
  apply eq_of_toNat_eq
  have hpow : 2 ^ n ≤ 2 ^ w := Nat.pow_le_pow_right (by omega) hn
  rw [toNat_and, toNat_ofNat, mod_eq_of_lt (by omega), and_two_pow_sub_one_eq_mod, mod_eq_of_lt hv]

theorem eq_zero_or_one (h : v.toNat < 2 ^ 1) : v = 0#w ∨ v = 1#w := by
  rcases lt_or_ge v.toNat 1 with hzero | hone
  · exact .inl (eq_of_toNat_eq (by rw [toNat_zero]; omega))
  · right
    apply eq_of_toNat_eq
    rw [toNat_ofNat, mod_eq_of_lt (by omega)]
    omega

/-! ## Multiples of a power of two -/

theorem and_not_of_and_eq_zero (h : v &&& m = 0#w) : v &&& ~~~m = v := by
  have hall : (v &&& m) ||| (v &&& ~~~m) = v := by
    rw [← BitVec.and_or_distrib_left]
    ext i hi
    simp
  rwa [h, BitVec.zero_or] at hall

theorem and_low_of_dvd {n : ℕ} (hv : v.toNat % 2 ^ n = 0) (hn : n ≤ w) :
    v &&& .ofNat w (2 ^ n - 1) = 0#w := by
  apply eq_of_toNat_eq
  have hpow : 2 ^ n ≤ 2 ^ w := Nat.pow_le_pow_right (by omega) hn
  rw [toNat_and, toNat_ofNat, mod_eq_of_lt (by omega),
    and_two_pow_sub_one_eq_mod, hv, toNat_ofNat, zero_mod]

theorem and_high {n : ℕ} (hv : v.toNat % 2 ^ n = 0) (hn : n ≤ w) :
    v &&& ~~~.ofNat w (2 ^ n - 1) = v :=
  and_not_of_and_eq_zero (and_low_of_dvd hv hn)

end MagnusPS5.Lib
