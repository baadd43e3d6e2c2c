/-
Little-endian words in a memory of bytes.

A memory is a function from addresses to bytes. Storing a word copies its bytes
over those at the address; loading it from there gives the word back, up to its
width, and a word whose bytes are left alone is unchanged.
-/
import Mathlib.Tactic.Ring
import MagnusPS5.Lib.Copies

namespace MagnusPS5.Lib

/-- The word of `size` bytes at an address. -/
def loadWord (memory : ℕ → UInt8) (address : ℕ) : ℕ → ℕ
  | 0 => 0
  | size + 1 => (memory address).toNat + 256 * loadWord memory (address + 1) size

/-- The bytes of a word. -/
def wordBytes (value : ℕ) : ℕ → UInt8 := fun i => UInt8.ofNat (value / 256 ^ i)

/-- Store the low `size` bytes of a word at an address. -/
def storeWord (address size value : ℕ) (memory : ℕ → UInt8) : ℕ → UInt8 :=
  copyBlock (wordBytes value) 0 address size memory

theorem wordBytes_succ (value i : ℕ) : wordBytes value (i + 1) = wordBytes (value / 256) i := by
  unfold wordBytes
  rw [Nat.div_div_eq_div_mul, pow_succ, Nat.mul_comm]

variable {memory : ℕ → UInt8} {address size : ℕ}

theorem loadWord_of_bytes {value : ℕ}
    (h : ∀ i, i < size → memory (address + i) = wordBytes value i) :
    loadWord memory address size = value % 256 ^ size := by
  induction size generalizing address value with
  | zero => rw [pow_zero, Nat.mod_one]; rfl
  | succ size ih =>
    have hhead : memory address = wordBytes value 0 := h 0 (by omega)
    have htail : loadWord memory (address + 1) size = value / 256 % 256 ^ size := by
      apply ih
      intro i hi
      rw [← wordBytes_succ, ← h (i + 1) (by omega)]
      congr 1
      omega
    show (memory address).toNat + 256 * loadWord memory (address + 1) size = _
    rw [htail, hhead, pow_succ, Nat.mul_comm (256 ^ size), Nat.mod_mul]
    congr 1
    unfold wordBytes
    rw [pow_zero, Nat.div_one]
    exact UInt8.toNat_ofNat'

theorem loadWord_eq_zero
    (h : ∀ i, i < size → memory (address + i) = 0) : loadWord memory address size = 0 := by
  rw [← Nat.zero_mod (256 ^ size)]
  apply loadWord_of_bytes
  intro i hi
  unfold wordBytes
  rw [Nat.zero_div]
  exact h i hi

theorem loadWord_congr {memory' : ℕ → UInt8}
    (h : ∀ i, address ≤ i → i < address + size → memory i = memory' i) :
    loadWord memory address size = loadWord memory' address size := by
  induction size generalizing address with
  | zero => rfl
  | succ size ih =>
    unfold loadWord
    rw [h address (by omega) (by omega), ih fun i h1 h2 => h i (by omega) (by omega)]

theorem loadWord_storeWord (memory : ℕ → UInt8) (address size value : ℕ) :
    loadWord (storeWord address size value memory) address size = value % 256 ^ size := by
  apply loadWord_of_bytes
  intro i hi
  unfold storeWord
  rw [copyBlock_of_mem (by omega) (by omega)]
  congr 1
  omega

theorem loadWord_copyBlock {source : ℕ → UInt8} {from_ to_ n : ℕ}
    (h : address + size ≤ to_ ∨ to_ + n ≤ address) :
    loadWord (copyBlock source from_ to_ n memory) address size = loadWord memory address size := by
  apply loadWord_congr
  intro i h1 h2
  exact copyBlock_of_not_mem (by omega)

theorem loadWord_storeWord_other {address' size' value : ℕ}
    (h : address + size ≤ address' ∨ address' + size' ≤ address) :
    loadWord (storeWord address' size' value memory) address size =
      loadWord memory address size :=
  loadWord_copyBlock h

theorem loadWord_lt (memory : ℕ → UInt8) (address size : ℕ) :
    loadWord memory address size < 256 ^ size := by
  induction size generalizing address with
  | zero => exact Nat.one_pos
  | succ size ih =>
    have hbyte : (memory address).toNat < 256 := UInt8.toNat_lt _
    have hrest := ih (address + 1)
    show (memory address).toNat + 256 * loadWord memory (address + 1) size < _
    rw [pow_succ]
    omega

end MagnusPS5.Lib
