/-
`Common::BitArray` (`bitArray.h`): a fixed number of bits in 64-bit words.

The functions work on whole words, with masks for the first and the last word of an
interval. The second half of the file reads them bit by bit: `setRange`, `unsetRange`
and the copy of an interval change the bits of the interval and no others
(`get_setRange`, `get_unsetRange`, `get_copyRange`).
-/
import Mathlib.Data.Nat.Bitwise

namespace MagnusPS5.Common

open BitVec Nat List

/-! ## Words -/

def countrZero (word : BitVec 64) : ℕ := ((List.range 64).find? fun i => word.getLsbD i).getD 64

def countrOne (word : BitVec 64) : ℕ := countrZero (~~~word)

def countlZero (word : BitVec 64) : ℕ := ((List.range 64).find? fun i => word.getMsbD i).getD 64

def countlOne (word : BitVec 64) : ℕ := countlZero (~~~word)

/-- `~uint64_t {0}`. -/
abbrev ones : BitVec 64 := BitVec.allOnes 64

/-- The bits from `start_bit` on. -/
def maskFrom (start_bit : ℕ) : BitVec 64 := ones <<< start_bit

/-- The bits below `start_bit`. -/
def maskBelow (start_bit : ℕ) : BitVec 64 := 1#64 <<< start_bit - 1#64

/-- The bits up to `end_bit`. -/
def maskTo (end_bit : ℕ) : BitVec 64 :=
  if end_bit = 63 then ones else 1#64 <<< (end_bit + 1) - 1#64

/-- The bits after `end_bit`. -/
def maskAfter (end_bit : ℕ) : BitVec 64 :=
  if end_bit = 63 then 0#64 else ~~~(1#64 <<< (end_bit + 1) - 1#64)

/-! ## The array -/

/-- `BitArray<64 * WORD_COUNT>`. -/
structure BitArray (WORD_COUNT : ℕ) where
  m_data : List (BitVec 64)
  length_eq : m_data.length = WORD_COUNT
  deriving DecidableEq

variable {WORD_COUNT b i : ℕ}

namespace BitArray

variable (bits : BitArray WORD_COUNT)

/-- The word at an index. -/
def word (index : ℕ) : BitVec 64 := bits.m_data.getD index 0#64

/-- The array with the given words. -/
def ofWords (f : ℕ → BitVec 64) : BitArray WORD_COUNT :=
  ⟨(List.range WORD_COUNT).map f, by rw [List.length_map, List.length_range]⟩

/-- `BitArray()`, and `Clear`. -/
def clear : BitArray WORD_COUNT := ofWords fun _ => 0#64

def fill : BitArray WORD_COUNT := ofWords fun _ => ones

def get (index : ℕ) : Bool :=
  bits.word (index / 64) &&& 1#64 <<< (index % 64) != 0#64

def set (index : ℕ) : BitArray WORD_COUNT :=
  ofWords fun word =>
    if word = index / 64 then bits.word word ||| 1#64 <<< (index % 64) else bits.word word

/-- What `SetRange`, `UnsetRange` and the copy of an interval do to the words: the only word
of the interval becomes `single`, or else its first word becomes `first`, its last one
`last`, and those between become `middle`. The other words are those of `bits`. -/
def editRange (start end_ : ℕ)
    (single first middle last : BitVec 64 → BitVec 64) (source : BitArray WORD_COUNT) :
    BitArray WORD_COUNT :=
  if start ≥ end_ ∨ end_ > 64 * WORD_COUNT then bits
  else
    let first_word := start / 64
    let last_word := (end_ - 1) / 64
    ofWords fun word =>
      if first_word = last_word then
        if word = first_word then single (source.word word) else bits.word word
      else if word = first_word then first (source.word word)
      else if first_word < word ∧ word < last_word then middle (source.word word)
      else if word = last_word then last (source.word word)
      else bits.word word

def setRange (start end_ : ℕ) : BitArray WORD_COUNT :=
  let start_mask := maskFrom (start % 64)
  let end_mask := maskTo ((end_ - 1) % 64)
  bits.editRange start end_ (fun word => word ||| (start_mask &&& end_mask))
    (fun word => word ||| start_mask) (fun _ => ones) (fun word => word ||| end_mask) bits

def unsetRange (start end_ : ℕ) : BitArray WORD_COUNT :=
  let start_mask := maskBelow (start % 64)
  let end_mask := maskAfter ((end_ - 1) % 64)
  bits.editRange start end_ (fun word => word &&& (start_mask ||| end_mask))
    (fun word => word &&& start_mask) (fun _ => 0#64) (fun word => word &&& end_mask) bits

/-- `BitArray(other, start, end)`. -/
def copyRange (other : BitArray WORD_COUNT) (start end_ : ℕ) : BitArray WORD_COUNT :=
  let start_mask := maskFrom (start % 64)
  let end_mask := maskTo ((end_ - 1) % 64)
  clear.editRange start end_ (fun word => word &&& start_mask &&& end_mask)
    (fun word => word &&& start_mask) (fun word => word) (fun word => word &&& end_mask) other

def isNone : Bool :=
  (List.range WORD_COUNT).foldl (fun combined word => combined ||| bits.word word) 0#64 == 0#64

def isAny : Bool := !bits.isNone

/-- `operator^`. -/
def xor (bits other : BitArray WORD_COUNT) : BitArray WORD_COUNT :=
  ofWords fun word => bits.word word ^^^ other.word word

/-- `operator~`. -/
def not : BitArray WORD_COUNT := ofWords fun word => ~~~bits.word word

/-- The first loop of `FirstRangeFrom`: on to the first word that is not zero, of the `left`
words behind `word_index`. -/
def skipZero (bits : BitArray WORD_COUNT) : ℕ → ℕ → BitVec 64 → Option (ℕ × BitVec 64)
  | left, word_index, word =>
    if word = 0#64 then
      match left with
      | 0 => none
      | left + 1 => skipZero bits left (word_index + 1) (bits.word (word_index + 1))
    else some (word_index, word)

/-- The second loop: where the run ends that reaches the end of the word before
`word_index`. -/
def runEnd (bits : BitArray WORD_COUNT) : ℕ → ℕ → ℕ
  | 0, _ => 64 * WORD_COUNT
  | left + 1, word_index =>
    if bits.word word_index ≠ ones then word_index * 64 + countrOne (bits.word word_index)
    else runEnd bits left (word_index + 1)

def firstRangeFrom (start : ℕ) : ℕ × ℕ :=
  if start ≥ 64 * WORD_COUNT then (64 * WORD_COUNT, 64 * WORD_COUNT)
  else
    let word_index := start / 64
    match bits.skipZero (WORD_COUNT - 1 - word_index) word_index
        (bits.word word_index &&& maskFrom (start % 64)) with
    | none => (64 * WORD_COUNT, 64 * WORD_COUNT)
    | some (word_index, word) =>
      let first := word_index * 64 + countrZero word
      let first_bit := first % 64
      let first_ones := countrOne (bits.word word_index >>> first_bit)
      if first_bit + first_ones < 64 then (first, first + first_ones)
      else (first, bits.runEnd (WORD_COUNT - 1 - word_index) (word_index + 1))

def firstRange : ℕ × ℕ := bits.firstRangeFrom 0

/-- The first loop of `LastRangeFrom`, down the words. -/
def skipZeroDown (bits : BitArray WORD_COUNT) : ℕ → BitVec 64 → Option (ℕ × BitVec 64)
  | word_index, word =>
    if word = 0#64 then
      match word_index with
      | 0 => none
      | word_index + 1 => skipZeroDown bits word_index (bits.word word_index)
    else some (word_index, word)

/-- The second loop: where the run begins that reaches down to the word `word_index`. -/
def runStart (bits : BitArray WORD_COUNT) : ℕ → ℕ
  | 0 => 0
  | word_index + 1 =>
    if bits.word word_index ≠ ones then
      (word_index + 1) * 64 - countlOne (bits.word word_index)
    else runStart bits word_index

def lastRangeFrom (end_ : ℕ) : ℕ × ℕ :=
  if end_ = 0 then (0, 0)
  else
    let end_ := if end_ > 64 * WORD_COUNT then 64 * WORD_COUNT else end_
    let word_index := (end_ - 1) / 64
    match bits.skipZeroDown word_index (bits.word word_index &&& maskTo ((end_ - 1) % 64)) with
    | none => (0, 0)
    | some (word_index, word) =>
      let empty_bits := countlZero word
      let ones := countlOne (word <<< empty_bits)
      let last := (word_index + 1) * 64 - empty_bits
      if empty_bits + ones < 64 then (last - ones, last) else (bits.runStart word_index, last)

def lastRange : ℕ × ℕ := bits.lastRangeFrom (64 * WORD_COUNT)

/-- The ranges that an iteration from `begin` to `end` goes through. -/
def rangesFrom (bits : BitArray WORD_COUNT) : ℕ → ℕ → List (ℕ × ℕ)
  | 0, _ => []
  | fuel + 1, start =>
    let range := bits.firstRangeFrom start
    if range = (64 * WORD_COUNT, 64 * WORD_COUNT) then []
    else range :: rangesFrom bits fuel range.2

/-- The ranges of the array, in order. -/
def ranges : List (ℕ × ℕ) := bits.rangesFrom (64 * WORD_COUNT) 0

end BitArray

/-! ## Bits of the masks -/

theorem getLsbD_maskFrom (hi : i < 64) : (maskFrom b).getLsbD i = decide (b ≤ i) := by
  unfold maskFrom ones
  rw [getLsbD_shiftLeft, getLsbD_allOnes]
  by_cases hb : b ≤ i
  · simp [hi, hb, not_lt.mpr hb, show i - b < 64 by omega]
  · simp [hb, Nat.lt_of_not_le hb]

theorem getLsbD_lowBits {w : ℕ} (hb : b < w) : (1#w <<< b - 1#w).getLsbD i = decide (i < b) := by
  have hpow : 2 ^ b < 2 ^ w := Nat.pow_lt_pow_right (by decide) hb
  have hpos : 0 < 2 ^ b := Nat.pow_pos (by decide)
  have hunit : (1#w).toNat = 1 := by
    rw [toNat_ofNat, mod_eq_of_lt (by omega)]
  have hone : (1#w <<< b).toNat = 2 ^ b := by
    rw [BitVec.toNat_shiftLeft, hunit, Nat.shiftLeft_eq, Nat.one_mul, Nat.mod_eq_of_lt hpow]
  have hval : (1#w <<< b - 1#w).toNat = 2 ^ b - 1 := by
    rw [toNat_sub_of_le (by rw [le_def, hone, hunit]; exact hpos), hone, hunit]
  rw [← testBit_toNat, hval, testBit_two_pow_sub_one]

theorem getLsbD_maskBelow (hb : b < 64) :
    (maskBelow b).getLsbD i = decide (i < b) := getLsbD_lowBits hb

theorem getLsbD_maskTo (hb : b < 64) (hi : i < 64) : (maskTo b).getLsbD i = decide (i ≤ b) := by
  unfold maskTo
  split
  · rw [getLsbD_allOnes]
    simp only [decide_eq_decide]
    omega
  · rw [getLsbD_lowBits (by omega)]
    simp only [decide_eq_decide]
    omega

theorem getLsbD_maskAfter (hb : b < 64) (hi : i < 64) :
    (maskAfter b).getLsbD i = decide (b < i) := by
  unfold maskAfter
  split
  · rw [getLsbD_zero]
    symm
    simp only [decide_eq_false_iff_not]
    omega
  · rw [getLsbD_not, getLsbD_lowBits (by omega)]
    simp only [hi, decide_true, Bool.true_and, ← decide_not, decide_eq_decide]
    omega

/-! ## The array bit by bit -/

namespace BitArray

variable {bits other : BitArray WORD_COUNT}

@[simp] theorem word_ofWords {f : ℕ → BitVec 64} (hi : i < WORD_COUNT) :
    (ofWords f : BitArray WORD_COUNT).word i = f i := by
  unfold word ofWords
  rw [getD_eq_getElem _ _ (by rwa [length_map, length_range])]
  rw [getElem_map, getElem_range]

theorem get_eq (bits : BitArray WORD_COUNT) (i : ℕ) :
    bits.get i = (bits.word (i / 64)).getLsbD (i % 64) := by
  have hbit : i % 64 < 64 := mod_lt _ (by decide)
  unfold get
  generalize bits.word (i / 64) = w
  have hone : ∀ j, j < 64 → (1#64 <<< (i % 64)).getLsbD j = decide (j = i % 64) := by
    intro j hj
    rw [getLsbD_shiftLeft, getLsbD_one]
    by_cases hji : j = i % 64
    · simp [hji, hbit]
    · by_cases hlt : j < i % 64
      · simp [hlt, hji]
      · have hne : j - i % 64 ≠ 0 := by omega
        simp [hji, hne]
  rw [Bool.eq_iff_iff, bne_iff_ne, ne_eq]
  constructor
  · intro hne
    by_contra hfalse
    apply hne
    apply eq_of_getLsbD_eq
    intro j hj
    rw [getLsbD_and, hone j hj, getLsbD_zero]
    by_cases hji : j = i % 64
    · simpa [hji] using hfalse
    · simp [hji]
  · intro htrue hzero
    have hj := congrArg (fun v => BitVec.getLsbD v (i % 64)) hzero
    rw [getLsbD_and, hone _ hbit, htrue] at hj
    simp at hj

theorem ext_get (h : ∀ i, i < 64 * WORD_COUNT → bits.get i = other.get i) : bits = other := by
  have hword : ∀ k, k < WORD_COUNT → bits.word k = other.word k := by
    intro k hk
    apply eq_of_getLsbD_eq
    intro j hj
    have hij := h (64 * k + j) (by omega)
    rw [get_eq, get_eq, show (64 * k + j) / 64 = k by omega,
      show (64 * k + j) % 64 = j by omega] at hij
    exact hij
  obtain ⟨data, hdata⟩ := bits
  obtain ⟨data', hdata'⟩ := other
  congr 1
  refine ext_getElem (hdata.trans hdata'.symm) fun k h1 h2 => ?_
  have hk := hword k (by omega)
  unfold word at hk
  rw [getD_eq_getElem _ _ h1, getD_eq_getElem _ _ h2] at hk
  exact hk

variable {start end_ : ℕ}

theorem get_clear (i : ℕ) : (clear : BitArray WORD_COUNT).get i = false := by
  rw [get_eq]
  by_cases hi : i / 64 < WORD_COUNT
  · unfold clear
    rw [word_ofWords hi, getLsbD_zero]
  · have hword : (clear : BitArray WORD_COUNT).word (i / 64) = 0#64 := by
      unfold word
      rw [getD_eq_default _ _ (by rw [clear.length_eq]; omega)]
    rw [hword, getLsbD_zero]

section

variable (hi : i < 64 * WORD_COUNT)

include hi

theorem get_fill : (fill : BitArray WORD_COUNT).get i = true := by
  have hbit : i % 64 < 64 := mod_lt _ (by decide)
  unfold fill
  rw [get_eq, word_ofWords (by omega), getLsbD_allOnes, decide_eq_true hbit]

theorem get_xor : (bits.xor other).get i = (bits.get i ^^ other.get i) := by
  unfold xor
  rw [get_eq, get_eq, get_eq, word_ofWords (by omega), getLsbD_xor]

theorem get_not : bits.not.get i = !bits.get i := by
  have hbit : i % 64 < 64 := mod_lt _ (by decide)
  unfold not
  rw [get_eq, get_eq, word_ofWords (by omega), getLsbD_not]
  simp [hbit]

end

/-- **An edit of an interval, bit by bit**: `inside` the interval and `outside` of it, from
what the four edits of words do to single bits. -/
theorem get_editRange {single first middle last : BitVec 64 → BitVec 64}
    (inside outside : Bool → Bool) (hse : start < end_) (hend : end_ ≤ 64 * WORD_COUNT)
    (hbits : ∀ w b, (bits.word w).getLsbD b = outside ((other.word w).getLsbD b))
    (hsingle : ∀ w b, b < 64 → (single w).getLsbD b =
      if start % 64 ≤ b ∧ b ≤ (end_ - 1) % 64 then inside (w.getLsbD b)
      else outside (w.getLsbD b)) (hfirst : ∀ w b, b < 64 → (first w).getLsbD b =
      if start % 64 ≤ b then inside (w.getLsbD b) else outside (w.getLsbD b))
    (hmiddle : ∀ w b, b < 64 → (middle w).getLsbD b = inside (w.getLsbD b))
    (hlast : ∀ w b, b < 64 → (last w).getLsbD b =
      if b ≤ (end_ - 1) % 64 then inside (w.getLsbD b) else outside (w.getLsbD b))
    (hi : i < 64 * WORD_COUNT) :
    (bits.editRange start end_ single first middle last other).get i =
      if start ≤ i ∧ i < end_ then inside (other.get i) else outside (other.get i) := by
  have hbit : i % 64 < 64 := mod_lt _ (by decide)
  unfold editRange
  rw [if_neg (by omega)]
  rw [get_eq, get_eq, word_ofWords (by omega)]
  by_cases hone : start / 64 = (end_ - 1) / 64
  · rw [if_pos hone]
    by_cases hw : i / 64 = start / 64
    · rw [if_pos hw, hsingle _ _ hbit]
      exact if_congr (by omega) rfl rfl
    · rw [if_neg hw, hbits, if_neg (by omega)]
  · rw [if_neg hone]
    by_cases hw : i / 64 = start / 64
    · rw [if_pos hw, hfirst _ _ hbit]
      exact if_congr (by omega) rfl rfl
    · rw [if_neg hw]
      by_cases hmid : start / 64 < i / 64 ∧ i / 64 < (end_ - 1) / 64
      · rw [if_pos hmid, hmiddle _ _ hbit, if_pos (by omega)]
      · rw [if_neg hmid]
        by_cases hw' : i / 64 = (end_ - 1) / 64
        · rw [if_pos hw', hlast _ _ hbit]
          exact if_congr (by omega) rfl rfl
        · rw [if_neg hw', hbits, if_neg (by omega)]

section

variable (hse : start < end_) (hend : end_ ≤ 64 * WORD_COUNT) (hi : i < 64 * WORD_COUNT)

include hse hend hi

/-- **`SetRange`** sets the bits of the interval. -/
theorem get_setRange :
    (bits.setRange start end_).get i = if start ≤ i ∧ i < end_ then true else bits.get i := by
  have hmod : (end_ - 1) % 64 < 64 := mod_lt _ (by decide)
  refine get_editRange (fun _ => true) id hse hend (fun _ _ => rfl) ?_ ?_ ?_ ?_ hi
  · intro w b hb
    rw [getLsbD_or, getLsbD_and, getLsbD_maskFrom hb, getLsbD_maskTo hmod hb]
    by_cases h : start % 64 ≤ b ∧ b ≤ (end_ - 1) % 64
    · simp [h]
    · rw [if_neg h, ← Bool.decide_and, decide_eq_false h, Bool.or_false]
      rfl
  · intro w b hb
    rw [getLsbD_or, getLsbD_maskFrom hb]
    by_cases h : start % 64 ≤ b <;> simp [h]
  · intro w b hb
    rw [getLsbD_allOnes, decide_eq_true hb]
  · intro w b hb
    rw [getLsbD_or, getLsbD_maskTo hmod hb]
    by_cases h : b ≤ (end_ - 1) % 64 <;> simp [h]

/-- **`UnsetRange`** clears the bits of the interval. -/
theorem get_unsetRange : (bits.unsetRange start end_).get i =
      if start ≤ i ∧ i < end_ then false else bits.get i := by
  have hmod : (end_ - 1) % 64 < 64 := mod_lt _ (by decide)
  have hmod' : start % 64 < 64 := mod_lt _ (by decide)
  refine get_editRange (fun _ => false) id hse hend (fun _ _ => rfl) ?_ ?_ ?_ ?_ hi
  · intro w b hb
    rw [getLsbD_and, getLsbD_or, getLsbD_maskBelow hmod', getLsbD_maskAfter hmod hb]
    by_cases h : start % 64 ≤ b ∧ b ≤ (end_ - 1) % 64
    · rw [if_pos h, decide_eq_false (show ¬ b < start % 64 by omega),
        decide_eq_false (show ¬ (end_ - 1) % 64 < b by omega), Bool.or_false, Bool.and_false]
    · rw [if_neg h, ← Bool.decide_or, decide_eq_true (by omega), Bool.and_true]
      rfl
  · intro w b hb
    rw [getLsbD_and, getLsbD_maskBelow hmod']
    by_cases h : start % 64 ≤ b
    · simp [h, not_lt.mpr h]
    · simp [h, Nat.lt_of_not_le h]
  · intro w b hb
    rw [getLsbD_zero]
  · intro w b hb
    rw [getLsbD_and, getLsbD_maskAfter hmod hb]
    by_cases h : b ≤ (end_ - 1) % 64
    · simp [h, not_lt.mpr h]
    · simp [h, Nat.lt_of_not_le h]

/-- **The copy of an interval** has the bits of the interval and no others. -/
theorem get_copyRange : (other.copyRange start end_).get i =
      if start ≤ i ∧ i < end_ then other.get i else false := by
  have hmod : (end_ - 1) % 64 < 64 := mod_lt _ (by decide)
  have hclear : ∀ w b, ((clear : BitArray WORD_COUNT).word w).getLsbD b = false := by
    intro w b
    by_cases hw : w < WORD_COUNT
    · unfold clear
      rw [word_ofWords hw, getLsbD_zero]
    · unfold word
      rw [getD_eq_default _ _ (by rw [clear.length_eq]; omega), getLsbD_zero]
  refine get_editRange id (fun _ => false) hse hend hclear ?_ ?_ ?_ ?_ hi
  · intro w b hb
    rw [getLsbD_and, getLsbD_and, getLsbD_maskFrom hb, getLsbD_maskTo hmod hb]
    by_cases h : start % 64 ≤ b ∧ b ≤ (end_ - 1) % 64
    · simp [h]
    · rw [if_neg h, Bool.and_assoc, ← Bool.decide_and, decide_eq_false h, Bool.and_false]
  · intro w b hb
    rw [getLsbD_and, getLsbD_maskFrom hb]
    by_cases h : start % 64 ≤ b <;> simp [h]
  · intro w b hb
    rfl
  · intro w b hb
    rw [getLsbD_and, getLsbD_maskTo hmod hb]
    by_cases h : b ≤ (end_ - 1) % 64 <;> simp [h]

end

end BitArray

end MagnusPS5.Common
