/-
The runs of set bits of a `BitArray`: what its searches find.

`FirstRangeFrom` and `LastRangeFrom` look for a word that is not zero, count the zeros at
the end of it, and then follow the run from word to word. Here both are shown to return
the first and the last maximal run (`firstRangeFrom_spec`, `lastRangeFrom_spec`), and
`None` and the bounds of the set bits follow. The iteration goes from one run to the next
(`rangesFrom_spec`).
-/
import MagnusPS5.Common.BitArray

namespace MagnusPS5.Common

open List Nat
open BitVec (eq_of_getLsbD_eq getLsbD_zero getLsbD_not getLsbD_allOnes)

/-! ## Counting bits of a word -/

theorem countrZero_spec (w : BitVec 64) :
    countrZero w ≤ 64 ∧ (∀ b, b < countrZero w → w.getLsbD b = false) ∧
      (countrZero w < 64 → w.getLsbD (countrZero w) = true) := by
  unfold countrZero
  cases hfind : (range 64).find? fun i => w.getLsbD i with
  | none =>
    refine ⟨le_refl _, fun b hb => ?_, fun h => absurd h (lt_irrefl _)⟩
    have := find?_eq_none.mp hfind b (mem_range.mpr hb)
    simpa using this
  | some k =>
    obtain ⟨hk, hmem, hbelow⟩ := find?_range_eq_some.mp hfind
    have hlt : k < 64 := mem_range.mp hmem
    exact ⟨le_of_lt hlt, fun b hb => by simpa using hbelow b hb, fun _ => hk⟩

theorem countrZero_lt {w : BitVec 64} (h : w ≠ 0#64) : countrZero w < 64 := by
  by_contra hge
  apply h
  apply eq_of_getLsbD_eq
  intro b hb
  rw [getLsbD_zero]
  exact (countrZero_spec w).2.1 b (by omega)

theorem countrOne_spec (w : BitVec 64) :
    countrOne w ≤ 64 ∧ (∀ b, b < countrOne w → w.getLsbD b = true) ∧
      (countrOne w < 64 → w.getLsbD (countrOne w) = false) := by
  obtain ⟨h1, h2, h3⟩ := countrZero_spec (~~~w)
  refine ⟨h1, fun b hb => ?_, fun hlt => ?_⟩
  · have hnot := h2 b hb
    rw [getLsbD_not] at hnot
    have hb' : b < 64 := lt_of_lt_of_le hb h1
    simpa [hb'] using hnot
  · have hnot := h3 hlt
    rw [getLsbD_not] at hnot
    have hlt' : countrZero (~~~w) < 64 := hlt
    show w.getLsbD (countrZero (~~~w)) = false
    simpa [hlt'] using hnot

theorem countlZero_spec (w : BitVec 64) :
    countlZero w ≤ 64 ∧ (∀ b, 64 - countlZero w ≤ b → b < 64 → w.getLsbD b = false) ∧
      (countlZero w < 64 → w.getLsbD (63 - countlZero w) = true) := by
  unfold countlZero
  cases hfind : (range 64).find? fun i => w.getMsbD i with
  | none =>
    refine ⟨le_refl _, fun b _ hb => ?_, fun h => absurd h (lt_irrefl _)⟩
    have := find?_eq_none.mp hfind (63 - b) (mem_range.mpr (by omega))
    rw [BitVec.getMsbD_eq_getLsbD] at this
    have hsub : 64 - 1 - (63 - b) = b := by omega
    rw [hsub] at this
    simpa [show 63 - b < 64 by omega] using this
  | some k =>
    obtain ⟨hk, hmem, habove⟩ := find?_range_eq_some.mp hfind
    have hlt : k < 64 := mem_range.mp hmem
    rw [BitVec.getMsbD_eq_getLsbD] at hk
    refine ⟨le_of_lt hlt, fun b hb1 hb2 => ?_, fun _ => by simpa [hlt] using hk⟩
    have hb1' : 64 - k ≤ b := hb1
    have := habove (63 - b) (by omega)
    rw [BitVec.getMsbD_eq_getLsbD] at this
    have hsub : 64 - 1 - (63 - b) = b := by omega
    rw [hsub] at this
    simpa [show 63 - b < 64 by omega] using this

theorem countlZero_lt {w : BitVec 64} (h : w ≠ 0#64) : countlZero w < 64 := by
  by_contra hge
  apply h
  apply eq_of_getLsbD_eq
  intro b hb
  rw [getLsbD_zero]
  exact (countlZero_spec w).2.1 b (by omega) hb

theorem countlOne_spec (w : BitVec 64) :
    countlOne w ≤ 64 ∧ (∀ b, 64 - countlOne w ≤ b → b < 64 → w.getLsbD b = true) ∧
      (countlOne w < 64 → w.getLsbD (63 - countlOne w) = false) := by
  obtain ⟨h1, h2, h3⟩ := countlZero_spec (~~~w)
  refine ⟨h1, fun b hb1 hb2 => ?_, fun hlt => ?_⟩
  · have hnot := h2 b hb1 hb2
    rw [getLsbD_not] at hnot
    simpa [hb2] using hnot
  · have hnot := h3 hlt
    rw [getLsbD_not] at hnot
    unfold countlOne
    simpa [show 63 - countlZero (~~~w) < 64 by omega] using hnot

/-! ## The searches -/

namespace BitArray

variable {WORD_COUNT : ℕ} {bits : BitArray WORD_COUNT}

theorem get_word (bits : BitArray WORD_COUNT) (k : ℕ) {b : ℕ} (hb : b < 64) :
    bits.get (k * 64 + b) = (bits.word k).getLsbD b := by
  rw [get_eq, show (k * 64 + b) / 64 = k by omega, show (k * 64 + b) % 64 = b by omega]

/-- `[first, last)` is the first run of set bits from `start` on; without one, both ends are
the size. -/
def IsFirstRange (bits : BitArray WORD_COUNT) (start first last : ℕ) : Prop :=
  (first = 64 * WORD_COUNT ∧ last = 64 * WORD_COUNT ∧
    ∀ i, start ≤ i → i < 64 * WORD_COUNT → bits.get i = false) ∨
  (start ≤ first ∧ first < last ∧ last ≤ 64 * WORD_COUNT ∧
    (∀ i, start ≤ i → i < first → bits.get i = false) ∧
    (∀ i, first ≤ i → i < last → bits.get i = true) ∧
    (last < 64 * WORD_COUNT → bits.get last = false))

/-- A word with the bits before `start` masked out. -/
def Masked (bits : BitArray WORD_COUNT) (start k : ℕ) (word : BitVec 64) : Prop :=
  ∀ b, b < 64 → word.getLsbD b = (decide (start ≤ k * 64 + b) && bits.get (k * 64 + b))

variable {start k end_ i : ℕ} {word : BitVec 64}

theorem clear_of_masked (hword : Masked bits start k 0#64)
    (hbelow : ∀ i, start ≤ i → i < k * 64 → bits.get i = false) :
    ∀ i, start ≤ i → i < (k + 1) * 64 → bits.get i = false := by
  intro i hs hi
  by_cases hlow : i < k * 64
  · exact hbelow i hs hlow
  · have hb := hword (i - k * 64) (by omega)
    rw [getLsbD_zero, Nat.add_sub_cancel' (by omega), decide_eq_true hs, Bool.true_and] at hb
    exact hb.symm

theorem skipZero_spec {left : ℕ} (hk : k + left + 1 = WORD_COUNT)
    (hstart : start < k * 64 + 64) (hword : Masked bits start k word)
    (hbelow : ∀ i, start ≤ i → i < k * 64 → bits.get i = false) :
    (bits.skipZero left k word = none ∧
      ∀ i, start ≤ i → i < 64 * WORD_COUNT → bits.get i = false) ∨
    ∃ k' word', bits.skipZero left k word = some (k', word') ∧ word' ≠ 0#64 ∧
      k' < WORD_COUNT ∧ Masked bits start k' word' ∧
      ∀ i, start ≤ i → i < k' * 64 → bits.get i = false := by
  induction left generalizing k word with
  | zero =>
    by_cases hzero : word = 0#64
    · subst hzero
      have hclear := clear_of_masked hword hbelow
      exact .inl ⟨if_pos rfl, fun i hs hi => hclear i hs (by omega)⟩
    · exact .inr ⟨k, word, if_neg hzero, hzero, by omega, hword, hbelow⟩
  | succ left ih =>
    unfold skipZero
    by_cases hzero : word = 0#64
    · subst hzero
      have hnext : Masked bits start (k + 1) (bits.word (k + 1)) := fun b hb => by
        rw [← get_word bits (k + 1) hb, decide_eq_true (by omega), Bool.true_and]
      have hclear := clear_of_masked hword hbelow
      have hk' : k + 1 + left + 1 = WORD_COUNT := by omega
      have hstart' : start < (k + 1) * 64 + 64 := by omega
      have hrest := ih hk' hstart' hnext hclear
      rw [if_pos rfl]
      exact hrest
    · rw [if_neg hzero]
      exact .inr ⟨k, word, rfl, hzero, by omega, hword, hbelow⟩

theorem runEnd_spec (bits : BitArray WORD_COUNT) (left k : ℕ) (hk : k + left = WORD_COUNT) :
    k * 64 ≤ bits.runEnd left k ∧ bits.runEnd left k ≤ 64 * WORD_COUNT ∧
      (∀ i, k * 64 ≤ i → i < bits.runEnd left k → bits.get i = true) ∧
      (bits.runEnd left k < 64 * WORD_COUNT → bits.get (bits.runEnd left k) = false) := by
  induction left generalizing k with
  | zero =>
    have hend : bits.runEnd 0 k = 64 * WORD_COUNT := rfl
    rw [hend]
    exact ⟨by omega, le_refl _, fun i h1 h2 => by omega, fun h => absurd h (lt_irrefl _)⟩
  | succ left ih =>
    unfold runEnd
    obtain ⟨h1, h2, h3⟩ := countrOne_spec (bits.word k)
    by_cases hones : bits.word k = ones
    · rw [if_neg (not_not.mpr hones)]
      obtain ⟨g1, g2, g3, g4⟩ := ih (k + 1) (by omega)
      refine ⟨by omega, g2, fun i hi1 hi2 => ?_, g4⟩
      by_cases hnext : (k + 1) * 64 ≤ i
      · exact g3 i hnext hi2
      · have hb : i - k * 64 < 64 := by omega
        rw [← Nat.add_sub_cancel' hi1, get_word bits k hb, hones, getLsbD_allOnes,
          decide_eq_true hb]
    · rw [if_pos hones]
      have hlt : countrOne (bits.word k) < 64 := by
        by_contra hge
        apply hones
        apply eq_of_getLsbD_eq
        intro b hb
        rw [getLsbD_allOnes, decide_eq_true hb]
        exact h2 b (by omega)
      refine ⟨by omega, by omega, fun i hi1 hi2 => ?_, fun _ => ?_⟩
      · rw [← Nat.add_sub_cancel' hi1, get_word bits k (by omega)]
        exact h2 _ (by omega)
      · rw [get_word bits k hlt]
        exact h3 hlt

/-- **`FirstRangeFrom`** finds the first run of set bits from a position on. -/
theorem firstRangeFrom_spec (bits : BitArray WORD_COUNT) (start : ℕ) :
    IsFirstRange bits start (bits.firstRangeFrom start).1 (bits.firstRangeFrom start).2 := by
  unfold firstRangeFrom
  by_cases hstart : start ≥ 64 * WORD_COUNT
  · rw [if_pos hstart]
    exact .inl ⟨rfl, rfl, fun i h1 h2 => by omega⟩
  · rw [if_neg hstart]
    dsimp only
    have hmasked : Masked bits start (start / 64)
        (bits.word (start / 64) &&& maskFrom (start % 64)) := by
      intro b hb
      rw [BitVec.getLsbD_and, getLsbD_maskFrom hb, get_word bits _ hb, Bool.and_comm]
      congr 1
      rw [decide_eq_decide]
      omega
    have hsum : start / 64 + (WORD_COUNT - 1 - start / 64) + 1 = WORD_COUNT := by omega
    rcases skipZero_spec hsum (by omega) hmasked
      fun i h1 h2 => by omega with ⟨hnone, hclear⟩ | ⟨k, word, hsome, hne, hk, hword, hclear⟩
    · rw [hnone]
      exact .inl ⟨rfl, rfl, hclear⟩
    · rw [hsome]
      dsimp only
      obtain ⟨-, hz2, hz3⟩ := countrZero_spec word
      have hz1 := countrZero_lt hne
      -- the first bit of the run
      have hfirst := hword _ hz1
      rw [hz3 hz1] at hfirst
      obtain ⟨hfrom, hset⟩ := Bool.and_eq_true_iff.mp hfirst.symm
      have hfrom' := of_decide_eq_true hfrom
      have hbefore : ∀ i, start ≤ i → i < k * 64 + countrZero word → bits.get i = false := by
        intro i hs hi
        by_cases hlow : i < k * 64
        · exact hclear i hs hlow
        · have hb := hword (i - k * 64) (by omega)
          rw [hz2 _ (by omega), Nat.add_sub_cancel' (by omega), decide_eq_true hs,
            Bool.true_and] at hb
          exact hb.symm
      have hbit : (k * 64 + countrZero word) % 64 = countrZero word := by omega
      rw [hbit]
      generalize countrZero word = f at *
      obtain ⟨ho1, ho2, ho3⟩ := countrOne_spec (bits.word k >>> f)
      have hshift : ∀ b, f + b < 64 →
          (bits.word k >>> f).getLsbD b = bits.get (k * 64 + (f + b)) := by
        intro b hb
        rw [BitVec.getLsbD_ushiftRight, get_word bits k hb]
      -- the shifted word has no bits left at the top
      have hle : f + countrOne (bits.word k >>> f) ≤ 64 := by
        by_contra hgt
        have htop := ho2 (64 - f) (by omega)
        rw [BitVec.getLsbD_ushiftRight, BitVec.getLsbD_of_ge _ _ (by omega)] at htop
        nomatch htop
      have hpos : 0 < countrOne (bits.word k >>> f) := by
        by_contra hzero
        have hcount : countrOne (bits.word k >>> f) = 0 := by omega
        have hclear0 := ho3 (by omega)
        rw [hcount, hshift 0 (by omega), add_zero, hset] at hclear0
        nomatch hclear0
      have hinside : ∀ i, k * 64 + f ≤ i → i < k * 64 + f + countrOne (bits.word k >>> f) →
          bits.get i = true := by
        intro i h1 h2
        have hb := ho2 (i - (k * 64 + f)) (by omega)
        rw [hshift _ (by omega), show k * 64 + (f + (i - (k * 64 + f))) = i by omega] at hb
        exact hb
      by_cases hshort : f + countrOne (bits.word k >>> f) < 64
      · rw [if_pos hshort]
        refine .inr ⟨hfrom', by dsimp only; omega, by dsimp only; omega, hbefore, hinside,
          fun _ => ?_⟩
        rw [add_assoc, ← hshift _ hshort]
        exact ho3 (by omega)
      · rw [if_neg hshort]
        obtain ⟨g1, g2, g3, g4⟩ := runEnd_spec bits (WORD_COUNT - 1 - k) (k + 1) (by omega)
        refine .inr ⟨hfrom', by dsimp only; omega, g2, hbefore, fun i h1 h2 => ?_, g4⟩
        by_cases hnext : (k + 1) * 64 ≤ i
        · exact g3 i hnext h2
        · exact hinside i h1 (by omega)

/-- `[first, last)` is the last run of set bits before `end_`; without one, both ends are 0. -/
def IsLastRange (bits : BitArray WORD_COUNT) (end_ first last : ℕ) : Prop :=
  (first = 0 ∧ last = 0 ∧ ∀ i, i < end_ → bits.get i = false) ∨
  (first < last ∧ last ≤ end_ ∧ (∀ i, last ≤ i → i < end_ → bits.get i = false) ∧
    (∀ i, first ≤ i → i < last → bits.get i = true) ∧
    (0 < first → bits.get (first - 1) = false))

/-- A word with the bits from `end_` on masked out. -/
def MaskedEnd (bits : BitArray WORD_COUNT) (end_ k : ℕ) (word : BitVec 64) : Prop :=
  ∀ b, b < 64 → word.getLsbD b = (decide (k * 64 + b < end_) && bits.get (k * 64 + b))

theorem skipZeroDown_spec (hend : k * 64 < end_) (hword : MaskedEnd bits end_ k word)
    (habove : ∀ i, k * 64 + 64 ≤ i → i < end_ → bits.get i = false) :
    (bits.skipZeroDown k word = none ∧ ∀ i, i < end_ → bits.get i = false) ∨
    ∃ k' word', bits.skipZeroDown k word = some (k', word') ∧ word' ≠ 0#64 ∧
      k' * 64 < end_ ∧ MaskedEnd bits end_ k' word' ∧
      ∀ i, k' * 64 + 64 ≤ i → i < end_ → bits.get i = false := by
  induction k generalizing word with
  | zero =>
    by_cases hzero : word = 0#64
    · subst hzero
      refine .inl ⟨if_pos rfl, fun i hi => ?_⟩
      by_cases hhigh : 0 * 64 + 64 ≤ i
      · exact habove i hhigh hi
      · have hb := hword i (by omega)
        rw [getLsbD_zero, zero_mul, zero_add, decide_eq_true hi, Bool.true_and] at hb
        exact hb.symm
    · exact .inr ⟨0, word, if_neg hzero, hzero, hend, hword, habove⟩
  | succ k ih =>
    unfold skipZeroDown
    by_cases hzero : word = 0#64
    · subst hzero
      have hclear : ∀ i, k * 64 + 64 ≤ i → i < end_ → bits.get i = false := by
        intro i h1 h2
        by_cases hhigh : (k + 1) * 64 + 64 ≤ i
        · exact habove i hhigh h2
        · have hsub : (k + 1) * 64 + (i - (k + 1) * 64) = i := by omega
          have hb := hword (i - (k + 1) * 64) (by omega)
          rw [getLsbD_zero, hsub, decide_eq_true h2, Bool.true_and] at hb
          exact hb.symm
      have hnext : MaskedEnd bits end_ k (bits.word k) := fun b hb => by
        rw [← get_word bits k hb, decide_eq_true (by omega), Bool.true_and]
      have hrest := ih (by omega) hnext hclear
      rw [if_pos rfl]
      exact hrest
    · rw [if_neg hzero]
      exact .inr ⟨k + 1, word, rfl, hzero, hend, hword, habove⟩

theorem runStart_spec (bits : BitArray WORD_COUNT) (k : ℕ) :
    bits.runStart k ≤ k * 64 ∧
      (∀ i, bits.runStart k ≤ i → i < k * 64 → bits.get i = true) ∧
      (0 < bits.runStart k → bits.get (bits.runStart k - 1) = false) := by
  induction k with
  | zero => exact ⟨zero_le _, fun i _ h => by omega, fun h => absurd h (lt_irrefl _)⟩
  | succ k ih =>
    unfold runStart
    obtain ⟨h1, h2, h3⟩ := countlOne_spec (bits.word k)
    by_cases hones : bits.word k = ones
    · obtain ⟨g1, g2, g3⟩ := ih
      rw [if_neg (not_not.mpr hones)]
      refine ⟨by omega, fun i hi1 hi2 => ?_, g3⟩
      by_cases hlow : i < k * 64
      · exact g2 i hi1 hlow
      · have hb : i - k * 64 < 64 := by omega
        rw [← Nat.add_sub_cancel' (Nat.le_of_not_lt hlow), get_word bits k hb, hones,
          getLsbD_allOnes, decide_eq_true hb]
    · rw [if_pos hones]
      have hlt : countlOne (bits.word k) < 64 := by
        by_contra hge
        apply hones
        apply eq_of_getLsbD_eq
        intro b hb
        rw [getLsbD_allOnes, decide_eq_true hb]
        exact h2 b (by omega) hb
      refine ⟨by omega, fun i hi1 hi2 => ?_, fun _ => ?_⟩
      · have hsub : k * 64 + (i - k * 64) = i := by omega
        rw [← hsub, get_word bits k (by omega)]
        exact h2 _ (by omega) (by omega)
      · have hsub : (k + 1) * 64 - countlOne (bits.word k) - 1 =
            k * 64 + (63 - countlOne (bits.word k)) := by omega
        rw [hsub, get_word bits k (by omega)]
        exact h3 hlt

/-- **`LastRangeFrom`** finds the last run of set bits before a position. -/
theorem lastRangeFrom_spec (bits : BitArray WORD_COUNT) (hsize : end_ ≤ 64 * WORD_COUNT) :
    IsLastRange bits end_ (bits.lastRangeFrom end_).1 (bits.lastRangeFrom end_).2 := by
  unfold lastRangeFrom
  by_cases hend : end_ = 0
  · rw [if_pos hend]
    exact .inl ⟨rfl, rfl, fun i hi => by omega⟩
  · rw [if_neg hend, if_neg (by omega)]
    dsimp only
    have hmod : (end_ - 1) % 64 < 64 := mod_lt _ (by decide)
    have hmasked : MaskedEnd bits end_ ((end_ - 1) / 64)
        (bits.word ((end_ - 1) / 64) &&& maskTo ((end_ - 1) % 64)) := by
      intro b hb
      rw [BitVec.getLsbD_and, getLsbD_maskTo hmod hb, get_word bits _ hb, Bool.and_comm]
      congr 1
      rw [decide_eq_decide]
      omega
    rcases skipZeroDown_spec (by omega) hmasked fun i h1 h2 => by omega with
      ⟨hnone, hclear⟩ | ⟨k, word, hsome, hne, hk, hword, hclear⟩
    · rw [hnone]
      exact .inl ⟨rfl, rfl, hclear⟩
    · rw [hsome]
      dsimp only
      obtain ⟨-, hz2, hz3⟩ := countlZero_spec word
      have hz1 := countlZero_lt hne
      have htop := hz3 hz1
      generalize countlZero word = e at *
      obtain ⟨ho1, ho2, ho3⟩ := countlOne_spec (word <<< e)
      -- the last bit of the run
      have hlast := hword (63 - e) (by omega)
      rw [htop] at hlast
      have hinside_end := of_decide_eq_true (Bool.and_eq_true_iff.mp hlast.symm).1
      have hafter : ∀ i, (k + 1) * 64 - e ≤ i → i < end_ → bits.get i = false := by
        intro i h1 h2
        by_cases hhigh : k * 64 + 64 ≤ i
        · exact hclear i hhigh h2
        · have hsub : k * 64 + (i - k * 64) = i := by omega
          have hb := hword (i - k * 64) (by omega)
          rw [hz2 _ (by omega) (by omega), hsub, decide_eq_true h2, Bool.true_and] at hb
          exact hb.symm
      have hshift : ∀ b, b < 64 → (word <<< e).getLsbD b =
          (decide (e ≤ b) && word.getLsbD (b - e)) := by
        intro b hb
        rw [BitVec.getLsbD_shiftLeft, decide_eq_true hb, Bool.true_and]
        congr 1
        rw [← decide_not, decide_eq_decide]
        omega
      -- the shifted word has no bits left at the bottom
      have hle : e + countlOne (word <<< e) ≤ 64 := by
        by_contra hgt
        have hbottom := ho2 (e - 1) (by omega) (by omega)
        rw [hshift _ (by omega), decide_eq_false (by omega), Bool.false_and] at hbottom
        nomatch hbottom
      have hpos : 0 < countlOne (word <<< e) := by
        by_contra hzero
        have hcount : countlOne (word <<< e) = 0 := by omega
        have hclear63 := ho3 (by omega)
        rw [hcount, Nat.sub_zero, hshift 63 (by omega), decide_eq_true (by omega), htop]
          at hclear63
        nomatch hclear63
      generalize countlOne (word <<< e) = n at *
      have hinside : ∀ i, (k + 1) * 64 - e - n ≤ i → i < (k + 1) * 64 - e → bits.get i = true := by
        intro i h1 h2
        have hsub : k * 64 + (i - k * 64 + e - e) = i := by omega
        have hb := ho2 (i - k * 64 + e) (by omega) (by omega)
        rw [hshift _ (by omega), hword _ (by omega), hsub] at hb
        exact (Bool.and_eq_true_iff.mp (Bool.and_eq_true_iff.mp hb).2).2
      by_cases hshort : e + n < 64
      · rw [if_pos hshort]
        refine .inr ⟨by dsimp only; omega, by dsimp only; omega, hafter, hinside, fun _ => ?_⟩
        have hsub : k * 64 + (63 - n - e) = (k + 1) * 64 - e - n - 1 := by omega
        have hb := ho3 (by omega)
        rw [hshift _ (by omega), decide_eq_true (by omega), Bool.true_and, hword _ (by omega),
          decide_eq_true (by omega), Bool.true_and, hsub] at hb
        exact hb
      · rw [if_neg hshort]
        obtain ⟨g1, g2, g3⟩ := runStart_spec bits k
        refine .inr ⟨by dsimp only; omega, by dsimp only; omega, hafter, fun i h1 h2 => ?_, g3⟩
        by_cases hlow : i < k * 64
        · exact g2 i h1 hlow
        · exact hinside i (by omega) h2

/-- **`None`** says that no bit is set. -/
theorem isNone_iff (bits : BitArray WORD_COUNT) :
    bits.isNone = true ↔ ∀ i, i < 64 * WORD_COUNT → bits.get i = false := by
  have hfold : ∀ (l : List ℕ) (acc : BitVec 64),
      l.foldl (fun combined word => combined ||| bits.word word) acc = 0#64 ↔
        acc = 0#64 ∧ ∀ k ∈ l, bits.word k = 0#64 := by
    intro l
    induction l with
    | nil => intro acc; simp
    | cons k l ih =>
      intro acc
      rw [foldl_cons, ih, BitVec.or_eq_zero_iff, forall_mem_cons, and_assoc]
  unfold isNone
  rw [beq_iff_eq, hfold]
  constructor
  · rintro ⟨-, hall⟩ i hi
    rw [get_eq, hall (i / 64) (mem_range.mpr (by omega)), getLsbD_zero]
  · intro hclear
    refine ⟨rfl, fun k hk => ?_⟩
    apply eq_of_getLsbD_eq
    intro b hb
    have hk' := mem_range.mp hk
    rw [← get_word bits k hb, hclear _ (by omega), getLsbD_zero]

theorem isAny_iff (bits : BitArray WORD_COUNT) :
    bits.isAny = true ↔ ∃ i, i < 64 * WORD_COUNT ∧ bits.get i = true := by
  unfold isAny
  rw [Bool.not_eq_true', ← Bool.not_eq_true, isNone_iff]
  push Not
  simp only [Bool.not_eq_false]

theorem bounds_of_get (hi : i < 64 * WORD_COUNT) (h : bits.get i = true) :
    bits.firstRange.1 ≤ i ∧ i < bits.lastRange.2 := by
  constructor
  · by_contra hlt
    have hclear : bits.get i = false := by
      rcases bits.firstRangeFrom_spec 0 with ⟨-, -, hnone⟩ | ⟨-, -, -, hbelow, -⟩
      · exact hnone i (zero_le i) hi
      · exact hbelow i (Nat.zero_le i) (Nat.lt_of_not_le hlt)
    rw [h] at hclear
    nomatch hclear
  · by_contra hge
    have hclear : bits.get i = false := by
      rcases bits.lastRangeFrom_spec le_rfl with ⟨-, -, hnone⟩ | ⟨-, -, habove, -⟩
      · exact hnone i hi
      · exact habove i (Nat.le_of_not_lt hge) hi
    rw [h] at hclear
    nomatch hclear

theorem range_bounds (h : bits.isNone = false) :
    bits.firstRange.1 < bits.lastRange.2 ∧ bits.lastRange.2 ≤ 64 * WORD_COUNT := by
  have hany : bits.isAny = true := by
    unfold isAny
    rw [h]
    rfl
  obtain ⟨i, hi, hset⟩ := (isAny_iff bits).mp hany
  obtain ⟨h1, h2⟩ := bounds_of_get hi hset
  refine ⟨by omega, ?_⟩
  rcases bits.lastRangeFrom_spec le_rfl with ⟨-, h3, -⟩ | ⟨-, h3, -⟩
  · have h3' : bits.lastRange.2 = 0 := h3
    omega
  · exact h3

theorem isNone_of_firstRange (h : bits.firstRange.1 ≠ 64 * WORD_COUNT) : bits.isNone = false := by
  by_contra hnone
  have hclear := (isNone_iff bits).mp (eq_true_of_ne_false hnone)
  rcases bits.firstRangeFrom_spec 0 with ⟨h1, -, -⟩ | ⟨-, h2, h3, -, h4, -⟩
  · exact h h1
  · have hset := h4 _ le_rfl h2
    rw [hclear _ (by omega)] at hset
    nomatch hset

theorem get_iff_of_single
    (hsingle : bits.firstRange.2 = bits.lastRange.2) (hi : i < 64 * WORD_COUNT) :
    bits.get i = true ↔ bits.firstRange.1 ≤ i ∧ i < bits.lastRange.2 := by
  constructor
  · exact bounds_of_get hi
  · rintro ⟨h1, h2⟩
    rcases bits.firstRangeFrom_spec 0 with ⟨h3, -, -⟩ | ⟨-, -, -, -, hinside, -⟩
    · have h3' : bits.firstRange.1 = 64 * WORD_COUNT := h3
      omega
    · refine hinside i h1 ?_
      have hsingle' : (bits.firstRangeFrom 0).2 = bits.lastRange.2 := hsingle
      omega

/-! ## The iteration -/

/-- A run of set bits inside `[start, end_)` that cannot be made longer there. -/
def IsRun (bits : BitArray WORD_COUNT) (start end_ : ℕ) (range : ℕ × ℕ) : Prop :=
  start ≤ range.1 ∧ range.1 < range.2 ∧ range.2 ≤ end_ ∧
    (∀ i, range.1 ≤ i → i < range.2 → bits.get i = true) ∧
    (start < range.1 → bits.get (range.1 - 1) = false) ∧
    (range.2 < end_ → bits.get range.2 = false)

/-- A run is the first one, or it lies behind the first one. -/
theorem isRun_iff {first last : ℕ} (hstart : start ≤ first) (hlt : first < last)
    (hlast : last ≤ 64 * WORD_COUNT) (hbefore : ∀ i, start ≤ i → i < first → bits.get i = false)
    (hinside : ∀ i, first ≤ i → i < last → bits.get i = true)
    (hend : last < 64 * WORD_COUNT → bits.get last = false) (range : ℕ × ℕ) :
    IsRun bits start (64 * WORD_COUNT) range ↔
      range = (first, last) ∨ IsRun bits last (64 * WORD_COUNT) range := by
  constructor
  · rintro ⟨h1, h2, h3, h4, h5, h6⟩
    have hset := h4 range.1 le_rfl h2
    have hfirst : first ≤ range.1 := by
      by_contra hlow
      rw [hbefore _ h1 (by omega)] at hset
      cases hset
    by_cases heq : range.1 = first
    · -- two runs with one beginning end where the first clear bit is
      left
      refine Prod.ext heq ?_
      rcases lt_trichotomy range.2 last with h | h | h
      · have hclear := h6 (by omega)
        rw [hinside _ (by omega) h] at hclear
        cases hclear
      · exact h
      · have hclear := hend (by omega)
        rw [h4 _ (by omega) h] at hclear
        cases hclear
    · right
      have hclear := h5 (by omega)
      have hbehind : last < range.1 := by
        by_contra hlow
        by_cases hin : range.1 = last
        · rw [hin, hend (by omega)] at hset
          cases hset
        · rw [hinside _ (by omega) (by omega)] at hclear
          cases hclear
      exact ⟨hbehind.le, h2, h3, h4, fun _ => hclear, h6⟩
  · rintro (rfl | ⟨h1, h2, h3, h4, h5, h6⟩)
    · exact ⟨hstart, hlt, hlast, hinside, fun h => hbefore _ (by omega) (by omega), hend⟩
    · refine ⟨by omega, h2, h3, h4, fun _ => h5 ?_, h6⟩
      refine lt_of_le_of_ne h1 fun heq => ?_
      have hset := h4 range.1 le_rfl h2
      rw [← heq, hend (by omega)] at hset
      cases hset

/-- **The iteration** visits the runs from a position on, one after the other. -/
theorem rangesFrom_spec {fuel : ℕ} (hfuel : 64 * WORD_COUNT ≤ start + fuel) :
    ((bits.rangesFrom fuel start).Pairwise fun range next => range.2 < next.1) ∧
      ∀ range, range ∈ bits.rangesFrom fuel start ↔
        IsRun bits start (64 * WORD_COUNT) range := by
  induction fuel generalizing start with
  | zero =>
    refine ⟨.nil, fun range => iff_of_false not_mem_nil ?_⟩
    rintro ⟨h1, h2, h3, -⟩
    omega
  | succ fuel ih =>
    unfold rangesFrom
    rcases firstRangeFrom_spec bits start with ⟨h1, h2, hclear⟩ | ⟨h1, h2, h3, h4, h5, h6⟩
    · rw [if_pos (Prod.ext h1 h2)]
      refine ⟨.nil, fun range => iff_of_false not_mem_nil ?_⟩
      rintro ⟨h3, h4, h5, h6, -⟩
      have hset := h6 range.1 le_rfl h4
      rw [hclear _ h3 (by omega)] at hset
      cases hset
    · rw [if_neg (fun heq => by rw [heq] at h2; exact lt_irrefl _ h2)]
      have hbehind : 64 * WORD_COUNT ≤ (bits.firstRangeFrom start).2 + fuel := by omega
      obtain ⟨hordered, hmem⟩ := ih hbehind
      refine ⟨pairwise_cons.mpr ⟨fun next hnext => ?_, hordered⟩, fun range => ?_⟩
      · obtain ⟨h7, h8, h9, h10, -⟩ := (hmem next).mp hnext
        refine lt_of_le_of_ne h7 fun heq => ?_
        have hset := h10 next.1 le_rfl h8
        rw [← heq, h6 (by omega)] at hset
        cases hset
      · rw [mem_cons, hmem, isRun_iff h1 h2 h3 h4 h5 h6]

theorem ranges_spec (bits : BitArray WORD_COUNT) :
    (bits.ranges.Pairwise fun range next => range.2 < next.1) ∧
      ∀ range, range ∈ bits.ranges ↔ IsRun bits 0 (64 * WORD_COUNT) range :=
  rangesFrom_spec (by omega)

/-- Outside the array, `SetRange` and `UnsetRange` change nothing and the copy is empty. -/
theorem range_refused (bits : BitArray WORD_COUNT) (h : start ≥ end_ ∨ end_ > 64 * WORD_COUNT) :
    bits.setRange start end_ = bits ∧ bits.unsetRange start end_ = bits ∧
      bits.copyRange start end_ = clear := ⟨if_pos h, if_pos h, if_pos h⟩

/-- What the functions that take an interval do, for an interval inside the array. -/
theorem range_inside (bits : BitArray WORD_COUNT)
    (hend : end_ ≤ 64 * WORD_COUNT) (hi : i < 64 * WORD_COUNT) :
    (bits.setRange start end_).get i = (bits.get i || decide (start ≤ i ∧ i < end_)) ∧
      (bits.unsetRange start end_).get i = (bits.get i && !decide (start ≤ i ∧ i < end_)) ∧
      (bits.copyRange start end_).get i = (bits.get i && decide (start ≤ i ∧ i < end_)) := by
  by_cases hse : start < end_
  · rw [get_setRange hse hend hi, get_unsetRange hse hend hi, get_copyRange hse hend hi]
    by_cases hin : start ≤ i ∧ i < end_
    · simp [hin]
    · simp [hin]
  · obtain ⟨hset, hunset, hcopy⟩ := range_refused bits (.inl (not_lt.mp hse))
    have hin : ¬ (start ≤ i ∧ i < end_) := by omega
    rw [hset, hunset, hcopy, get_clear]
    simp [hin]

/-- The runs of the copy of an interval are those inside the interval. -/
theorem isRun_copyRange (hend : end_ ≤ 64 * WORD_COUNT) (range : ℕ × ℕ) :
    IsRun (bits.copyRange start end_) 0 (64 * WORD_COUNT) range ↔ IsRun bits start end_ range := by
  have hget : ∀ i, i < 64 * WORD_COUNT → ((bits.copyRange start end_).get i = true ↔
      bits.get i = true ∧ start ≤ i ∧ i < end_) := by
    intro i hi
    rw [(range_inside bits hend hi).2.2, Bool.and_eq_true, decide_eq_true_iff]
  simp only [IsRun, ← Bool.not_eq_true]
  constructor
  · rintro ⟨-, h2, h3, h4, h5, h6⟩
    have hall : ∀ i, range.1 ≤ i → i < range.2 → bits.get i = true ∧ start ≤ i ∧ i < end_ :=
      fun i h7 h8 => (hget i (by omega)).mp (h4 i h7 h8)
    have hfirst := (hall range.1 le_rfl h2).2
    have hlast := (hall (range.2 - 1) (by omega) (by omega)).2
    refine ⟨hfirst.1, h2, by omega, fun i h7 h8 => (hall i h7 h8).1, fun h hset => ?_,
      fun h hset => ?_⟩
    · exact h5 (by omega) ((hget _ (by omega)).mpr ⟨hset, by omega⟩)
    · exact h6 (by omega) ((hget _ (by omega)).mpr ⟨hset, by omega⟩)
  · rintro ⟨h1, h2, h3, h4, h5, h6⟩
    refine ⟨zero_le _, h2, by omega, fun i h7 h8 => ?_, fun h hset => ?_, fun h hset => ?_⟩
    · exact (hget i (by omega)).mpr ⟨h4 i h7 h8, by omega⟩
    · obtain ⟨hset, hin⟩ := (hget _ (by omega)).mp hset
      exact h5 (by omega) hset
    · obtain ⟨hset, hin⟩ := (hget _ (by omega)).mp hset
      exact h6 (by omega) hset

/-- **`BitArray`**: inside the array, the functions that take an interval change its bits and
no others, and the iteration over a copy visits the runs of the interval in order; the searches
find the first and the last run. An interval that reaches beyond the end is refused. -/
theorem bitArray_exact (bits : BitArray WORD_COUNT) :
    (∀ start end_, end_ ≤ 64 * WORD_COUNT →
      (∀ i, i < 64 * WORD_COUNT →
        (bits.setRange start end_).get i = (bits.get i || decide (start ≤ i ∧ i < end_)) ∧
        (bits.unsetRange start end_).get i = (bits.get i && !decide (start ≤ i ∧ i < end_)) ∧
        (bits.copyRange start end_).get i = (bits.get i && decide (start ≤ i ∧ i < end_))) ∧
      ((bits.copyRange start end_).ranges.Pairwise fun range next => range.2 < next.1) ∧
      ∀ range, range ∈ (bits.copyRange start end_).ranges ↔ IsRun bits start end_ range) ∧
    (∀ start end_, end_ > 64 * WORD_COUNT → bits.setRange start end_ = bits ∧
      bits.unsetRange start end_ = bits ∧ bits.copyRange start end_ = clear) ∧
    (bits.ranges.Pairwise fun range next => range.2 < next.1) ∧
    (∀ range, range ∈ bits.ranges ↔ IsRun bits 0 (64 * WORD_COUNT) range) ∧
    (∀ start, IsFirstRange bits start (bits.firstRangeFrom start).1
      (bits.firstRangeFrom start).2) ∧
    ∀ end_, IsLastRange bits (min end_ (64 * WORD_COUNT)) (bits.lastRangeFrom end_).1
      (bits.lastRangeFrom end_).2 := by
  refine ⟨fun start end_ hend => ⟨fun i hi => range_inside bits hend hi, ?_, fun range => ?_⟩,
    fun start end_ hend => range_refused bits (Or.inr hend), (ranges_spec bits).1,
    (ranges_spec bits).2, firstRangeFrom_spec bits, fun end_ => ?_⟩
  · exact (ranges_spec (bits.copyRange start end_)).1
  · rw [(ranges_spec (bits.copyRange start end_)).2, isRun_copyRange hend]
  · by_cases hend : end_ ≤ 64 * WORD_COUNT
    · rw [min_eq_left hend]
      exact lastRangeFrom_spec bits hend
    · have hclamp : bits.lastRangeFrom end_ = bits.lastRangeFrom (64 * WORD_COUNT) := by
        by_cases hzero : WORD_COUNT = 0
        · subst hzero
          have hword : bits.word 0 = 0#64 := by
            unfold word
            rw [getD_eq_default _ _ bits.length_eq.le]
          simp [lastRangeFrom, skipZeroDown, hword, show 0 < end_ by omega]
        · unfold lastRangeFrom
          rw [if_neg (show end_ ≠ 0 by omega), if_neg (show 64 * WORD_COUNT ≠ 0 by omega)]
          simp only [if_pos (show end_ > 64 * WORD_COUNT by omega), ite_self]
      rw [min_eq_right (by omega), hclamp]
      exact lastRangeFrom_spec bits le_rfl

/-- `SetRange(0, 65)` on 64 bits sets none of them. -/
theorem setRange_beyond_end :
    ¬ ∀ i, i < 64 → ((clear : BitArray 1).setRange 0 65).get i
      = ((clear : BitArray 1).get i || decide (0 ≤ i ∧ i < 65)) := by
  decide

end BitArray

end MagnusPS5.Common
