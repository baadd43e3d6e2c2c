/-
The emulated SHA instructions, chained the way the hash functions use them.

`sha1rnds4` leaves out the `E` that its first round adds. `sha1nexte` has added it to the first
word: it is the `A` of four rounds earlier, rotated. So a pair of registers holds a state, and a
group of two instructions takes it four rounds on. For SHA-256 the two halves of the state change
places with every instruction.
-/
import MagnusPS5.Loader.ShaNi

namespace MagnusPS5.Loader

open Lib.SecureHash Nat BitVec Sha1 List Sha256

variable {W : ℕ → Word}

theorem rol32_eq {n : ℕ} (h : n < 32) (x : Word) : rol32 x n = x.rotateLeft n := by
  unfold rol32 BitVec.rotateLeft BitVec.rotateLeftAux
  rw [mod_eq_of_lt h]

theorem rotr32_eq {n : ℕ} (h : n < 32) (x : Word) : rotr32 x n = x.rotateRight n := by
  unfold rotr32 BitVec.rotateRight BitVec.rotateRightAux
  rw [mod_eq_of_lt h]

/-- An instruction by its opcode. The other fields do not matter to its operation. -/
def shaNiInsn (escape opcode imm8 : Byte) : ShaNiInsn :=
  { escape, opcode, imm8, rex := 0, modrm_offset := 3, length := 4 }

/-! ## The rounds of SHA-1 -/

/-- Four words from an index on, the first in the highest lane. -/
def sha1Words (W : ℕ → Word) (t : ℕ) : XmmWords :=
  { w3 := W t, w2 := W (t + 1), w1 := W (t + 2), w0 := W (t + 3) }

/-- The state that `ABCD` holds together with the `ABCD` of four rounds earlier. -/
def sha1State (abcd earlier : XmmWords) : Sha1.State :=
  { a := abcd.w3, b := abcd.w2, c := abcd.w1, d := abcd.w0, e := earlier.w3.rotateLeft 30 }

theorem sha1State_surjective (s : Sha1.State) : ∃ abcd earlier, sha1State abcd earlier = s := by
  refine ⟨⟨s.d, s.c, s.b, s.a⟩, ⟨0, 0, 0, s.e.rotateRight 30⟩, ?_⟩
  have he : (s.e.rotateRight 30).rotateLeft 30 = s.e := by
    ext i hi
    simp only [getElem_rotateLeft, getElem_rotateRight]
    split <;> split <;> first | omega | (congr 1; omega)
  unfold sha1State
  rw [he]

/-- `sha1nexte` and `sha1rnds4`: four rounds. -/
def sha1Group (imm8 : Byte) (msg xmm0 : XmmWords) (regs : XmmWords × XmmWords) :
    Option (XmmWords × XmmWords) := do
  let e ← executeShaNiInsn (shaNiInsn 0x38 0xc8 0) msg xmm0 regs.2
  let abcd ← executeShaNiInsn (shaNiInsn 0x3a 0xcc imm8) e xmm0 regs.1
  some (abcd, regs.1)

/-- The first `n` groups. -/
def sha1Groups (imm8 : ℕ → Byte) (W : ℕ → Word) (xmm0 : XmmWords) :
    ℕ → XmmWords × XmmWords → Option (XmmWords × XmmWords)
  | 0, regs => some regs
  | n + 1, regs =>
    (sha1Groups imm8 W xmm0 n regs).bind (sha1Group (imm8 n) (sha1Words W (4 * n)) xmm0)

theorem sha1RoundFunc_eq (imm8 : Byte) : sha1RoundFunc (imm8 &&& 3) = f (imm8.toNat % 4) := by
  funext b c d
  have hstage : (imm8 &&& 3 &&& 3).toNat = imm8.toNat % 4 := by
    rw [BitVec.and_assoc, BitVec.and_self, BitVec.toNat_and]
    exact and_two_pow_sub_one_eq_mod imm8.toNat 2
  unfold sha1RoundFunc f
  rw [hstage, mod_mod]
  rfl

theorem sha1RoundConstant_eq (imm8 : Byte) :
    sha1RoundConstant (imm8 &&& 3) = Sha1.K (imm8.toNat % 4) := by
  have hstage : (imm8 &&& 3 &&& 3).toNat = imm8.toNat % 4 := by
    rw [BitVec.and_assoc, BitVec.and_self, BitVec.toNat_and]
    exact and_two_pow_sub_one_eq_mod imm8.toNat 2
  unfold Sha1.K
  rw [mod_mod, ← hstage]
  rfl

/-- The five variables of the loop. -/
def sha1Tuple (s : Sha1.State) : Word × Word × Word × Word × Word := (s.a, s.b, s.c, s.d, s.e)

theorem sha1Rnds4Round_later (imm8 : Byte) (w : ℕ → Word) {round : ℕ} (h : 0 < round)
    (s : Sha1.State) :
    sha1Rnds4Round (imm8 &&& 3) (sha1RoundConstant (imm8 &&& 3)) w round (sha1Tuple s) =
      sha1Tuple (Sha1.round (imm8.toNat % 4) (w round) s) := by
  simp only [sha1Rnds4Round, sha1Tuple, Sha1.round, sha1RoundFunc_eq, sha1RoundConstant_eq,
    rol32_eq (show 5 < 32 by omega), rol32_eq (show 30 < 32 by omega), if_pos h, Prod.mk.injEq,
    and_true]
  ring

theorem sha1Rnds4Round_first (imm8 : Byte) (w : ℕ → Word) {word a b c d e : Word}
    (h : w 0 = word + e) :
    sha1Rnds4Round (imm8 &&& 3) (sha1RoundConstant (imm8 &&& 3)) w 0 (a, b, c, d, 0) =
      sha1Tuple (Sha1.round (imm8.toNat % 4) word ⟨a, b, c, d, e⟩) := by
  simp only [sha1Rnds4Round, sha1Tuple, Sha1.round, sha1RoundFunc_eq, sha1RoundConstant_eq,
    rol32_eq (show 5 < 32 by omega), rol32_eq (show 30 < 32 by omega), h,
    if_neg (lt_irrefl 0), Prod.mk.injEq, and_true]
  ring

theorem sha1Group_spec (imm8 : Byte) (t : ℕ) (xmm0 abcd earlier : XmmWords) :
    ∃ abcd', sha1Group imm8 (sha1Words W t) xmm0 (abcd, earlier) = some (abcd', abcd) ∧
      sha1State abcd' abcd =
        round (imm8.toNat % 4) (W (t + 3)) (round (imm8.toNat % 4) (W (t + 2))
          (round (imm8.toNat % 4) (W (t + 1)) (round (imm8.toNat % 4) (W t)
            (sha1State abcd earlier)))) := by
  refine ⟨sha1Rnds4 abcd (sha1Nexte earlier (sha1Words W t)) imm8, rfl, ?_⟩
  have h0 : (sha1Nexte earlier (sha1Words W t)).w3 = W t + earlier.w3.rotateLeft 30 := by
    unfold sha1Nexte
    rw [rol32_eq (by omega)]
    rfl
  unfold sha1Rnds4
  simp only [List.range, List.range.loop, foldl_cons, foldl_nil]
  rw [sha1Rnds4Round_first imm8 _ h0, sha1Rnds4Round_later imm8 _ (by omega),
    sha1Rnds4Round_later imm8 _ (by omega), sha1Rnds4Round_later imm8 _ (by omega)]
  rfl

/-- **SHA-1**: `n` groups are `4 * n` rounds. -/
theorem sha1Groups_spec (imm8 : ℕ → Byte) (xmm0 : XmmWords) (n : ℕ) (abcd earlier : XmmWords) :
    ∃ abcd' earlier', sha1Groups imm8 W xmm0 n (abcd, earlier) = some (abcd', earlier') ∧
      sha1State abcd' earlier' = rounds (fun t => (imm8 (t / 4)).toNat % 4) W (4 * n)
        (sha1State abcd earlier) := by
  induction n with
  | zero => exact ⟨abcd, earlier, rfl, rfl⟩
  | succ n ih =>
    obtain ⟨abcd', earlier', hrun, hstate⟩ := ih
    obtain ⟨next, hgroup, hnext⟩ := sha1Group_spec (W := W) (imm8 n) (4 * n) xmm0 abcd' earlier'
    refine ⟨next, abcd', ?_, ?_⟩
    · unfold sha1Groups
      rw [hrun]
      exact hgroup
    · rw [hnext, hstate]
      -- the four rounds of a group have its index
      have h0 : 4 * n / 4 = n := by omega
      have h1 : (4 * n + 1) / 4 = n := by omega
      have h2 : (4 * n + 2) / 4 = n := by omega
      have h3 : (4 * n + 3) / 4 = n := by omega
      rw [Nat.mul_succ]
      simp only [Sha1.rounds, h0, h1, h2, h3]

/-! ## The schedule of SHA-1 -/

def pxor (x y : XmmWords) : XmmWords :=
  { w0 := x.w0 ^^^ y.w0, w1 := x.w1 ^^^ y.w1, w2 := x.w2 ^^^ y.w2, w3 := x.w3 ^^^ y.w3 }

/-- The sequence that makes the next four words out of sixteen. -/
def sha1Extend (xmm0 msg0 msg1 msg2 msg3 : XmmWords) : Option XmmWords := do
  let msg0 ← executeShaNiInsn (shaNiInsn 0x38 0xc9 0) msg1 xmm0 msg0
  executeShaNiInsn (shaNiInsn 0x38 0xca 0) msg3 xmm0 (pxor msg0 msg2)

theorem sha1Extend_spec (m : ℕ → Word) (xmm0 : XmmWords) (t : ℕ) :
    let words := sha1Words (Sha1.schedule m)
    sha1Extend xmm0 (words t) (words (t + 4)) (words (t + 8)) (words (t + 12)) =
      some (words (t + 16)) := by
  intro words
  have hrun : sha1Extend xmm0 (words t) (words (t + 4)) (words (t + 8)) (words (t + 12)) =
      some (sha1Msg2 (pxor (sha1Msg1 (words t) (words (t + 4))) (words (t + 8)))
        (words (t + 12))) := rfl
  have h16 := Sha1.schedule_add m t
  have h17 := Sha1.schedule_add m (t + 1)
  have h18 := Sha1.schedule_add m (t + 2)
  have h19 := Sha1.schedule_add m (t + 3)
  rw [hrun]
  simp only [words, sha1Msg2, sha1Msg1, pxor, sha1Words, rol32_eq (show 1 < 32 by omega),
    Option.some.injEq, XmmWords.mk.injEq, add_assoc, Nat.reduceAdd] at *
  refine ⟨?_, ?_, ?_, ?_⟩
  · rw [h19, h16]
    congr 1
    ac_rfl
  · rw [h18]
    congr 1
    ac_rfl
  · rw [h17]
    congr 1
    ac_rfl
  · rw [h16]
    congr 1
    ac_rfl

/-! ## SHA-256 -/

/-- Four words from an index on, the first in the lowest lane. -/
def sha256Words (W : ℕ → Word) (t : ℕ) : XmmWords :=
  { w0 := W t, w1 := W (t + 1), w2 := W (t + 2), w3 := W (t + 3) }

/-- The state that the two registers hold. -/
def sha256State (abef cdgh : XmmWords) : Sha256.State :=
  { a := abef.w3, b := abef.w2, c := cdgh.w3, d := cdgh.w2
    e := abef.w1, f := abef.w0, g := cdgh.w1, h := cdgh.w0 }

theorem sha256State_surjective (s : Sha256.State) : ∃ abef cdgh, sha256State abef cdgh = s :=
  ⟨⟨s.f, s.e, s.b, s.a⟩, ⟨s.h, s.g, s.d, s.c⟩, rfl⟩

/-- The first `n` times `sha256rnds2`. The register that is written held `CDGH` and holds `ABEF`;
the other one is `CDGH` then. The upper lanes of `xmm0` are arbitrary. -/
def sha256Groups (K W : ℕ → Word) (upper : ℕ → Word) :
    ℕ → XmmWords × XmmWords → Option (XmmWords × XmmWords)
  | 0, regs => some regs
  | n + 1, regs => do
    let (abef, cdgh) ← sha256Groups K W upper n regs
    let xmm0 : XmmWords :=
      { w0 := W (2 * n) + K (2 * n), w1 := W (2 * n + 1) + K (2 * n + 1)
        w2 := upper (2 * n), w3 := upper (2 * n + 1) }
    let next ← executeShaNiInsn (shaNiInsn 0x38 0xcb 0) abef xmm0 cdgh
    some (next, abef)

theorem sha256Sum0_eq (x : Word) : sha256Sum0 x = Sha256.Sigma0 x := by
  unfold sha256Sum0 Sha256.Sigma0
  rw [rotr32_eq (by omega), rotr32_eq (by omega), rotr32_eq (by omega)]

theorem sha256Sum1_eq (x : Word) : sha256Sum1 x = Sha256.Sigma1 x := by
  unfold sha256Sum1 Sha256.Sigma1
  rw [rotr32_eq (by omega), rotr32_eq (by omega), rotr32_eq (by omega)]

theorem sha256Sigma0_eq (x : Word) : sha256Sigma0 x = sigma0 x := by
  unfold sha256Sigma0 sigma0
  rw [rotr32_eq (by omega), rotr32_eq (by omega)]

theorem sha256Sigma1_eq (x : Word) : sha256Sigma1 x = sigma1 x := by
  unfold sha256Sigma1 sigma1
  rw [rotr32_eq (by omega), rotr32_eq (by omega)]

/-- The eight variables of the loop. -/
def sha256Tuple (s : Sha256.State) : Word × Word × Word × Word × Word × Word × Word × Word :=
  (s.a, s.b, s.c, s.d, s.e, s.f, s.g, s.h)

theorem sha256Rnds2Round_eq (K w : Word) (s : Sha256.State) :
    sha256Rnds2Round (w + K) (sha256Tuple s) = sha256Tuple (Sha256.round K w s) := by
  have hch : sha256Ch s.e s.f s.g = Ch s.e s.f s.g := rfl
  have hmaj : sha256Maj s.a s.b s.c = Maj s.a s.b s.c := rfl
  simp only [sha256Rnds2Round, sha256Tuple, Sha256.round, sha256Sum0_eq, sha256Sum1_eq, hch, hmaj,
    Prod.mk.injEq, and_true, true_and]
  constructor
  · ring
  · ring

theorem sha256Rnds2_spec (K0 w0 K1 w1 w2 w3 : Word) (abef cdgh : XmmWords) :
    sha256State (sha256Rnds2 cdgh abef ⟨w0 + K0, w1 + K1, w2, w3⟩) abef =
      round K1 w1 (round K0 w0 (sha256State abef cdgh)) := by
  have hloop : [w0 + K0, w1 + K1].foldl (fun s wk => sha256Rnds2Round wk s)
      (sha256Tuple (sha256State abef cdgh)) =
      sha256Tuple (round K1 w1 (round K0 w0 (sha256State abef cdgh))) := by
    rw [foldl_cons, foldl_cons, foldl_nil, sha256Rnds2Round_eq, sha256Rnds2Round_eq]
  unfold sha256Rnds2
  simp only [sha256Tuple, sha256State] at hloop ⊢
  rw [hloop]
  rfl

/-- **SHA-256**: `n` instructions are `2 * n` rounds. -/
theorem sha256Groups_spec (K upper : ℕ → Word) (n : ℕ) (abef cdgh : XmmWords) :
    ∃ abef' cdgh', sha256Groups K W upper n (abef, cdgh) = some (abef', cdgh') ∧
      sha256State abef' cdgh' = rounds K W (2 * n) (sha256State abef cdgh) := by
  induction n with
  | zero => exact ⟨abef, cdgh, rfl, rfl⟩
  | succ n ih =>
    obtain ⟨abef', cdgh', hrun, hstate⟩ := ih
    have hnext := sha256Rnds2_spec (K (2 * n)) (W (2 * n)) (K (2 * n + 1)) (W (2 * n + 1))
      (upper (2 * n)) (upper (2 * n + 1)) abef' cdgh'
    rw [hstate] at hnext
    refine ⟨_, abef', ?_, hnext⟩
    unfold sha256Groups
    rw [hrun]
    rfl

def paddd (x y : XmmWords) : XmmWords :=
  { w0 := x.w0 + y.w0, w1 := x.w1 + y.w1, w2 := x.w2 + y.w2, w3 := x.w3 + y.w3 }

/-- `palignr` by one lane. -/
def palignr4 (high low : XmmWords) : XmmWords :=
  { w0 := low.w1, w1 := low.w2, w2 := low.w3, w3 := high.w0 }

/-- The sequence that makes the next four words out of sixteen. -/
def sha256Extend (xmm0 msg0 msg1 msg2 msg3 : XmmWords) : Option XmmWords := do
  let msg0 ← executeShaNiInsn (shaNiInsn 0x38 0xcc 0) msg1 xmm0 msg0
  executeShaNiInsn (shaNiInsn 0x38 0xcd 0) msg3 xmm0 (paddd msg0 (palignr4 msg3 msg2))

theorem sha256Extend_spec (m : ℕ → Word) (xmm0 : XmmWords) (t : ℕ) :
    let words := sha256Words (Sha256.schedule m)
    sha256Extend xmm0 (words t) (words (t + 4)) (words (t + 8)) (words (t + 12)) =
      some (words (t + 16)) := by
  intro words
  have hrun : sha256Extend xmm0 (words t) (words (t + 4)) (words (t + 8)) (words (t + 12)) =
      some (sha256Msg2 (paddd (sha256Msg1 (words t) (words (t + 4)))
        (palignr4 (words (t + 12)) (words (t + 8)))) (words (t + 12))) := rfl
  have h16 := Sha256.schedule_add m t
  have h17 := Sha256.schedule_add m (t + 1)
  have h18 := Sha256.schedule_add m (t + 2)
  have h19 := Sha256.schedule_add m (t + 3)
  rw [hrun]
  simp only [words, sha256Msg2, sha256Msg1, paddd, palignr4, sha256Words, sha256Sigma0_eq,
    sha256Sigma1_eq, Option.some.injEq, XmmWords.mk.injEq, add_assoc, Nat.reduceAdd] at *
  refine ⟨?_, ?_, ?_, ?_⟩
  · rw [h16]
    ac_rfl
  · rw [h17]
    ac_rfl
  · rw [h18, h16]
    ac_rfl
  · rw [h19, h17]
    ac_rfl

/-- `imm8` of a group of SHA-1: five groups make a stage. -/
def sha1Selector (i : ℕ) : Byte := BitVec.ofNat 8 (i / 5)

/-- **The emulated instructions chain to the hash functions.** -/
theorem sha_instructions_chain :
    (∀ s, ∃ abcd earlier, sha1State abcd earlier = s) ∧
    (∀ (W : ℕ → Word) (imm8 : ℕ → Byte) (xmm0 : XmmWords) (n : ℕ) (abcd earlier : XmmWords),
      ∃ abcd' earlier', sha1Groups imm8 W xmm0 n (abcd, earlier) = some (abcd', earlier') ∧
        sha1State abcd' earlier' = Sha1.rounds (fun t => (imm8 (t / 4)).toNat % 4) W (4 * n)
          (sha1State abcd earlier)) ∧
    (∀ (W : ℕ → Word) (xmm0 : XmmWords) (n : ℕ) (abcd earlier : XmmWords),
      ∃ abcd' earlier', sha1Groups sha1Selector W xmm0 n (abcd, earlier) =
          some (abcd', earlier') ∧
        sha1State abcd' earlier' = Sha1.rounds (fun t => t / 20) W (4 * n)
          (sha1State abcd earlier)) ∧
    (∀ s, ∃ abef cdgh, sha256State abef cdgh = s) ∧
    (∀ (K W upper : ℕ → Word) (n : ℕ) (abef cdgh : XmmWords),
      ∃ abef' cdgh', sha256Groups K W upper n (abef, cdgh) = some (abef', cdgh') ∧
        sha256State abef' cdgh' = Sha256.rounds K W (2 * n) (sha256State abef cdgh)) ∧
    (∀ (m : ℕ → Word) (xmm0 : XmmWords) (t : ℕ),
      sha1Extend xmm0 (sha1Words (Sha1.schedule m) t) (sha1Words (Sha1.schedule m) (t + 4))
          (sha1Words (Sha1.schedule m) (t + 8)) (sha1Words (Sha1.schedule m) (t + 12)) =
        some (sha1Words (Sha1.schedule m) (t + 16))) ∧
    (∀ (m : ℕ → Word) (xmm0 : XmmWords) (t : ℕ),
      sha256Extend xmm0 (sha256Words (Sha256.schedule m) t)
          (sha256Words (Sha256.schedule m) (t + 4)) (sha256Words (Sha256.schedule m) (t + 8))
          (sha256Words (Sha256.schedule m) (t + 12)) =
        some (sha256Words (Sha256.schedule m) (t + 16))) := by
  refine ⟨sha1State_surjective, ?_, ?_, sha256State_surjective, ?_, sha1Extend_spec,
    sha256Extend_spec⟩
  · intro W imm8 xmm0 n abcd earlier
    exact sha1Groups_spec imm8 xmm0 n abcd earlier
  · intro W xmm0 n abcd earlier
    obtain ⟨abcd', earlier', hrun, hstate⟩ := sha1Groups_spec sha1Selector xmm0 n abcd earlier
    refine ⟨abcd', earlier', hrun, ?_⟩
    rw [hstate]
    apply Sha1.rounds_congr
    intro t
    -- a group has four of the twenty rounds of its stage
    unfold sha1Selector
    rw [BitVec.toNat_ofNat]
    omega
  · intro K W upper n abef cdgh
    exact sha256Groups_spec K upper n abef cdgh

end MagnusPS5.Loader
