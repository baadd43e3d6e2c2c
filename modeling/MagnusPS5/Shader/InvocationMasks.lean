/-
The masks of one invocation.

In per-invocation mode a mask is true of an invocation when its word is not zero. `Agrees`
says that what the invocation of a lane sees is the bit of that lane in the masks of the
wave; a scalar register counts as a mask from the instruction on that writes it as one. The
instructions that combine words as words keep this only for words that encode their truth
in a way the operation respects (`Encodes`); the others keep it always.
-/
import MagnusPS5.Shader.WaveMasks
import Mathlib

namespace MagnusPS5.Shader.LaneMasks

open Function (update)
open Bitwise Function BitVec Wave State Translator

/-! ## Words as truth values -/

/-- The words for which the operation on words is the operation on their truth. -/
def Encodes : Bitwise → Word → Word → Prop
  | .and, lhs, rhs => lhs ≠ 0 → rhs ≠ 0 → ∃ i, lhs.getLsbD i = true ∧ rhs.getLsbD i = true
  | .or, _, _ => True
  | .xor, lhs, rhs => lhs ≠ 0 → rhs ≠ 0 → lhs = rhs
  | .andNot, lhs, rhs =>
    lhs ≠ 0 → rhs ≠ 0 → ∀ i, lhs.getLsbD i = true → rhs.getLsbD i = true
  | .orNot, lhs, rhs => lhs = 0 → rhs ≠ 0 → rhs = BitVec.allOnes 32
  | .nand, lhs, rhs =>
    lhs ≠ 0 → rhs ≠ 0 → lhs = BitVec.allOnes 32 ∧ rhs = BitVec.allOnes 32
  | .nor, lhs, rhs =>
    lhs ≠ 0 ∨ rhs ≠ 0 → ∀ i < 32, lhs.getLsbD i = true ∨ rhs.getLsbD i = true
  | .xnor, lhs, rhs =>
    (lhs = 0 → rhs ≠ 0 → rhs = BitVec.allOnes 32) ∧
      (rhs = 0 → lhs ≠ 0 → lhs = BitVec.allOnes 32) ∧
      (lhs ≠ 0 → rhs ≠ 0 → lhs ≠ ~~~rhs)
  | .not, lhs, _ => lhs ≠ 0 → lhs = BitVec.allOnes 32

theorem ne_zero_iff (word : Word) : word ≠ 0 ↔ ∃ i, word.getLsbD i = true := by
  constructor
  · intro h
    by_contra hnone
    refine h (eq_of_getLsbD_eq fun i _ => ?_)
    simpa using fun hi => hnone ⟨i, hi⟩
  · rintro ⟨i, hi⟩ rfl
    simp at hi

theorem not_eq_zero_iff (word : Word) : ~~~word = 0 ↔ word = .allOnes 32 := by
  rw [not_eq_comm]
  rfl

theorem and_ne_zero_iff (lhs rhs : Word) :
    lhs &&& rhs ≠ 0 ↔ ∃ i, lhs.getLsbD i = true ∧ rhs.getLsbD i = true := by
  rw [ne_zero_iff]
  simp

theorem xor_eq_zero_iff (lhs rhs : Word) : lhs ^^^ rhs = 0 ↔ lhs = rhs := BitVec.xor_eq_zero_iff

theorem or_ne_zero_iff (lhs rhs : Word) : lhs ||| rhs ≠ 0 ↔ lhs ≠ 0 ∨ rhs ≠ 0 :=
  (not_congr or_eq_zero_iff).trans not_and_or

theorem eq_allOnes_iff (word : Word) : word = .allOnes 32 ↔ ∀ i < 32, word.getLsbD i = true := by
  constructor
  · rintro rfl i hi
    rw [getLsbD_allOnes, decide_eq_true hi]
  · intro h
    refine eq_of_getLsbD_eq fun i hi => ?_
    rw [h i hi, getLsbD_allOnes, decide_eq_true hi]

theorem or_eq_allOnes_iff (lhs rhs : Word) :
    lhs ||| rhs = .allOnes 32 ↔
      ∀ i < 32, lhs.getLsbD i = true ∨ rhs.getLsbD i = true := by
  simp only [eq_allOnes_iff, getLsbD_or, Bool.or_eq_true]

theorem and_not_eq_zero_iff (lhs rhs : Word) :
    lhs &&& ~~~rhs = 0 ↔ ∀ i, lhs.getLsbD i = true → rhs.getLsbD i = true := by
  rw [← not_iff_not, ← ne_eq, and_ne_zero_iff]
  push Not
  refine exists_congr fun i => and_congr_right fun hl => ?_
  have hi := lt_of_getLsbD hl
  simp [hi]

theorem xor_decide_iff (p q : Prop) [Decidable p] [Decidable q] :
    (!decide p ^^ !decide q) = true ↔ ¬ (p ↔ q) := by
  by_cases hp : p
  · by_cases hq : q <;> simp [hp, hq]
  · by_cases hq : q <;> simp [hp, hq]

theorem logical_xor_iff (lhs rhs : Word) :
    ((lhs != 0) ^^ (rhs != 0)) = true ↔ ¬ (lhs = 0 ↔ rhs = 0) := by
  rw [bne, bne, beq_eq_decide, beq_eq_decide]
  exact xor_decide_iff (lhs = 0) (rhs = 0)

theorem encodes_iff (op : Bitwise) (lhs rhs : Word) :
    (op.word lhs rhs != 0) = op.logical (lhs != 0) (rhs != 0) ↔ Encodes op lhs rhs := by
  rw [Bool.eq_iff_iff, bne_iff_ne]
  cases op with
  | and =>
    have hand := and_ne_zero_iff lhs rhs
    simp only [word, logical, Encodes, Bool.and_eq_true, bne_iff_ne, ← hand]
    grind
  | or =>
    simp only [word, logical, Encodes, Bool.or_eq_true, bne_iff_ne, or_ne_zero_iff]
  | xor =>
    simp only [word, logical, Encodes, ne_eq, xor_eq_zero_iff, logical_xor_iff]
    grind
  | andNot =>
    have hand := and_not_eq_zero_iff lhs rhs
    simp only [word, logical, Encodes, Bool.and_eq_true, bne_iff_ne,
      Bool.not_eq_true', bne_eq_false_iff_eq, ← hand]
    grind
  | orNot =>
    have hnot := not_eq_zero_iff rhs
    simp only [word, logical, Encodes, Bool.or_eq_true, bne_iff_ne,
      Bool.not_eq_true', bne_eq_false_iff_eq, or_ne_zero_iff, ne_eq, hnot]
    grind
  | nand =>
    have hnot := not_eq_zero_iff (lhs &&& rhs)
    rw [and_eq_allOnes_iff] at hnot
    simp only [word, logical, Encodes, Bool.not_eq_true', Bool.and_eq_false_iff,
      bne_eq_false_iff_eq, ne_eq, hnot]
    grind
  | nor =>
    have hnot := not_eq_zero_iff (lhs ||| rhs)
    have hor := or_eq_allOnes_iff lhs rhs
    simp only [word, logical, Encodes, Bool.not_eq_true', Bool.or_eq_false_iff,
      bne_eq_false_iff_eq, ne_eq, hnot, ← hor]
    grind
  | xnor =>
    have hnot : ~~~(lhs ^^^ rhs) = 0 ↔ lhs = ~~~rhs := by
      rw [not_xor_right]
      exact xor_eq_zero_iff lhs (~~~rhs)
    have hleft : lhs = 0 → (lhs = ~~~rhs ↔ rhs = .allOnes 32) := fun h => by
      rw [h, eq_comm]
      exact not_eq_zero_iff rhs
    have hlogical := not_congr (logical_xor_iff lhs rhs)
    rw [Bool.not_eq_true] at hlogical
    simp only [word, logical, Encodes, Bool.not_eq_true', ne_eq, hnot, hlogical]
    grind
  | not =>
    have hnot := not_eq_zero_iff lhs
    simp only [word, logical, Encodes, Bool.not_eq_true', bne_eq_false_iff_eq, ne_eq, hnot]
    grind

/-! ## What an invocation sees -/

/-- The translator for one invocation of a wave, on the lane `lane`. -/
def invocation (n lane : ℕ) : Translator Unit where
  current_per_invocation_masks := true
  current_wave_size := n
  LaneId := fun _ => lane
  Ballot := fun _ => (0, 0)

/-- The registers that hold masks behind an instruction. In wave64 a mask takes a pair, and a
write to one register of a pair leaves no mask there. -/
def masksAfter (n : ℕ) (masks : ℕ → Bool) : Instruction → ℕ → Bool
  | .moveU32 dst _ | .moveU64 dst _ | .bitwiseU32 _ dst _ _ | .bitwiseU64 _ dst _ _
  | .saveexecB32 _ dst _ | .saveexecB64 _ dst _ | .compare dst _ | .selectU32 dst _ _
  | .selectU64 dst _ _ =>
    if dst.file = .scalar then fun reg =>
      reg = dst.index ∨
        masks reg ∧ (n = 64 → reg + 1 ≠ dst.index ∧ reg ≠ dst.index + 1)
    else masks
  | .sccNonZeroU32 _ | .sccNonZeroU64 _ => masks

/-- What the invocation of a lane sees is the bit of the lane. -/
structure Agrees (lane : ℕ) (masks : ℕ → Bool) (s : State Unit) (w : Wave) : Prop where
  exec : s.exec () = laneBit w.exec_lo w.exec_hi lane
  exec_lo : (s.exec_lo () != 0) = laneBit w.exec_lo w.exec_hi lane
  vcc : s.vcc () = laneBit w.vcc_lo w.vcc_hi lane
  vcc_lo : (s.vcc_lo () != 0) = laneBit w.vcc_lo w.vcc_hi lane
  scalar : ∀ reg, masks reg = true →
    (s.scalar reg () != 0) = laneBit (w.scalar reg) (w.scalar (reg + 1)) lane

/-- A mask goes to EXEC, VCC or scalar registers; a pair is named by its first half. -/
def MaskDst (dst : Register) : Prop :=
  match dst.file with
  | .exec | .vcc => dst.index = 0
  | .scalar => True
  | .scc | .m0 => False

/-- A source is a mask, or an immediate that stands for the same truth value in every lane. -/
def MaskSrc (lane : ℕ) (masks : ℕ → Bool) : Operand → Prop
  | .register ⟨.exec, index, _⟩ | .register ⟨.vcc, index, _⟩ => index = 0
  | .register ⟨.scalar, reg, _⟩ => masks reg = true
  | .register ⟨.scc, _, _⟩ | .register ⟨.m0, _, _⟩ => False
  | .immediateU32 imm sext_64 =>
    laneBit imm (if sext_64 then 0xffffffff else 0) lane = (imm != 0) ∧
      (sext_64 = true → imm ≠ 0)

/-- The bitwise operation that a SAVEEXEC mode is. -/
def SaveexecMode.Encodes : SaveexecMode → Word → Word → Prop
  | and, old_value, src_value => LaneMasks.Encodes .and old_value src_value
  | andn1, old_value, src_value => LaneMasks.Encodes .andNot old_value src_value
  | orn2, old_value, src_value => LaneMasks.Encodes .orNot src_value old_value

/-- When an instruction acts on the truth of masks as it acts on their bits: it has the width of
the wave, its operands are masks, and words that it combines encode their truth. -/
def Acts (n lane : ℕ) (masks : ℕ → Bool) (s : State Unit) (w : Wave) : Instruction → Prop
  | .moveU32 dst src => n = 32 ∧ MaskDst dst ∧ MaskSrc lane masks src
  | .moveU64 dst src => n = 64 ∧ MaskDst dst ∧ MaskSrc lane masks src
  | .bitwiseU32 op dst src0 src1 =>
    n = 32 ∧ MaskDst dst ∧ MaskSrc lane masks src0 ∧ MaskSrc lane masks src1 ∧
      Encodes op (Translator.ReadRawU32 s src0 ()) (Translator.ReadRawU32 s src1 ())
  | .bitwiseU64 _ dst src0 src1 =>
    n = 64 ∧ MaskDst dst ∧ MaskSrc lane masks src0 ∧ MaskSrc lane masks src1
  | .saveexecB32 mode dst src =>
    n = 32 ∧ MaskDst dst ∧ MaskSrc lane masks src ∧
      mode.Encodes (s.exec_lo ()) (Translator.ReadRawU32 s src ())
  | .saveexecB64 mode dst src =>
    n = 64 ∧ MaskDst dst ∧ MaskSrc lane masks src ∧
      mode.Encodes (s.exec_lo ()) (Translator.ReadRawU32 s src ())
  | .compare dst _ => MaskDst dst
  | .selectU32 dst src1 src2 =>
    n = 32 ∧ MaskDst dst ∧ MaskSrc lane masks src1 ∧ MaskSrc lane masks src2 ∧
      s.scc () = w.scc
  | .selectU64 dst src1 src2 =>
    n = 64 ∧ MaskDst dst ∧ MaskSrc lane masks src1 ∧ MaskSrc lane masks src2 ∧
      s.scc () = w.scc
  | .sccNonZeroU32 _ | .sccNonZeroU64 _ => True

/-! ## Bits of the wave -/

theorem laneBit_word (op : Bitwise) (a a' b b' : Word) {lane : ℕ} (h : lane < 64) :
    laneBit (op.word a b) (op.word a' b') lane =
      op.logical (laneBit a a' lane) (laneBit b b' lane) := by
  have hword (a b : Word) (k : ℕ) (hk : k < 32) :
      (op.word a b).getLsbD k = op.logical (a.getLsbD k) (b.getLsbD k) := by
    cases op <;> simp [word, logical, hk]
  unfold laneBit
  split
  next hlow =>
    exact hword a b lane hlow
  · exact hword a' b' (lane - 32) (by omega)

theorem apply_eq_word (mode : SaveexecMode) : ∃ op : Bitwise, ∃ swap : Bool,
    (∀ old src, mode.apply old src = if swap then op.word src old else op.word old src) ∧
    (∀ old src, mode.Encodes old src ↔
      if swap then Encodes op src old else Encodes op old src) := by
  cases mode with
  | and => exact ⟨.and, false, fun _ _ => rfl, fun _ _ => .rfl⟩
  | andn1 => exact ⟨.andNot, false, fun _ _ => rfl, fun _ _ => .rfl⟩
  | orn2 => exact ⟨.orNot, true, fun old src => or_comm _ _, fun _ _ => .rfl⟩

theorem saveexec_truth (mode : SaveexecMode) {old src a a' b b' : Word} {lane : ℕ}
    (hlane : lane < 64) (hold : (old != 0) = laneBit a a' lane)
    (hsrc : (src != 0) = laneBit b b' lane) (hencodes : mode.Encodes old src) :
    (mode.apply old src != 0) = laneBit (mode.apply a b) (mode.apply a' b') lane := by
  obtain ⟨op, swap, happly, hmode⟩ := apply_eq_word mode
  have hop := (hmode old src).mp hencodes
  rw [happly, happly, happly]
  cases swap with
  | false =>
    simp only [Bool.false_eq_true, if_false] at hop ⊢
    rw [laneBit_word op a a' b b' hlane, ← hold, ← hsrc]
    exact (encodes_iff op old src).mpr hop
  | true =>
    simp only [if_true] at hop ⊢
    rw [laneBit_word op b b' a a' hlane, ← hold, ← hsrc]
    exact (encodes_iff op src old).mpr hop

/-! ## Writes -/

/-- The masks as truth values. -/
structure View where
  exec : Bool
  vcc : Bool
  scalar : ℕ → Bool

/-- The bits of a lane. -/
def Wave.view (lane : ℕ) (w : Wave) : View where
  exec := laneBit w.exec_lo w.exec_hi lane
  vcc := laneBit w.vcc_lo w.vcc_hi lane
  scalar := fun reg => laneBit (w.scalar reg) (w.scalar (reg + 1)) lane

/-- The words of the invocation. -/
def State.view (s : State Unit) : View where
  exec := s.exec_lo () != 0
  vcc := s.vcc_lo () != 0
  scalar := fun reg => s.scalar reg () != 0

/-- One mask is set, and the others are as they were, but for what overlaps it. -/
structure Sets (n : ℕ) (dst : Register) (truth : Bool) (v v' : View) : Prop where
  exec : v'.exec = if dst.file = .exec then truth else v.exec
  vcc : v'.vcc = if dst.file = .vcc then truth else v.vcc
  scalar : dst.file = .scalar → v'.scalar dst.index = truth
  other : ∀ reg, (dst.file = .scalar →
    reg ≠ dst.index ∧ (n = 64 → reg + 1 ≠ dst.index ∧ reg ≠ dst.index + 1)) →
      v'.scalar reg = v.scalar reg

/-- The booleans of the invocation are the truth of its words. -/
def Tested (s : State Unit) : Prop :=
  s.exec () = (s.exec_lo () != 0) ∧ s.vcc () = (s.vcc_lo () != 0)

section Invocation

variable {n lane : ℕ} {masks : ℕ → Bool} {s : State Unit} {w : Wave}

theorem Agrees.tested (h : Agrees lane masks s w) : Tested s :=
  ⟨h.exec.trans h.exec_lo.symm, h.vcc.trans h.vcc_lo.symm⟩

variable {dst : Register}

theorem Agrees.sets (h : Agrees lane masks s w) {s' : State Unit} {w' : Wave}
    {truth : Bool} (hs : Sets n dst truth s.view s'.view) (htested : Tested s')
    (hw : Sets n dst truth (w.view lane) (w'.view lane)) {inst : Instruction}
    (hinst : masksAfter n masks inst = if dst.file = .scalar then fun reg =>
      decide (reg = dst.index ∨
        masks reg ∧ (n = 64 → reg + 1 ≠ dst.index ∧ reg ≠ dst.index + 1)) else masks) :
    Agrees lane (masksAfter n masks inst) s' w' := by
  have hexec : s'.view.exec = (w'.view lane).exec := by
    rw [hs.exec, hw.exec]
    split
    · rfl
    · exact h.exec_lo
  have hvcc : s'.view.vcc = (w'.view lane).vcc := by
    rw [hs.vcc, hw.vcc]
    split
    · rfl
    · exact h.vcc_lo
  refine ⟨htested.1.trans hexec, hexec, htested.2.trans hvcc, hvcc, fun reg hreg => ?_⟩
  show s'.view.scalar reg = (w'.view lane).scalar reg
  rw [hinst] at hreg
  by_cases hfile : dst.file = .scalar
  · rw [if_pos hfile] at hreg
    rcases of_decide_eq_true hreg with rfl | ⟨hmask, hapart⟩
    · rw [hs.scalar hfile, hw.scalar hfile]
    · by_cases hsame : reg = dst.index
      · rw [hsame, hs.scalar hfile, hw.scalar hfile]
      · rw [hs.other reg fun _ => ⟨hsame, hapart⟩, hw.other reg fun _ => ⟨hsame, hapart⟩]
        exact h.scalar reg hmask
  · rw [if_neg hfile] at hreg
    rw [hs.other reg fun hf => absurd hf hfile, hw.other reg fun hf => absurd hf hfile]
    exact h.scalar reg hreg

theorem laneBit_wave32 (h : lane < 32) (low high high' : Word) :
    laneBit low high lane = laneBit low high' lane := by
  rw [laneBit, laneBit, if_pos h, if_pos h]

theorem write32_sets (hlane : lane < 32) (dst : Register) (hdst : MaskDst dst) (value high : Word) :
    Sets 32 dst (laneBit value high lane) (w.view lane)
      ((w.write32 dst.file dst.index value).view lane) := by
  obtain ⟨file, index, hbound⟩ := dst
  cases file with
  | scc | m0 => exact hdst.elim
  | exec | vcc =>
    obtain rfl : index = 0 := hdst
    refine ⟨?_, ?_, fun hf => absurd hf (by simp), fun _ _ => ?_⟩
    all_goals simp [Wave.write32, Wave.view]
    all_goals exact laneBit_wave32 hlane _ _ _
  | scalar =>
    refine ⟨rfl, rfl, fun _ => ?_, fun reg hreg => ?_⟩
    · simp only [Wave.write32, Wave.view, update_self]
      exact laneBit_wave32 hlane _ _ _
    · obtain ⟨hne, -⟩ := hreg rfl
      simp only [Wave.write32, Wave.view, update_of_ne hne]
      exact laneBit_wave32 hlane _ _ _

theorem write64_sets (lane : ℕ) (w : Wave) (dst : Register) (hdst : MaskDst dst) (low high : Word) :
    Sets 64 dst (laneBit low high lane) (w.view lane) ((w.write64 dst low high).view lane) := by
  obtain ⟨file, index, hbound⟩ := dst
  cases file with
  | scc | m0 => exact hdst.elim
  | exec | vcc => exact ⟨rfl, rfl, fun hf => (nomatch hf), fun _ _ => rfl⟩
  | scalar =>
    refine ⟨rfl, rfl, fun _ => ?_, fun reg hreg => ?_⟩
    · have hne : index ≠ index + 1 := by omega
      simp only [Wave.write64, Wave.write32, Wave.view, update_self, update_of_ne hne]
    · obtain ⟨hne, hapart⟩ := hreg rfl
      obtain ⟨hbelow, habove⟩ := hapart rfl
      have hnext : reg + 1 ≠ index + 1 := by
        dsimp only at hne
        omega
      simp only [Wave.write64, Wave.write32, Wave.view, update_of_ne hne,
        update_of_ne hbelow, update_of_ne habove, update_of_ne hnext]

theorem writeMask_sets (hn : n = 32 ∨ n = 64) (hlane : lane < n) (dst : Register)
    (hdst : MaskDst dst) (value : ℕ → Bool) :
    Sets n dst (value lane) (w.view lane) ((w.writeMask n dst value).view lane) := by
  rcases hn with rfl | rfl
  · have hset := write32_sets (w := w) hlane dst hdst (maskWord 0 value) 0
    rw [laneBit_low value 0 hlane] at hset
    have hwrite : w.writeMask 32 dst value = w.write32 dst.file dst.index (maskWord 0 value) := by
      obtain ⟨file, index, hbound⟩ := dst
      cases file with
      | scc | m0 => exact hdst.elim
      | scalar => rfl
      | exec | vcc =>
        obtain rfl : index = 0 := hdst
        rfl
    rw [hwrite]
    exact hset
  · have hset := write64_sets lane w dst hdst (maskWord 0 value) (maskWord 32 value)
    rwa [laneBit_maskWord value hlane] at hset

theorem writeU32_sets (n lane : ℕ) (h : Tested s) (dst : Register) (hdst : MaskDst dst)
    (value : Unit → Word) :
    Sets 32 dst (value () != 0) s.view ((invocation n lane).WriteU32 dst value s).view ∧
      Tested ((invocation n lane).WriteU32 dst value s) := by
  obtain ⟨file, index, hbound⟩ := dst
  cases file with
  | scc | m0 => exact hdst.elim
  | exec =>
    obtain rfl : index = 0 := hdst
    exact ⟨⟨rfl, rfl, fun hf => (nomatch hf), fun _ _ => rfl⟩, rfl, h.2⟩
  | vcc =>
    obtain rfl : index = 0 := hdst
    exact ⟨⟨rfl, rfl, fun hf => (nomatch hf), fun _ _ => rfl⟩, h.1, rfl⟩
  | scalar =>
    refine ⟨⟨rfl, rfl, fun _ => ?_, fun reg hreg => ?_⟩, h⟩
    · simp [Translator.WriteU32, Translator.WriteRegister, State.view]
    · simp [Translator.WriteU32, Translator.WriteRegister, State.view, update_of_ne (hreg rfl).1]

theorem writeU64_sets (n lane : ℕ) (h : Tested s) (dst : Register) (hdst : MaskDst dst)
    (low high : Unit → Word) :
    Sets 64 dst (low () != 0) s.view ((invocation n lane).WriteU64 dst low high s).view ∧
      Tested ((invocation n lane).WriteU64 dst low high s) := by
  obtain ⟨file, index, hbound⟩ := dst
  cases file with
  | scc | m0 => exact hdst.elim
  | exec => exact ⟨⟨rfl, rfl, fun hf => (nomatch hf), fun _ _ => rfl⟩, rfl, h.2⟩
  | vcc => exact ⟨⟨rfl, rfl, fun hf => (nomatch hf), fun _ _ => rfl⟩, h.1, rfl⟩
  | scalar =>
    refine ⟨⟨rfl, rfl, fun _ => ?_, fun reg hreg => ?_⟩, h⟩
    · simp [Translator.WriteU64, Translator.WriteRegister, State.view]
    · obtain ⟨hne, hapart⟩ := hreg rfl
      simp [Translator.WriteU64, Translator.WriteRegister, State.view,
        update_of_ne hne, update_of_ne (hapart rfl).2]

theorem selectBit_ne_zero (value : Unit → Bool) : (selectBit value () != 0) = value () := by
  unfold selectBit
  cases value () <;> rfl

theorem writeMask_invocation_sets (lane : ℕ) (hn : n = 32 ∨ n = 64) (h : Tested s) (dst : Register)
    (hdst : MaskDst dst) (value : Unit → Bool) :
    Sets n dst (value ()) s.view ((invocation n lane).WriteMask dst value s).view ∧
      Tested ((invocation n lane).WriteMask dst value s) := by
  have hbit := selectBit_ne_zero value
  obtain ⟨file, index, hbound⟩ := dst
  cases file with
  | scc | m0 => exact hdst.elim
  | exec => exact ⟨⟨hbit, rfl, fun hf => (nomatch hf), fun _ _ => rfl⟩, hbit.symm, h.2⟩
  | vcc => exact ⟨⟨rfl, hbit, fun hf => (nomatch hf), fun _ _ => rfl⟩, h.1, hbit.symm⟩
  | scalar =>
    have hne : index ≠ index + 1 := by omega
    refine ⟨⟨rfl, rfl, fun _ => ?_, fun reg hreg => ?_⟩, h⟩
    · rcases hn with rfl | rfl
      · simpa [Translator.WriteMask, Translator.SetScalarMask, State.view, invocation,
          Translator.BallotMask] using hbit
      · simpa [Translator.WriteMask, Translator.SetScalarMask, State.view, invocation,
          Translator.BallotMask, hbound, update_of_ne hne] using hbit
    · obtain ⟨hreg', hapart⟩ := hreg rfl
      rcases hn with rfl | rfl
      · simp [Translator.WriteMask, Translator.SetScalarMask, State.view, invocation,
          update_of_ne hreg']
      · simp [Translator.WriteMask, Translator.SetScalarMask, State.view, invocation,
          hbound, update_of_ne hreg', update_of_ne (hapart rfl).2]

/-! ## Reads -/

/-- The bit of the lane in a source. -/
def srcBit (lane : ℕ) (w : Wave) (src : Operand) : Bool :=
  laneBit (w.read64 src).1 (w.read64 src).2 lane

variable {src : Operand} {word word' : Word}

theorem readRawU32_truth (h : Agrees lane masks s w) (hsrc : MaskSrc lane masks src) :
    (Translator.ReadRawU32 s src () != 0) = srcBit lane w src := by
  cases src with
  | immediateU32 imm sext_64 => exact hsrc.1.symm
  | register reg =>
    obtain ⟨file, index, hbound⟩ := reg
    cases file with
    | scc | m0 => exact hsrc.elim
    | scalar => exact h.scalar index hsrc
    | exec =>
      obtain rfl : index = 0 := hsrc
      exact h.exec_lo
    | vcc =>
      obtain rfl : index = 0 := hsrc
      exact h.vcc_lo

theorem readU64_low (hsrc : MaskSrc lane masks src) :
    (Translator.ReadU64 s src).1 = Translator.ReadRawU32 s src := by
  cases src with
  | immediateU32 imm sext_64 => rfl
  | register reg =>
    obtain ⟨file, index, hbound⟩ := reg
    cases file with
    | scc | m0 => exact hsrc.elim
    | scalar => rfl
    | exec | vcc =>
      obtain rfl : index = 0 := hsrc
      rfl

theorem readMask_truth (h : Agrees lane masks s w) (hsrc : MaskSrc lane masks src) :
    (invocation n lane).ReadMask s src () = srcBit lane w src := by
  cases src with
  | immediateU32 imm sext_64 =>
    obtain ⟨hbit, hsext⟩ := hsrc
    refine Eq.trans ?_ hbit.symm
    show (imm != 0 || sext_64) = (imm != 0)
    cases sext_64 with
    | false => rw [Bool.or_false]
    | true =>
      have hne : (imm != 0) = true := bne_iff_ne.mpr (hsext rfl)
      rw [hne, Bool.true_or]
  | register reg =>
    obtain ⟨file, index, hbound⟩ := reg
    cases file with
    | scc | m0 => exact hsrc.elim
    | scalar => exact h.scalar index hsrc
    | exec => exact h.exec
    | vcc => exact h.vcc

theorem srcBit_wave32 (hlane : lane < 32) (hsrc : MaskSrc lane masks src)
    (high : Word) : laneBit (w.read32 src) high lane = srcBit lane w src := by
  have hlow : w.read32 src = (w.read64 src).1 := by
    cases src with
    | immediateU32 imm sext_64 => rfl
    | register reg =>
      obtain ⟨file, index, hbound⟩ := reg
      cases file with
      | scc | m0 => exact hsrc.elim
      | scalar => rfl
      | exec | vcc =>
        obtain rfl : index = 0 := hsrc
        rfl
  rw [hlow]
  exact laneBit_wave32 hlane _ _ _

/-! ## Instructions -/

theorem agrees_writeU32 (inst : Instruction) (h : Agrees lane masks s w) (hlane : lane < 32)
    (hdst : MaskDst dst) {value : Unit → Word} (hvalue : (value () != 0) = laneBit word 0 lane)
    (hinst : masksAfter 32 masks inst = if dst.file = .scalar then fun reg =>
      decide (reg = dst.index ∨
        masks reg ∧ (32 = 64 → reg + 1 ≠ dst.index ∧ reg ≠ dst.index + 1)) else masks) :
    Agrees lane (masksAfter 32 masks inst) ((invocation 32 lane).WriteU32 dst value s)
      (w.write32 dst.file dst.index word) := by
  obtain ⟨hsets, htested⟩ := writeU32_sets 32 lane h.tested dst hdst value
  rw [hvalue] at hsets
  exact h.sets hsets htested (write32_sets hlane dst hdst word 0) hinst

theorem agrees_writeU64 (inst : Instruction) (h : Agrees lane masks s w)
    (hdst : MaskDst dst) (high : Unit → Word) {low : Unit → Word}
    (hvalue : (low () != 0) = laneBit word word' lane)
    (hinst : masksAfter 64 masks inst = if dst.file = .scalar then fun reg =>
      decide (reg = dst.index ∨
        masks reg ∧ (64 = 64 → reg + 1 ≠ dst.index ∧ reg ≠ dst.index + 1)) else masks) :
    Agrees lane (masksAfter 64 masks inst) ((invocation 64 lane).WriteU64 dst low high s)
      (w.write64 dst word word') := by
  obtain ⟨hsets, htested⟩ := writeU64_sets 64 lane h.tested dst hdst low high
  rw [hvalue] at hsets
  exact h.sets hsets htested (write64_sets lane w dst hdst word word') hinst

theorem Agrees.saveexec (h : Agrees lane masks s w) {low high : Unit → Word}
    (hvalue : (low () != 0) = laneBit word word' lane) (scc : Unit → Bool) (scc' : Bool) :
    Agrees lane masks
      { s with
        exec_lo := low
        exec_hi := high
        exec := (invocation n lane).ThreadBit low high
        scc := scc }
      { w with exec_lo := word, exec_hi := word', scc := scc' } :=
  ⟨hvalue, hvalue, h.vcc, h.vcc_lo, h.scalar⟩

/-- **One instruction.** -/
theorem translateInstruction_agrees (hn : n = 32 ∨ n = 64) (hlane : lane < n)
    (h : Agrees lane masks s w) (inst : Instruction) (hacts : Acts n lane masks s w inst) :
    Agrees lane (masksAfter n masks inst) ((invocation n lane).TranslateInstruction inst s)
      (w.step n inst) := by
  cases inst with
  | sccNonZeroU32 | sccNonZeroU64 => exact ⟨h.exec, h.exec_lo, h.vcc, h.vcc_lo, h.scalar⟩
  | moveU32 dst src =>
    obtain ⟨rfl, hdst, hsrc⟩ := hacts
    have hbit := readRawU32_truth h hsrc
    rw [← srcBit_wave32 hlane hsrc 0] at hbit
    have hplain := agrees_writeU32 (.moveU32 dst src) h hlane hdst hbit rfl
    cases src with
    | immediateU32 imm sext_64 => exact hplain
    | register reg =>
      show Agrees lane _ (if _ then _ else _) _
      split
      · -- between EXEC and VCC the mask is moved as a boolean
        obtain ⟨hsets, htested⟩ := writeMask_invocation_sets lane hn h.tested dst hdst
          ((invocation 32 lane).ReadMask s (.register reg))
        have hmask := readMask_truth (n := 32) h hsrc
        rw [← srcBit_wave32 hlane hsrc 0] at hmask
        rw [hmask] at hsets
        exact h.sets hsets htested (write32_sets hlane dst hdst _ 0) rfl
      · exact hplain
  | moveU64 dst src =>
    obtain ⟨rfl, hdst, hsrc⟩ := hacts
    have hbit := readRawU32_truth h hsrc
    rw [← readU64_low hsrc] at hbit
    have hplain := agrees_writeU64 (.moveU64 dst src) h hdst (Translator.ReadU64 s src).2 hbit rfl
    cases src with
    | immediateU32 imm sext_64 => exact hplain
    | register reg =>
      show Agrees lane _ (if _ then _ else _) _
      split
      · exact ⟨hplain.exec, hplain.exec_lo, hplain.vcc, hplain.vcc_lo, hplain.scalar⟩
      · exact hplain
  | bitwiseU32 op dst src0 src1 =>
    obtain ⟨rfl, hdst, hsrc0, hsrc1, hencodes⟩ := hacts
    refine agrees_writeU32 _ h hlane hdst ?_ rfl
    have hzero : laneBit (op.word (w.read32 src0) (w.read32 src1)) 0 lane =
        laneBit (op.word (w.read32 src0) (w.read32 src1)) (op.word 0 0) lane :=
      laneBit_wave32 hlane _ _ _
    rw [hzero, laneBit_word op _ _ _ _ (by omega), srcBit_wave32 hlane hsrc0,
      srcBit_wave32 hlane hsrc1, ← readRawU32_truth h hsrc0, ← readRawU32_truth h hsrc1]
    exact (encodes_iff op _ _).mpr hencodes
  | bitwiseU64 op dst src0 src1 =>
    obtain ⟨rfl, hdst, hsrc0, hsrc1⟩ := hacts
    have hmode : (invocation 64 lane).WriteMask64 dst (fun i =>
        op.logical ((invocation 64 lane).ReadMask s src0 i)
          ((invocation 64 lane).ReadMask s src1 i)) s =
        (invocation 64 lane).WriteMask dst (fun i =>
          op.logical ((invocation 64 lane).ReadMask s src0 i)
            ((invocation 64 lane).ReadMask s src1 i)) s := by
      obtain ⟨file, index, hbound⟩ := dst
      cases file <;> rfl
    obtain ⟨hsets, htested⟩ := writeMask_invocation_sets lane hn h.tested dst hdst
      fun i => op.logical ((invocation 64 lane).ReadMask s src0 i)
        ((invocation 64 lane).ReadMask s src1 i)
    have hbit := laneBit_word op (w.read64 src0).1 (w.read64 src0).2 (w.read64 src1).1
      (w.read64 src1).2 hlane
    rw [readMask_truth h hsrc0, readMask_truth h hsrc1] at hsets
    have hwave := write64_sets lane w dst hdst
      (op.word (w.read64 src0).1 (w.read64 src1).1) (op.word (w.read64 src0).2 (w.read64 src1).2)
    rw [hbit] at hwave
    show Agrees lane _ ((invocation 64 lane).WriteMask64 dst _ s) _
    rw [hmode]
    exact h.sets hsets htested hwave rfl
  | saveexecB32 mode dst src =>
    obtain ⟨rfl, hdst, hsrc, hencodes⟩ := hacts
    have hold := h.exec_lo
    rw [laneBit_wave32 hlane w.exec_lo w.exec_hi 0] at hold
    have hwritten := agrees_writeU32 (.saveexecB32 mode dst src) h hlane hdst hold rfl
    have hbit := readRawU32_truth h hsrc
    rw [← srcBit_wave32 hlane hsrc 0] at hbit
    have htruth := saveexec_truth mode (by omega) hold hbit hencodes
    rw [laneBit_wave32 hlane _ _ (w.write32 dst.file dst.index w.exec_lo).exec_hi] at htruth
    exact hwritten.saveexec htruth _ _
  | saveexecB64 mode dst src =>
    obtain ⟨rfl, hdst, hsrc, hencodes⟩ := hacts
    have hwritten := agrees_writeU64 (.saveexecB64 mode dst src) h hdst s.exec_hi h.exec_lo rfl
    have htruth := saveexec_truth mode hlane h.exec_lo (readRawU32_truth h hsrc) hencodes
    exact hwritten.saveexec htruth _ _
  | compare dst result =>
    have hdst : MaskDst dst := hacts
    have hmode : (invocation n lane).WriteCompareResult dst (fun _ => result lane) s =
        (invocation n lane).WriteMask dst (fun i => s.exec i && result lane) s := by
      obtain ⟨file, index, hbound⟩ := dst
      cases file with
      | scc => exact hdst.elim
      | scalar | vcc | exec | m0 => rfl
    obtain ⟨hsets, htested⟩ := writeMask_invocation_sets lane hn h.tested dst hdst
      fun i => s.exec i && result lane
    have hwave := writeMask_sets (w := w) hn hlane dst hdst
      fun lane => laneBit w.exec_lo w.exec_hi lane && result lane
    rw [h.exec] at hsets
    show Agrees lane _ ((invocation n lane).WriteCompareResult dst _ s) _
    exact hmode ▸ h.sets hsets htested hwave rfl
  | selectU32 dst src1 src2 =>
    obtain ⟨rfl, hdst, hsrc1, hsrc2, hscc⟩ := hacts
    refine agrees_writeU32 _ h hlane hdst ?_ rfl
    rw [hscc]
    split
    · rw [srcBit_wave32 hlane hsrc1, readRawU32_truth h hsrc1]
    · rw [srcBit_wave32 hlane hsrc2, readRawU32_truth h hsrc2]
  | selectU64 dst src1 src2 =>
    obtain ⟨rfl, hdst, hsrc1, hsrc2, hscc⟩ := hacts
    refine agrees_writeU64 _ h hdst _ ?_ rfl
    dsimp only [selectU64]
    rw [hscc, readU64_low hsrc1, readU64_low hsrc2]
    split
    · exact readRawU32_truth h hsrc1
    · exact readRawU32_truth h hsrc2

end Invocation

/-! ## Runs -/

/-- The registers of the invocation of a lane behind a program. -/
def runInvocation (n lane : ℕ) (user_data : ℕ → Word) (program : List Instruction) : State Unit :=
  program.foldl (fun s inst => (invocation n lane).TranslateInstruction inst s)
    ((invocation n lane).Prologue user_data)

/-- The wave behind a program. -/
def runMasks (n : ℕ) (user_data : ℕ → Word) (program : List Instruction) : Wave :=
  program.foldl (fun w inst => w.step n inst) (Wave.start n user_data)

/-- The scalar registers that hold masks behind a program: none at the start. -/
def runMasked (n : ℕ) (program : List Instruction) : ℕ → Bool :=
  program.foldl (masksAfter n) fun _ => false

theorem prologue_agrees {n lane : ℕ} (hn : n = 32 ∨ n = 64) (hlane : lane < n)
    (user_data : ℕ → Word) :
    Agrees lane (fun _ => false) ((invocation n lane).Prologue user_data)
      (start n user_data) := by
  have hstart := (prologue_views hn user_data).exec
  have hvcc := (prologue_views hn user_data).vcc
  exact ⟨congrFun hstart ⟨lane, hlane⟩, congrFun hstart ⟨lane, hlane⟩, congrFun hvcc ⟨lane, hlane⟩,
    congrFun hvcc ⟨lane, hlane⟩, nofun⟩

section Run

variable {n lane : ℕ} (hn : n = 32 ∨ n = 64) (hlane : lane < n) (user_data : ℕ → Word)
  (program : List Instruction)
  (hacts : ∀ before inst after, program = before ++ inst :: after →
    Acts n lane (runMasked n before) (runInvocation n lane user_data before)
      (runMasks n user_data before) inst)

include hn hlane hacts

/-- **A whole program.** -/
theorem runInvocation_agrees : ∀ before after, program = before ++ after →
    Agrees lane (runMasked n before) (runInvocation n lane user_data before)
      (runMasks n user_data before) := by
  refine holds_along (prologue_agrees hn hlane user_data) fun before inst after heq hrun => ?_
  have hstep := translateInstruction_agrees hn hlane hrun inst (hacts before inst after heq)
  simpa only [runInvocation, runMasks, runMasked, List.foldl_append, List.foldl_cons,
    List.foldl_nil] using hstep

/-- **An invocation sees its bits of the masks.** Where every instruction of a program acts on
truth as on bits (`Acts`), what an invocation in per-invocation mode sees of EXEC, VCC and each
scalar mask is, at every point, the bit of its lane in the same mask of the wave. -/
theorem invocation_sees_bits :
    ∀ before after, program = before ++ after → ∀ src, MaskSrc lane (runMasked n before) src →
      (invocation n lane).ReadMask (runInvocation n lane user_data before) src () =
        laneBit ((runMasks n user_data before).read64 src).1
          ((runMasks n user_data before).read64 src).2 lane := by
  intro before after heq src hsrc
  exact readMask_truth (runInvocation_agrees hn hlane user_data program hacts before after heq) hsrc

end Run

/-- The scalar register pair from `reg` on. -/
def sgpr (reg : ℕ) (h : reg + 1 < NumScalarRegs) : Register := ⟨.scalar, reg, h⟩

theorem sgpr_fits0 : 0 + 1 < NumScalarRegs := by decide

theorem sgpr_fits2 : 2 + 1 < NumScalarRegs := by decide

theorem sgpr_fits4 : 4 + 1 < NumScalarRegs := by decide

/-- A comparison, its complement, and EXEC masked with it. -/
def compareProgram : List Instruction :=
  [.compare (sgpr 0 sgpr_fits0) fun lane => lane % 2 = 0,
    .bitwiseU64 .not (sgpr 2 sgpr_fits2) (.register (sgpr 0 sgpr_fits0))
      (.register (sgpr 0 sgpr_fits0)),
    .saveexecB64 .and (sgpr 4 sgpr_fits4) (.register (sgpr 2 sgpr_fits2))]

theorem invocation_sees_bits_compare :
    (invocation 64 1).ReadMask (runInvocation 64 1 (fun _ => 0) compareProgram)
        (.register ⟨.exec, 0, by decide⟩) () =
      laneBit ((runMasks 64 (fun _ => 0) compareProgram).read64
          (.register ⟨.exec, 0, by decide⟩)).1
        ((runMasks 64 (fun _ => 0) compareProgram).read64 (.register ⟨.exec, 0, by decide⟩)).2
        1 := by
  refine invocation_sees_bits (.inr rfl) (by decide) (fun _ => 0) compareProgram ?_
    compareProgram [] (List.append_nil _).symm _ rfl
  intro before inst after heq
  match before, heq with
  | [], heq =>
    cases heq
    trivial
  | [_], heq =>
    cases heq
    exact ⟨rfl, trivial, rfl, rfl⟩
  | [_, _], heq =>
    cases heq
    refine ⟨rfl, trivial, rfl, fun _ _ => ⟨0, ?_⟩⟩
    decide +kernel
  | _ :: _ :: _ :: b, heq => simp [compareProgram] at heq

/-- A mask that is true on every lane, and `s_andn1_saveexec_b64` with it. -/
def andn1Program : List Instruction :=
  [.compare (sgpr 0 sgpr_fits0) fun _ => true,
    .saveexecB64 .andn1 (sgpr 2 sgpr_fits2) (.register (sgpr 0 sgpr_fits0))]

/-- The words of EXEC are all ones at the start, and the complement of a mask that is one leaves
bits of them: the invocation stays active where the wave has no lane left. -/
theorem andn1_saveexec_stays_active :
    (invocation 64 0).ReadMask (runInvocation 64 0 (fun _ => 0) andn1Program)
        (.register ⟨.exec, 0, by decide⟩) () = true ∧
      laneBit (runMasks 64 (fun _ => 0) andn1Program).exec_lo
        (runMasks 64 (fun _ => 0) andn1Program).exec_hi 0 = false := by
  decide +kernel

end MagnusPS5.Shader.LaneMasks
