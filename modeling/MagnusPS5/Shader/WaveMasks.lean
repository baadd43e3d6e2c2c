/-
The masks of a whole wave.

`Wave` is the architecture: one copy of the scalar registers, EXEC and VCC, and
instructions that write a register, a register pair or one half of a mask. In wave mode
every lane of the translated program holds the same words, and its booleans are its bits of
them (`Views`); each instruction keeps that under `Meets`. What `Meets` asks for is where
the translator writes more than the half that an instruction names.
-/
import Mathlib.Data.List.Induction
import MagnusPS5.Shader.LaneMasks

namespace MagnusPS5.Shader.LaneMasks

open Function (update)
open BitVec List Translator

/-! ## The architecture -/

/-- The scalar state of a wave. -/
structure Wave where
  scalar : ℕ → Word
  exec_lo : Word
  exec_hi : Word
  vcc_lo : Word
  vcc_hi : Word
  scc : Bool
  m0 : Word

/-- The bit of a lane in the two words of a mask. -/
def laneBit (low high : Word) (lane : ℕ) : Bool :=
  if lane < 32 then low.getLsbD lane else high.getLsbD (lane - 32)

/-- The lanes from `base` on for which something holds. -/
def maskWord (base : ℕ) (value : ℕ → Bool) : Word :=
  (BitVec.ofBoolListLE ((List.range 32).map fun i => value (base + i))).setWidth 32

namespace Wave

def readRegister (w : Wave) (file : RegisterFile) (index : ℕ) : Word :=
  match file with
  | .scalar => w.scalar index
  | .vcc => if index = 0 then w.vcc_lo else w.vcc_hi
  | .m0 => w.m0
  | .exec => if index = 0 then w.exec_lo else w.exec_hi
  | .scc => if w.scc then 1 else 0

def read32 (w : Wave) : Operand → Word
  | .register reg => w.readRegister reg.file reg.index
  | .immediateU32 imm _ => imm

/-- A source of 64 bits; an immediate is extended by its sign. -/
def read64 (w : Wave) : Operand → Word × Word
  | .register ⟨.exec, _, _⟩ => (w.exec_lo, w.exec_hi)
  | .register ⟨.vcc, _, _⟩ => (w.vcc_lo, w.vcc_hi)
  | .register reg => (w.readRegister reg.file reg.index, w.readRegister reg.file (reg.index + 1))
  | .immediateU32 imm sext_64 => (imm, if sext_64 then 0xffffffff else 0)

/-- A result of 32 bits changes one register, or one half of a mask. -/
def write32 (file : RegisterFile) (index : ℕ) (value : Word) (w : Wave) : Wave :=
  match file with
  | .scalar => { w with scalar := update w.scalar index value }
  | .vcc => if index = 0 then { w with vcc_lo := value } else { w with vcc_hi := value }
  | .m0 => { w with m0 := value }
  | .exec => if index = 0 then { w with exec_lo := value } else { w with exec_hi := value }
  | .scc => { w with scc := value != 0 }

def write64 (dst : Register) (low high : Word) (w : Wave) : Wave :=
  match dst.file with
  | .exec => { w with exec_lo := low, exec_hi := high }
  | .vcc => { w with vcc_lo := low, vcc_hi := high }
  | file => write32 file (dst.index + 1) high (write32 file dst.index low w)

/-- The result of a comparison: a word in wave32, and a pair in wave64. -/
def writeMask (wave_size : ℕ) (dst : Register) (value : ℕ → Bool) (w : Wave) : Wave :=
  if wave_size = 32 then
    match dst.file with
    | .exec => { w with exec_lo := maskWord 0 value }
    | .vcc => { w with vcc_lo := maskWord 0 value }
    | file => write32 file dst.index (maskWord 0 value) w
  else write64 dst (maskWord 0 value) (maskWord 32 value) w

/-- One instruction on masks. -/
def step (wave_size : ℕ) : Instruction → Wave → Wave
  | .moveU32 dst src, w => w.write32 dst.file dst.index (w.read32 src)
  | .moveU64 dst src, w => w.write64 dst (w.read64 src).1 (w.read64 src).2
  | .bitwiseU32 op dst src0 src1, w =>
    w.write32 dst.file dst.index (op.word (w.read32 src0) (w.read32 src1))
  | .bitwiseU64 op dst src0 src1, w =>
    w.write64 dst (op.word (w.read64 src0).1 (w.read64 src1).1)
      (op.word (w.read64 src0).2 (w.read64 src1).2)
  | .saveexecB32 mode dst src, w =>
    let result := mode.apply w.exec_lo (w.read32 src)
    { w.write32 dst.file dst.index w.exec_lo with exec_lo := result, scc := result != 0 }
  | .saveexecB64 mode dst src, w =>
    let low := mode.apply w.exec_lo (w.read64 src).1
    let high := mode.apply w.exec_hi (w.read64 src).2
    { w.write64 dst w.exec_lo w.exec_hi with
      exec_lo := low, exec_hi := high, scc := (low ||| high) != 0 }
  | .compare dst result, w =>
    w.writeMask wave_size dst fun lane => laneBit w.exec_lo w.exec_hi lane && result lane
  | .selectU32 dst src1 src2, w =>
    w.write32 dst.file dst.index (if w.scc then w.read32 src1 else w.read32 src2)
  | .selectU64 dst src1 src2, w =>
    w.write64 dst (if w.scc then (w.read64 src1).1 else (w.read64 src2).1)
      (if w.scc then (w.read64 src1).2 else (w.read64 src2).2)
  | .sccNonZeroU32 src, w => { w with scc := w.read32 src != 0 }
  | .sccNonZeroU64 src, w => { w with scc := ((w.read64 src).1 != 0) || ((w.read64 src).2 != 0) }

/-- The registers at the start. -/
def start (wave_size : ℕ) (user_data : ℕ → Word) : Wave where
  scalar := user_data
  exec_lo := 0xffffffff
  exec_hi := if 32 < wave_size then 0xffffffff else 0
  vcc_lo := 0
  vcc_hi := 0
  scc := false
  m0 := 0

/-- A word of EXEC or VCC. -/
def half (w : Wave) (file : RegisterFile) (high : Bool) : Word :=
  w.readRegister file (if high then 1 else 0)

end Wave

/-! ## Instructions of a wave -/

/-- An instruction of a wave: one on masks, or another with a scalar result, a result for each
lane, or none that the scalar registers hold. -/
inductive WaveInstruction
  | mask (inst : Instruction)
  | resultU32 (dst : Register) (value : Word)
  | resultU64 (dst : Register) (low high : Word)
  | resultMask (dst : Register) (value : ℕ → Bool)
  | other

variable (n : ℕ)

/-- The translator for a wave of `n` lanes. -/
def wave : Translator (Fin n) where
  current_per_invocation_masks := false
  current_wave_size := n
  LaneId := Fin.val
  Ballot := fun value =>
    (maskWord 0 fun lane => if h : lane < n then value ⟨lane, h⟩ else false,
      maskWord 32 fun lane => if h : lane < n then value ⟨lane, h⟩ else false)

namespace WaveInstruction

variable {ι : Type}

/-- The translation of an instruction of a wave. -/
def translate (T : Translator ι) : WaveInstruction → State ι → State ι
  | mask inst, s => T.TranslateInstruction inst s
  | resultU32 dst value, s => T.WriteU32 dst (fun _ => value) s
  | resultU64 dst low high, s => T.WriteU64 dst (fun _ => low) (fun _ => high) s
  | resultMask dst value, s => T.WriteMask dst (fun i => value (T.LaneId i)) s
  | other, s => s

/-- The instruction in the architecture. -/
def step (wave_size : ℕ) : WaveInstruction → Wave → Wave
  | mask inst, w => w.step wave_size inst
  | resultU32 dst value, w => w.write32 dst.file dst.index value
  | resultU64 dst low high, w => w.write64 dst low high
  | resultMask dst value, w => w.writeMask wave_size dst value
  | other, w => w

/-- The half of EXEC or VCC that an instruction with a 32-bit result names. -/
def halfDestination (wave_size : ℕ) : WaveInstruction → Option (RegisterFile × Bool)
  | mask (.moveU32 dst _) | mask (.bitwiseU32 _ dst _ _) | mask (.selectU32 dst _ _)
  | resultU32 dst _ =>
    if dst.file = .exec ∨ dst.file = .vcc then some (dst.file, decide (dst.index ≠ 0)) else none
  | mask (.compare dst _) | resultMask dst _ =>
    if wave_size = 32 ∧ (dst.file = .exec ∨ dst.file = .vcc) then some (dst.file, false)
    else none
  | _ => none

end WaveInstruction

/-- The mask that a move between EXEC and VCC writes is the destination, with nothing but the
half that the move names changed. -/
def MovesHalf (w : Wave) (dst reg : Register) : Prop :=
  w.half reg.file false = (w.write32 dst.file dst.index
      (w.readRegister reg.file reg.index)).half dst.file false ∧
    (if n = 32 then 0 else w.half reg.file true) = (w.write32 dst.file dst.index
      (w.readRegister reg.file reg.index)).half dst.file true

/-- A mask of one word goes to a mask whose upper word is zero, or to a scalar register. -/
def MaskFits (w : Wave) (dst : Register) : Prop :=
  match dst.file with
  | .exec | .vcc => n = 32 → w.half dst.file true = 0
  | .scalar => True
  | .scc | .m0 => False

/-- When the translation of an instruction writes what the instruction names. -/
def Meets (w : Wave) : WaveInstruction → Prop
  | .mask (.moveU32 dst (.register reg)) =>
    (dst.file = .exec ∨ dst.file = .vcc) → (reg.file = .exec ∨ reg.file = .vcc) →
      MovesHalf n w dst reg
  | .mask (.compare dst _) | .resultMask dst _ => MaskFits n w dst
  | .mask (.saveexecB32 _ dst _) => dst.file = .exec → dst.index = 0
  | .mask (.saveexecB64 _ _ (.register reg)) => reg.file = .exec ∨ reg.file = .vcc → reg.index = 0
  | .mask (.saveexecB64 _ _ (.immediateU32 imm sext_64)) =>
    imm = if sext_64 then 0xffffffff else 0
  | _ => True

/-! ## The lanes see the wave -/

/-- All lanes hold the words of the wave, and the booleans of each are its bits. -/
structure Views (n : ℕ) (s : State (Fin n)) (w : Wave) : Prop where
  scalar : s.scalar = fun reg _ => w.scalar reg
  exec_lo : s.exec_lo = fun _ => w.exec_lo
  exec_hi : s.exec_hi = fun _ => w.exec_hi
  vcc_lo : s.vcc_lo = fun _ => w.vcc_lo
  vcc_hi : s.vcc_hi = fun _ => w.vcc_hi
  scc : s.scc = fun _ => w.scc
  m0 : s.m0 = fun _ => w.m0
  exec : s.exec = fun lane => laneBit w.exec_lo w.exec_hi lane.val
  vcc : s.vcc = fun lane => laneBit w.vcc_lo w.vcc_hi lane.val

theorem shift_and_one (word : Word) (k : ℕ) : ((word >>> k) &&& 1 != 0) = word.getLsbD k := by
  have hbit : (word >>> k) &&& 1 = if word.getLsbD k then 1 else 0 := by
    ext i hi
    by_cases h0 : i = 0
    · subst h0
      cases h : word.getLsbD k <;> simp [h]
    · cases h : word.getLsbD k <;> simp [h0]
  rw [hbit]
  cases word.getLsbD k <;> rfl

theorem getLsbD_maskWord (base : ℕ) (value : ℕ → Bool) {lane : ℕ} (h : lane < 32) :
    (maskWord base value).getLsbD lane = value (base + lane) := by
  unfold maskWord
  rw [getLsbD_setWidth, getLsbD_ofBoolListLE]
  simp [h]

theorem laneBit_low (value : ℕ → Bool) (high : Word) {lane : ℕ} (h : lane < 32) :
    laneBit (maskWord 0 value) high lane = value lane := by
  rw [laneBit, if_pos h, getLsbD_maskWord 0 value h, Nat.zero_add]

theorem maskWord_laneBit (low high : Word) :
    maskWord 0 (laneBit low high) = low ∧ maskWord 32 (laneBit low high) = high := by
  constructor
  · apply eq_of_getLsbD_eq
    intro lane hlane
    rw [getLsbD_maskWord _ _ hlane, Nat.zero_add, laneBit, if_pos hlane]
  · apply eq_of_getLsbD_eq
    intro lane hlane
    have hhigh : ¬ 32 + lane < 32 := by omega
    rw [getLsbD_maskWord _ _ hlane, laneBit, if_neg hhigh, Nat.add_sub_cancel_left]

theorem laneBit_maskWord (value : ℕ → Bool) {lane : ℕ} (h : lane < 64) :
    laneBit (maskWord 0 value) (maskWord 32 value) lane = value lane := by
  unfold laneBit
  split
  next hlow =>
    rw [getLsbD_maskWord 0 value hlow, Nat.zero_add]
  · rw [getLsbD_maskWord 32 value (by omega)]
    congr 1
    omega

section Wave

variable {n : ℕ} (hn : n = 32 ∨ n = 64)

include hn

theorem threadBit_wave (low high : Fin n → Word) :
    (wave n).ThreadBit low high = fun lane => laneBit (low lane) (high lane) lane := by
  funext lane
  have hlane := lane.isLt
  simp only [ThreadBit, wave, Bool.false_eq_true, if_false, shift_and_one, laneBit]
  rcases hn with rfl | rfl
  · have hlow : lane.val < 32 := hlane
    simp only [hlow, if_true, Nat.mod_eq_of_lt hlow]
    rfl
  · by_cases hlow : lane.val < 32
    · have hle : ¬ 32 ≤ lane.val := by omega
      simp only [hlow, hle, if_true, if_false, Nat.mod_eq_of_lt hlow]
    · have hle : 32 ≤ lane.val := by omega
      have hmod : lane.val % 32 = lane.val - 32 := by omega
      simp only [hlow, hle, if_true, if_false, hmod]

theorem ballotMask_wave (value : ℕ → Bool) :
    (wave n).BallotMask (fun lane => value lane) =
      (fun _ => maskWord 0 value, fun _ => if n = 32 then 0 else maskWord 32 value) := by
  have hword : ∀ base, base + 32 ≤ n →
      maskWord base (fun lane => if _h : lane < n then value lane else false) =
        maskWord base value := by
    intro base hbase
    unfold maskWord
    congr 2
    refine map_congr_left fun i hi => ?_
    have hlt := mem_range.mp hi
    exact dif_pos (by omega)
  simp only [BallotMask, wave, Bool.false_eq_true, if_false]
  rcases hn with rfl | rfl
  · rw [hword 0 (by omega)]
    rfl
  · rw [hword 0 (by omega), hword 32 (by omega)]

/-! ## What the lanes read -/

variable {s : State (Fin n)} {w : Wave}

omit hn in
theorem readRegister_views (h : Views n s w) (file : RegisterFile) (index : ℕ) :
    ReadRegister s file index = fun _ => w.readRegister file index := by
  unfold ReadRegister Wave.readRegister
  cases file with
  | scalar => exact congrFun h.scalar index
  | vcc =>
    dsimp only
    split
    · exact h.vcc_lo
    · exact h.vcc_hi
  | exec =>
    dsimp only
    split
    · exact h.exec_lo
    · exact h.exec_hi
  | scc =>
    rw [h.scc]
    rfl
  | m0 => exact h.m0

omit hn in
theorem readRawU32_views (h : Views n s w) (operand : Operand) :
    ReadRawU32 s operand = fun _ => w.read32 operand := by
  cases operand with
  | register reg => exact readRegister_views h reg.file reg.index
  | immediateU32 imm sext_64 => rfl

omit hn in
theorem readU64_views (h : Views n s w) (operand : Operand) :
    ReadU64 s operand = (fun _ => (w.read64 operand).1, fun _ => (w.read64 operand).2) := by
  cases operand with
  | register reg =>
    obtain ⟨file, index, hbound⟩ := reg
    have hlow := readRegister_views h file index
    have hhigh := readRegister_views h file (index + 1)
    cases file with
    | exec => exact Prod.ext h.exec_lo h.exec_hi
    | vcc => exact Prod.ext h.vcc_lo h.vcc_hi
    | scalar | scc | m0 => exact Prod.ext hlow hhigh
  | immediateU32 imm sext_64 => rfl

/-! ## What the lanes write -/

omit hn in
theorem Views.thread_bit (h : Views n s w) (bits : ℕ → Fin n → Bool) :
    Views n { s with thread_bit := bits } w :=
  ⟨h.scalar, h.exec_lo, h.exec_hi, h.vcc_lo, h.vcc_hi, h.scc, h.m0, h.exec, h.vcc⟩

section

variable (h : Views n s w)

include h

theorem writeRegister_views (file : RegisterFile) (index : ℕ) (value : Word) :
    Views n ((wave n).WriteRegister file index (fun _ => value) s)
      (w.write32 file index value) := by
  unfold WriteRegister Wave.write32
  cases file with
  | scalar =>
    refine { h with scalar := ?_ }
    rw [h.scalar]
    funext reg
    by_cases hreg : reg = index
    · subst hreg
      simp
    · simp [hreg]
  | vcc =>
    dsimp only
    split
    · refine { h with vcc_lo := rfl, vcc := ?_ }
      exact (threadBit_wave hn _ _).trans (by rw [h.vcc_hi])
    · refine { h with vcc_hi := rfl, vcc := ?_ }
      exact (threadBit_wave hn _ _).trans (by rw [h.vcc_lo])
  | exec =>
    dsimp only
    split
    · refine { h with exec_lo := rfl, exec := ?_ }
      exact (threadBit_wave hn _ _).trans (by rw [h.exec_hi])
    · refine { h with exec_hi := rfl, exec := ?_ }
      exact (threadBit_wave hn _ _).trans (by rw [h.exec_lo])
  | scc => exact { h with scc := rfl }
  | m0 => exact { h with m0 := rfl }

theorem writeU64_views (dst : Register) (low high : Word) :
    Views n ((wave n).WriteU64 dst (fun _ => low) (fun _ => high) s) (w.write64 dst low high) := by
  obtain ⟨file, index, hbound⟩ := dst
  have hpair (s : State (Fin n)) (h : Views n s w) := writeRegister_views hn
    (writeRegister_views hn h file index low) file (index + 1) high
  cases file with
  | exec => exact { h with exec_lo := rfl, exec_hi := rfl, exec := threadBit_wave hn _ _ }
  | vcc => exact { h with vcc_lo := rfl, vcc_hi := rfl, vcc := threadBit_wave hn _ _ }
  | scalar => exact hpair _ (h.thread_bit _)
  | scc | m0 => exact hpair _ h

theorem setScalarMask_views (dst : Register) (hfile : dst.file = .scalar) (value : ℕ → Bool) :
    Views n ((wave n).WriteMask dst (fun lane => value lane) s) (w.writeMask n dst value) := by
  obtain ⟨file, index, hbound⟩ := dst
  cases hfile
  have hone := writeRegister_views hn (h.thread_bit (update s.thread_bit index fun lane =>
    value lane)) .scalar index (maskWord 0 value)
  have htwo := writeRegister_views hn hone .scalar (index + 1) (maskWord 32 value)
  have hballot := ballotMask_wave hn value
  rcases hn with rfl | rfl
  · refine { hone with scalar := ?_ }
    have hscalar := hone.scalar
    exact hscalar
  · refine { htwo with scalar := ?_ }
    have hscalar := htwo.scalar
    simp only [WriteMask, SetScalarMask, hballot]
    have hpair : (decide ((wave 64).current_wave_size = 64) = true ∧ index + 1 < NumScalarRegs) :=
      ⟨rfl, hbound⟩
    rw [if_pos hpair]
    exact hscalar

theorem writeMask_words (dst : Register)
    (hfile : dst.file = .exec ∨ dst.file = .vcc) (value : ℕ → Bool) :
    Views n ((wave n).WriteMask dst (fun lane => value lane) s)
      (w.write64 dst (maskWord 0 value) (if n = 32 then 0 else maskWord 32 value)) := by
  have hballot := ballotMask_wave hn value
  have hbits : (fun lane : Fin n => value lane) = fun lane : Fin n =>
      laneBit (maskWord 0 value) (if n = 32 then 0 else maskWord 32 value) lane := by
    funext lane
    rcases hn with rfl | rfl
    · exact (laneBit_low value _ lane.isLt).symm
    · exact (laneBit_maskWord value lane.isLt).symm
  rcases hfile with hfile | hfile
  · simp only [WriteMask, Wave.write64, hfile, hballot]
    exact { h with exec_lo := rfl, exec_hi := rfl, exec := hbits }
  · simp only [WriteMask, Wave.write64, hfile, hballot]
    exact { h with vcc_lo := rfl, vcc_hi := rfl, vcc := hbits }

theorem writeMask_views (dst : Register) (value : ℕ → Bool) (hfits : MaskFits n w dst) :
    Views n ((wave n).WriteMask dst (fun lane => value lane) s) (w.writeMask n dst value) := by
  cases hfile : dst.file with
  | scalar => exact setScalarMask_views hn h dst hfile value
  | scc | m0 =>
    rw [MaskFits, hfile] at hfits
    exact hfits.elim
  | exec | vcc =>
    have hwords := writeMask_words hn h dst (by simp [hfile]) value
    rw [MaskFits, hfile] at hfits
    unfold Wave.writeMask
    split
    next h32 =>
      -- the upper word of a wave32 mask is zero, and stays so
      have hzero := hfits h32
      rw [if_pos h32] at hwords
      simp only [Wave.half, Wave.readRegister, if_true, Nat.one_ne_zero, if_false] at hzero
      simpa only [Wave.write64, hfile, ← hzero] using hwords
    next h32 =>
      rw [if_neg h32] at hwords
      exact hwords

end

omit hn in
theorem write64_eq_write32 (dst : Register) (hfile : dst.file = .exec ∨ dst.file = .vcc)
    (value : Word) {low high : Word}
    (hlow : low = (w.write32 dst.file dst.index value).half dst.file false)
    (hhigh : high = (w.write32 dst.file dst.index value).half dst.file true) :
    w.write64 dst low high = w.write32 dst.file dst.index value := by
  obtain ⟨file, index, hbound⟩ := dst
  subst hlow hhigh
  rcases hfile with hfile | hfile
  all_goals
    cases hfile
    by_cases hindex : index = 0
    · simp [Wave.write64, Wave.write32, Wave.half, Wave.readRegister, hindex]
    · simp [Wave.write64, Wave.write32, Wave.half, Wave.readRegister, hindex]

section

variable (h : Views n s w)

include h

theorem moveU32_views (dst : Register) (src : Operand)
    (hmeets : Meets n w (.mask (.moveU32 dst src))) :
    Views n ((wave n).TranslateMoveU32 dst src s) (w.step n (.moveU32 dst src)) := by
  have hplain : Views n ((wave n).WriteU32 dst (ReadRawU32 s src) s)
      (w.write32 dst.file dst.index (w.read32 src)) := by
    rw [readRawU32_views h src]
    exact writeRegister_views hn h dst.file dst.index (w.read32 src)
  cases src with
  | immediateU32 imm sext_64 => exact hplain
  | register reg =>
    simp only [TranslateMoveU32]
    split
    next hfiles =>
      obtain ⟨hlow, hhigh⟩ := hmeets hfiles.2 hfiles.1
      -- the whole mask is moved, and only the half that is named differs from before
      have hread : (wave n).ReadMask s (.register reg) =
          fun lane => laneBit (w.half reg.file false) (w.half reg.file true) lane.val := by
        obtain ⟨file, index, hbound⟩ := reg
        rcases hfiles.1 with hfile | hfile
        · cases hfile
          exact h.exec
        · cases hfile
          exact h.vcc
      have hwords := writeMask_words hn h dst hfiles.2
        (laneBit (w.half reg.file false) (w.half reg.file true))
      rw [(maskWord_laneBit _ _).1, (maskWord_laneBit _ _).2] at hwords
      rw [write64_eq_write32 dst hfiles.2 _ hlow hhigh] at hwords
      rw [hread]
      exact hwords
    · exact hplain

theorem moveU64_views (dst : Register) (src : Operand) :
    Views n ((wave n).TranslateMoveU64 dst src s) (w.step n (.moveU64 dst src)) := by
  have hwritten : Views n ((wave n).WriteU64 dst (ReadU64 s src).1
      (ReadU64 s src).2 s) (w.write64 dst (w.read64 src).1 (w.read64 src).2) := by
    rw [readU64_views h src]
    exact writeU64_views hn h dst _ _
  cases src with
  | immediateU32 imm sext_64 => exact hwritten
  | register reg =>
    simp only [TranslateMoveU64]
    split
    · exact hwritten.thread_bit _
    · exact hwritten

theorem bitwiseU64_views (op : Bitwise) (dst : Register) (src0 src1 : Operand) :
    Views n ((wave n).TranslateU64MaskOperation op dst src0 src1 s)
      (w.step n (.bitwiseU64 op dst src0 src1)) := by
  have hwritten := writeU64_views hn h dst (op.word (w.read64 src0).1 (w.read64 src1).1)
    (op.word (w.read64 src0).2 (w.read64 src1).2)
  have hmode : (wave n).current_per_invocation_masks = false := rfl
  simp only [TranslateU64MaskOperation, hmode, Bool.false_eq_true, if_false, readU64_views h]
  split
  · exact hwritten.thread_bit _
  · exact hwritten

theorem saveexec_views (low high : Word) (scc : Bool) : Views n { s with
      exec_lo := fun _ => low
      exec_hi := fun _ => high
      exec := (wave n).ThreadBit (fun _ => low) fun _ => high
      scc := fun _ => scc } { w with exec_lo := low, exec_hi := high, scc := scc } :=
  { h with exec_lo := rfl, exec_hi := rfl, scc := rfl, exec := threadBit_wave hn _ _ }

theorem saveexecB32_views (mode : SaveexecMode) (dst : Register) (src : Operand)
    (hmeets : Meets n w (.mask (.saveexecB32 mode dst src))) :
    Views n ((wave n).TranslateSaveexecB32 mode dst src s)
      (w.step n (.saveexecB32 mode dst src)) := by
  have hwritten := writeRegister_views hn h dst.file dst.index w.exec_lo
  have hresult := saveexec_views hn hwritten (mode.apply w.exec_lo (w.read32 src)) w.exec_hi
    (mode.apply w.exec_lo (w.read32 src) != 0)
  have hhigh : (w.write32 dst.file dst.index w.exec_lo).exec_hi = w.exec_hi := by
    cases hfile : dst.file with
    | exec => simp [Wave.write32, hmeets hfile]
    | vcc =>
      unfold Wave.write32
      dsimp only
      split
      · rfl
      · rfl
    | scalar | scc | m0 => rfl
  simp only [TranslateSaveexecB32, WriteU32, readRawU32_views h, h.exec_lo, h.exec_hi, Wave.step]
  convert hresult using 2

theorem saveexecB64_views (mode : SaveexecMode) (dst : Register) (src : Operand)
    (hmeets : Meets n w (.mask (.saveexecB64 mode dst src))) :
    Views n ((wave n).TranslateSaveexecB64 mode dst src s)
      (w.step n (.saveexecB64 mode dst src)) := by
  have hlow : w.read32 src = (w.read64 src).1 := by
    cases src with
    | immediateU32 imm sext_64 => rfl
    | register reg =>
      obtain ⟨file, index, hbound⟩ := reg
      cases file with
      | exec | vcc =>
        have hindex : index = 0 := hmeets (by simp)
        simp [Wave.read32, Wave.read64, Wave.readRegister, hindex]
      | scalar | scc | m0 => rfl
  have hhigh : TranslateSaveexecB64.ReadHighRaw s src = fun _ => (w.read64 src).2 := by
    cases src with
    | immediateU32 imm sext_64 =>
      have himm : imm = if sext_64 then 0xffffffff else 0 := hmeets
      funext lane
      exact himm
    | register reg =>
      have hread := readRegister_views h reg.file (reg.index + 1)
      obtain ⟨file, index, hbound⟩ := reg
      refine hread.trans ?_
      cases file with
      | exec | vcc =>
        have hindex : index = 0 := hmeets (by simp)
        simp [Wave.read64, Wave.readRegister, hindex]
      | scalar | scc | m0 => rfl
  have hwritten := writeU64_views hn h dst w.exec_lo w.exec_hi
  have hresult := saveexec_views hn hwritten (mode.apply w.exec_lo (w.read64 src).1)
    (mode.apply w.exec_hi (w.read64 src).2)
    ((mode.apply w.exec_lo (w.read64 src).1 ||| mode.apply w.exec_hi (w.read64 src).2) != 0)
  simp only [TranslateSaveexecB64, readRawU32_views h, hhigh, h.exec_lo, h.exec_hi, Wave.step, hlow]
  exact hresult

theorem translate_views (inst : WaveInstruction) (hmeets : Meets n w inst) :
    Views n (inst.translate (wave n) s) (inst.step n w) := by
  cases inst with
  | resultU32 dst value => exact writeRegister_views hn h dst.file dst.index value
  | resultU64 dst low high => exact writeU64_views hn h dst low high
  | resultMask dst value => exact writeMask_views hn h dst value hmeets
  | other => exact h
  | mask inst =>
    cases inst with
    | moveU32 dst src => exact moveU32_views hn h dst src hmeets
    | moveU64 dst src => exact moveU64_views hn h dst src
    | bitwiseU64 op dst src0 src1 => exact bitwiseU64_views hn h op dst src0 src1
    | saveexecB32 mode dst src => exact saveexecB32_views hn h mode dst src hmeets
    | saveexecB64 mode dst src => exact saveexecB64_views hn h mode dst src hmeets
    | bitwiseU32 op dst src0 src1 =>
      have hwritten := writeRegister_views hn h dst.file dst.index
        (op.word (w.read32 src0) (w.read32 src1))
      simp only [WaveInstruction.translate, TranslateInstruction,
        TranslateBitwiseU32, readRawU32_views h]
      exact hwritten
    | compare dst result =>
      have hwritten := writeMask_views hn h dst
        (fun lane => laneBit w.exec_lo w.exec_hi lane && result lane) hmeets
      have hmask : (wave n).WriteCompareResult dst (fun lane => result lane) s =
          (wave n).WriteMask dst (fun lane => s.exec lane && result lane) s := by
        unfold WriteCompareResult
        cases hfile : dst.file with
        | scc =>
          simp only [Meets, MaskFits, hfile] at hmeets
        | scalar | vcc | exec | m0 => rfl
      rw [h.exec] at hmask
      show Views n ((wave n).WriteCompareResult dst (fun lane => result lane) s) _
      rw [hmask]
      exact hwritten
    | selectU32 dst src1 src2 =>
      have hwritten := writeRegister_views hn h dst.file dst.index
        (if w.scc then w.read32 src1 else w.read32 src2)
      simp only [WaveInstruction.translate, TranslateInstruction, readRawU32_views h, h.scc]
      exact hwritten
    | selectU64 dst src1 src2 =>
      have hwritten := writeU64_views hn h dst
        (if w.scc then (w.read64 src1).1 else (w.read64 src2).1)
        (if w.scc then (w.read64 src1).2 else (w.read64 src2).2)
      simp only [WaveInstruction.translate, TranslateInstruction, selectU64, readU64_views h, h.scc]
      exact hwritten
    | sccNonZeroU32 src =>
      simp only [WaveInstruction.translate, TranslateInstruction, readRawU32_views h]
      exact { h with scc := rfl }
    | sccNonZeroU64 src =>
      simp only [WaveInstruction.translate, TranslateInstruction, readU64_views h]
      exact { h with scc := rfl }

end

theorem prologue_views (user_data : ℕ → Word) :
    Views n ((wave n).Prologue user_data) (.start n user_data) := by
  refine ⟨rfl, rfl, rfl, rfl, rfl, rfl, rfl, ?_, ?_⟩
  · funext lane
    have hlane := lane.isLt
    show true = laneBit 0xffffffff (if 32 < n then 0xffffffff else 0) lane
    have hones : (0xffffffff : Word) = .allOnes 32 := rfl
    unfold laneBit
    rw [hones]
    rcases hn with rfl | rfl
    · rw [if_pos hlane, getLsbD_allOnes, decide_eq_true hlane]
    · have hwide : 32 < 64 := by omega
      rw [if_pos hwide]
      split
      · rw [getLsbD_allOnes, decide_eq_true (by assumption)]
      · rw [getLsbD_allOnes, decide_eq_true (by omega)]
  · funext lane
    show false = laneBit 0 0 lane
    simp [laneBit]

end Wave

/-! ## Runs -/

/-- The registers of the lanes behind a sequence of instructions. -/
def runWave (user_data : ℕ → Word) (program : List WaveInstruction) : State (Fin n) :=
  program.foldl (fun s inst => inst.translate (wave n) s) ((wave n).Prologue user_data)

/-- The architecture behind a sequence of instructions. -/
def archWave (user_data : ℕ → Word) (program : List WaveInstruction) : Wave :=
  program.foldl (fun w inst => inst.step n w) (Wave.start n user_data)

theorem step_otherHalf (n : ℕ) (w : Wave) (inst : WaveInstruction) {file : RegisterFile}
    {high : Bool} (h : inst.halfDestination n = some (file, high)) :
    (inst.step n w).half file (!high) = w.half file (!high) := by
  have hwrite (dst : Register) (value : Word)
      (hdst : (if dst.file = .exec ∨ dst.file = .vcc then
        some (dst.file, decide (dst.index ≠ 0)) else none) = some (file, high)) :
      (w.write32 dst.file dst.index value).half file (!high) = w.half file (!high) := by
    obtain ⟨file', index, hbound⟩ := dst
    by_cases hindex : index = 0
    all_goals
      cases file' <;> simp [hindex] at hdst <;> obtain ⟨rfl, rfl⟩ := hdst <;>
        simp [Wave.write32, Wave.half, Wave.readRegister, hindex]
  have hmask (dst : Register) (value : ℕ → Bool)
      (hdst : (if n = 32 ∧ (dst.file = .exec ∨ dst.file = .vcc) then some (dst.file, false)
        else none) = some (file, high)) :
      (w.writeMask n dst value).half file (!high) = w.half file (!high) := by
    obtain ⟨file', index, hbound⟩ := dst
    split at hdst
    next hcond =>
      obtain ⟨h32, hfile⟩ := hcond
      cases hdst
      rcases hfile with hfile | hfile <;> cases hfile <;>
        simp [Wave.writeMask, h32, Wave.half, Wave.readRegister]
    · cases hdst
  cases inst with
  | resultU32 dst value => exact hwrite dst value h
  | resultMask dst value => exact hmask dst value h
  | resultU64 | other => cases h
  | mask inst =>
    cases inst with
    | moveU32 dst | bitwiseU32 _ dst | selectU32 dst => exact hwrite dst _ h
    | compare dst result => exact hmask dst _ h
    | _ => cases h

/-- What every instruction of a program keeps holds all along it. -/
theorem holds_along {ι : Type*} {program : List ι} {I : List ι → Prop} (hstart : I [])
    (hstep : ∀ before inst after, program = before ++ inst :: after →
      I before → I (before ++ [inst])) :
    ∀ before after, program = before ++ after → I before := by
  intro before
  induction before using reverseRecOn with
  | nil => exact fun _ _ => hstart
  | append_singleton before inst ih =>
    intro after heq
    rw [List.append_assoc, singleton_append] at heq
    exact hstep before inst after heq (ih _ heq)

section Run

variable {n : ℕ} (hn : n = 32 ∨ n = 64) (user_data : ℕ → Word) (program : List WaveInstruction)
  (hmeets : ∀ before inst after, program = before ++ inst :: after →
    Meets n (archWave n user_data before) inst)

include hn hmeets

/-- **A whole program.** -/
theorem runWave_views : ∀ before after, program = before ++ after →
    Views n (runWave n user_data before) (archWave n user_data before) := by
  refine holds_along (prologue_views hn user_data) fun before inst after heq hrun => ?_
  have hstep := translate_views hn hrun inst (hmeets before inst after heq)
  simpa only [runWave, archWave, foldl_append, foldl_cons, foldl_nil] using hstep

/-- **In wave mode the three copies of EXEC and VCC stay coherent.** Where every instruction
of a run writes what it names (`Meets`), each lane's booleans are its bits of the words at every
point, all lanes agree on the words, and these are the architecture's; and an instruction whose
destination is one half leaves the other half as it was. -/
theorem wave_masks_coherent :
    ∀ before after, program = before ++ after →
      Views n (runWave n user_data before) (archWave n user_data before) ∧
      ∀ inst rest, after = inst :: rest → ∀ file high,
        inst.halfDestination n = some (file, high) → ∀ lane,
          ReadRegister (runWave n user_data (before ++ [inst])) file
              (if high then 1 else 0) lane =
            (archWave n user_data (before ++ [inst])).half file high ∧
          ReadRegister (runWave n user_data (before ++ [inst])) file
              (if !high then 1 else 0) lane =
            ReadRegister (runWave n user_data before) file (if !high then 1 else 0)
              lane := by
  intro before after heq
  have hviews := runWave_views hn user_data program hmeets
  have hbefore := hviews before after heq
  refine ⟨hbefore, fun inst rest hrest file high hdst lane => ?_⟩
  have hafter := hviews (before ++ [inst]) rest (by rw [heq, hrest]; simp)
  rw [readRegister_views hafter, readRegister_views hafter, readRegister_views hbefore]
  refine ⟨rfl, ?_⟩
  have hother := step_otherHalf n (archWave n user_data before) inst hdst
  simpa only [archWave, List.foldl_append, List.foldl_cons, List.foldl_nil, Wave.half] using hother

end Run

/-- `VCC_LO` and `EXEC_LO`. -/
def vccLo : Register := ⟨.vcc, 0, by decide⟩

def execLo : Register := ⟨.exec, 0, by decide⟩

/-- A mask in `vcc_lo` and `s_mov_b32 exec_lo, vcc_lo`, in wave32. -/
theorem wave_masks_coherent_move :
    Views 32
      (runWave 32 (fun _ => 0)
        [.resultMask vccLo (· < 5), .mask (.moveU32 execLo (.register vccLo))])
      (archWave 32 (fun _ => 0)
        [.resultMask vccLo (· < 5), .mask (.moveU32 execLo (.register vccLo))]) := by
  refine (wave_masks_coherent (.inl rfl) (fun _ => 0) _ ?_ _ [] (List.append_nil _).symm).1
  intro before inst after heq
  match before, heq with
  | [], heq =>
    cases heq
    exact fun _ => rfl
  | [_], heq =>
    cases heq
    exact fun _ _ => ⟨rfl, rfl⟩
  | _ :: _ :: b, heq =>
    simp at heq

/-- `s_mov_b32 vcc_lo, exec_lo` in wave64 overwrites `vcc_hi`. -/
theorem moveU32_overwrites_high :
    (WaveInstruction.mask (.moveU32 vccLo (.register execLo))).halfDestination 64 =
        some (.vcc, false) ∧
      (runWave 64 (fun _ => 0) []).vcc_hi 0 = 0 ∧
      (runWave 64 (fun _ => 0) [.mask (.moveU32 vccLo (.register execLo))]).vcc_hi 0 =
        0xffffffff := by
  refine ⟨rfl, rfl, ?_⟩
  decide +kernel

end MagnusPS5.Shader.LaneMasks
