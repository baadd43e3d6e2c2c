/-
EXEC, VCC and the scalar registers in the translator (`Translate.cpp`, `Control.cpp`,
`Integer.cpp`).

Every lane holds a mask three times: as its own boolean and as the two words. A value of
the IR is a function of the lanes, of which the translator knows the lane number and the
ballot only; the translation of an instruction is the state that its IR computes. The
operands carry no modifiers, as no instruction on masks has them, and the vector registers
are left out.
-/
import Mathlib.Tactic.Common

namespace MagnusPS5.Shader.LaneMasks

open Function (update)

abbrev Word := BitVec 32

def NumScalarRegs : ℕ := 512

inductive RegisterFile
  | scalar | vcc | exec | scc | m0
  deriving DecidableEq

/-- A register that an operand names. The one behind it exists too. -/
structure Register where
  file : RegisterFile
  index : ℕ
  bound : index + 1 < NumScalarRegs
  deriving DecidableEq

inductive Operand
  | register (reg : Register)
  | immediateU32 (imm : Word) (sext_64 : Bool)
  deriving DecidableEq

/-- The bitwise operations, each of which has a 32-bit and a 64-bit opcode. -/
inductive Bitwise
  | and | or | xor | andNot | orNot | nand | nor | xnor | not
  deriving DecidableEq

inductive SaveexecMode
  | and | andn1 | orn2
  deriving DecidableEq

/-- The instructions on masks. The result of a comparison is a function of the lane number,
and `sccNonZero` stands for the instruction that follows a scalar result. -/
inductive Instruction
  | moveU32 (dst : Register) (src : Operand)
  | moveU64 (dst : Register) (src : Operand)
  | bitwiseU32 (op : Bitwise) (dst : Register) (src0 src1 : Operand)
  | bitwiseU64 (op : Bitwise) (dst : Register) (src0 src1 : Operand)
  | saveexecB32 (mode : SaveexecMode) (dst : Register) (src : Operand)
  | saveexecB64 (mode : SaveexecMode) (dst : Register) (src : Operand)
  | compare (dst : Register) (result : ℕ → Bool)
  | selectU32 (dst : Register) (src1 src2 : Operand)
  | selectU64 (dst : Register) (src1 src2 : Operand)
  | sccNonZeroU32 (src : Operand)
  | sccNonZeroU64 (src : Operand)

namespace Bitwise

/-- The operation on words, as `TranslateSimpleInteger` and `TranslateComposedInteger` have
it. -/
def word : Bitwise → Word → Word → Word
  | and, lhs, rhs => lhs &&& rhs
  | or, lhs, rhs => lhs ||| rhs
  | xor, lhs, rhs => lhs ^^^ rhs
  | andNot, lhs, rhs => lhs &&& ~~~rhs
  | orNot, lhs, rhs => lhs ||| ~~~rhs
  | nand, lhs, rhs => ~~~(lhs &&& rhs)
  | nor, lhs, rhs => ~~~(lhs ||| rhs)
  | xnor, lhs, rhs => ~~~(lhs ^^^ rhs)
  | not, lhs, _ => ~~~lhs

/-- The operation on booleans, as `TranslatePerInvocationU64Mask` has it. -/
def logical : Bitwise → Bool → Bool → Bool
  | and, lhs, rhs => lhs && rhs
  | or, lhs, rhs => lhs || rhs
  | xor, lhs, rhs => lhs ^^ rhs
  | andNot, lhs, rhs => lhs && !rhs
  | orNot, lhs, rhs => lhs || !rhs
  | nand, lhs, rhs => !(lhs && rhs)
  | nor, lhs, rhs => !(lhs || rhs)
  | xnor, lhs, rhs => !(lhs ^^ rhs)
  | not, lhs, _ => !lhs

end Bitwise

/-- The lambda `apply` of the `S_*_SAVEEXEC` lowering. -/
def SaveexecMode.apply : SaveexecMode → Word → Word → Word
  | and, old_value, src_value => old_value &&& src_value
  | andn1, old_value, src_value => old_value &&& ~~~src_value
  | orn2, old_value, src_value => ~~~old_value ||| src_value

/-! ## State -/

/-- The registers, each with a value for every lane. -/
structure State (ι : Type) where
  scalar : ℕ → ι → Word
  thread_bit : ℕ → ι → Bool
  exec : ι → Bool
  exec_lo : ι → Word
  exec_hi : ι → Word
  vcc : ι → Bool
  vcc_lo : ι → Word
  vcc_hi : ι → Word
  scc : ι → Bool
  m0 : ι → Word

/-- What the translator knows of the lanes. -/
structure Translator (ι : Type) where
  current_per_invocation_masks : Bool
  current_wave_size : ℕ
  LaneId : ι → ℕ
  Ballot : (ι → Bool) → Word × Word

variable {ι : Type}

namespace Translator

variable (T : Translator ι)

/-- `ir.Select(value, 1, 0)`. -/
def selectBit (value : ι → Bool) : ι → Word := fun i => if value i then 1 else 0

def BallotMask (value : ι → Bool) : (ι → Word) × (ι → Word) :=
  if T.current_per_invocation_masks then (selectBit value, fun _ => 0)
  else
    -- a wave32 mask has one word
    (fun _ => (T.Ballot value).1,
      fun _ => if T.current_wave_size = 32 then 0 else (T.Ballot value).2)

def ThreadBit (low high : ι → Word) : ι → Bool := fun i =>
  if T.current_per_invocation_masks then low i != 0
  else
    let word := if T.current_wave_size = 64 then
      if 32 ≤ T.LaneId i then high i else low i
    else low i
    (word >>> (T.LaneId i % 32)) &&& 1 != 0

variable (s : State ι)

/-- `Translator::ReadRawU32` of a register. -/
def ReadRegister (file : RegisterFile) (index : ℕ) : ι → Word :=
  match file with
  | .scalar => s.scalar index
  | .vcc => if index = 0 then s.vcc_lo else s.vcc_hi
  | .m0 => s.m0
  | .exec => if index = 0 then s.exec_lo else s.exec_hi
  | .scc => selectBit s.scc

/-- `Translator::ReadRawU32`, which is `ReadOperand` for the type `U32`. -/
def ReadRawU32 : Operand → ι → Word
  | .register reg => ReadRegister s reg.file reg.index
  | .immediateU32 imm _ => fun _ => imm

/-- The second word of an operand: `OffsetOperand` by one, where it is a register. -/
def ReadHighU32 : Operand → ι → Word
  | .register reg => ReadRegister s reg.file (reg.index + 1)
  | .immediateU32 _ sext_64 => fun _ => if sext_64 then 0xffffffff else 0

/-- `Translator::ReadOperand` for the type `U64`, as the two words. -/
def ReadU64 (operand : Operand) : (ι → Word) × (ι → Word) :=
  match operand with
  | .register ⟨.exec, _, _⟩ => (s.exec_lo, s.exec_hi)
  | .register ⟨.vcc, _, _⟩ => (s.vcc_lo, s.vcc_hi)
  | operand => (ReadRawU32 s operand, ReadHighU32 s operand)

def ReadMask : Operand → ι → Bool
  | .immediateU32 imm sext_64 => fun _ => imm != 0 || sext_64
  | .register ⟨.scalar, reg, _⟩ =>
    T.ThreadBit (s.scalar reg)
      (if T.current_wave_size = 64 ∧ reg + 1 < NumScalarRegs then s.scalar (reg + 1)
        else fun _ => 0)
  | .register ⟨.exec, _, _⟩ => s.exec
  | .register ⟨.vcc, _, _⟩ => s.vcc
  | .register ⟨.scc, _, _⟩ => s.scc
  | .register ⟨.m0, index, _⟩ => fun i => ReadRegister s .m0 index i != 0

/-- `Translator::WriteRawU32`. -/
def WriteRegister (file : RegisterFile) (index : ℕ) (value : ι → Word) (s : State ι) : State ι :=
  match file with
  | .scalar => { s with scalar := update s.scalar index value }
  | .vcc =>
    if index = 0 then { s with vcc_lo := value, vcc := T.ThreadBit value s.vcc_hi }
    else { s with vcc_hi := value, vcc := T.ThreadBit s.vcc_lo value }
  | .m0 => { s with m0 := value }
  | .exec =>
    if index = 0 then { s with exec_lo := value, exec := T.ThreadBit value s.exec_hi }
    else { s with exec_hi := value, exec := T.ThreadBit s.exec_lo value }
  | .scc => { s with scc := fun i => value i != 0 }

variable (dst : Register)

/-- `Translator::WriteOperand` of a value of type `U32`. -/
def WriteU32 (value : ι → Word) (s : State ι) : State ι :=
  T.WriteRegister dst.file dst.index value s

/-- `Translator::WriteOperand` of a value of type `U64`. -/
def WriteU64 (low high : ι → Word) (s : State ι) : State ι :=
  match dst.file with
  | .exec => { s with exec := T.ThreadBit low high, exec_lo := low, exec_hi := high }
  | .vcc => { s with vcc := T.ThreadBit low high, vcc_lo := low, vcc_hi := high }
  | .scalar =>
    T.WriteRegister .scalar (dst.index + 1) high
      (T.WriteRegister .scalar dst.index low
        { s with thread_bit := update s.thread_bit dst.index (T.ThreadBit low high) })
  | file => T.WriteRegister file (dst.index + 1) high (T.WriteRegister file dst.index low s)

/-- The words of a mask go to a register pair, or to the first register alone. -/
def SetScalarMask (reg : ℕ) (pair : Bool) (value : ι → Bool) (s : State ι) : State ι :=
  let mask := T.BallotMask value
  let scalar := update s.scalar reg mask.1
  { s with
    thread_bit := update s.thread_bit reg value
    scalar := if pair ∧ reg + 1 < NumScalarRegs then update scalar (reg + 1) mask.2 else scalar }

def WriteMask (value : ι → Bool) (s : State ι) : State ι :=
  match dst.file with
  -- a wave32 mask must not overwrite the neighbouring register
  | .scalar => T.SetScalarMask dst.index (T.current_wave_size = 64) value s
  | .exec =>
    let mask := T.BallotMask value
    { s with exec := value, exec_lo := mask.1, exec_hi := mask.2 }
  | .vcc =>
    let mask := T.BallotMask value
    { s with vcc := value, vcc_lo := mask.1, vcc_hi := mask.2 }
  | .scc => { s with scc := value }
  | .m0 =>
    T.WriteRegister .m0 (dst.index + 1) (fun _ => 0)
      (T.WriteRegister .m0 dst.index (selectBit value) s)

def WriteMask64 (value : ι → Bool) (s : State ι) : State ι :=
  match dst.file with
  | .scalar => T.SetScalarMask dst.index true value s
  | _ => T.WriteMask dst value s

def WriteCompareResult (value : ι → Bool) (s : State ι) : State ι :=
  match dst.file with
  | .scc => { s with scc := value }
  -- only the lanes that are active are written
  | _ => T.WriteMask dst (fun i => s.exec i && value i) s

/-! ## Instructions -/

/-- `MoveU32` of `Translator::TranslateMove`. -/
def TranslateMoveU32 (src : Operand) (s : State ι) : State ι :=
  match src with
  | .register reg =>
    if (reg.file = .exec ∨ reg.file = .vcc) ∧ (dst.file = .exec ∨ dst.file = .vcc) then
      T.WriteMask dst (T.ReadMask s src) s
    else T.WriteU32 dst (ReadRawU32 s src) s
  | .immediateU32 _ _ => T.WriteU32 dst (ReadRawU32 s src) s

/-- `MoveU64` of `Translator::TranslateMove`. -/
def TranslateMoveU64 (src : Operand) (s : State ι) : State ι :=
  let value := ReadU64 s src
  let written := T.WriteU64 dst value.1 value.2 s
  match src with
  | .register reg =>
    if dst.file = .scalar ∧ reg.file = .scalar then
      { written with
        thread_bit := update written.thread_bit dst.index (written.thread_bit reg.index) }
    else written
  | .immediateU32 _ _ => written

/-- The bitwise opcodes of 32 bits. -/
def TranslateBitwiseU32 (op : Bitwise) (dst : Register) (src0 src1 : Operand) (s : State ι) :
    State ι :=
  T.WriteU32 dst (fun i => op.word (ReadRawU32 s src0 i) (ReadRawU32 s src1 i)) s

def TranslateU64MaskOperation (op : Bitwise) (dst : Register) (src0 src1 : Operand)
    (s : State ι) : State ι :=
  if T.current_per_invocation_masks then
    T.WriteMask64 dst (fun i => op.logical (T.ReadMask s src0 i) (T.ReadMask s src1 i)) s
  else
    let lhs := ReadU64 s src0
    let rhs := ReadU64 s src1
    let written := T.WriteU64 dst (fun i => op.word (lhs.1 i) (rhs.1 i))
      (fun i => op.word (lhs.2 i) (rhs.2 i)) s
    if dst.file = .scalar then
      -- the sources are read again, behind the write of the result
      { written with
        thread_bit := update written.thread_bit dst.index fun i =>
          op.logical (T.ReadMask written src0 i) (T.ReadMask written src1 i) }
    else written

def TranslateSaveexecB32 (mode : SaveexecMode) (dst : Register) (src : Operand) (s : State ι) :
    State ι :=
  let result_low := fun i => mode.apply (s.exec_lo i) (ReadRawU32 s src i)
  let result_high := s.exec_hi
  { T.WriteU32 dst s.exec_lo s with
    exec_lo := result_low
    exec_hi := result_high
    exec := T.ThreadBit result_low result_high
    scc := fun i => result_low i != 0 }

def TranslateSaveexecB64 (mode : SaveexecMode) (dst : Register) (src : Operand) (s : State ι) :
    State ι :=
  let result_low := fun i => mode.apply (s.exec_lo i) (ReadRawU32 s src i)
  let result_high := fun i => mode.apply (s.exec_hi i) (ReadHighRaw s src i)
  { T.WriteU64 dst s.exec_lo s.exec_hi s with
    exec_lo := result_low
    exec_hi := result_high
    exec := T.ThreadBit result_low result_high
    scc := fun i => (result_low i ||| result_high i) != 0 }
where
  /-- `ReadRawU32(OffsetOperand(inst.src[0], 1))`: an immediate is not offset. -/
  ReadHighRaw (s : State ι) : Operand → ι → Word
    | .register reg => ReadRegister s reg.file (reg.index + 1)
    | .immediateU32 imm _ => fun _ => imm

/-- `SelectU64`, as the two words. -/
def selectU64 (condition : ι → Bool) (lhs rhs : (ι → Word) × (ι → Word)) :
    (ι → Word) × (ι → Word) :=
  (fun i => if condition i then lhs.1 i else rhs.1 i,
    fun i => if condition i then lhs.2 i else rhs.2 i)

def TranslateInstruction : Instruction → State ι → State ι
  | .moveU32 dst src, s => T.TranslateMoveU32 dst src s
  | .moveU64 dst src, s => T.TranslateMoveU64 dst src s
  | .bitwiseU32 op dst src0 src1, s => T.TranslateBitwiseU32 op dst src0 src1 s
  | .bitwiseU64 op dst src0 src1, s => T.TranslateU64MaskOperation op dst src0 src1 s
  | .saveexecB32 mode dst src, s => T.TranslateSaveexecB32 mode dst src s
  | .saveexecB64 mode dst src, s => T.TranslateSaveexecB64 mode dst src s
  | .compare dst result, s => T.WriteCompareResult dst (fun i => result (T.LaneId i)) s
  | .selectU32 dst src1 src2, s =>
    T.WriteU32 dst (fun i => if s.scc i then ReadRawU32 s src1 i else ReadRawU32 s src2 i) s
  | .selectU64 dst src1 src2, s =>
    let value := selectU64 s.scc (ReadU64 s src1) (ReadU64 s src2)
    T.WriteU64 dst value.1 value.2 s
  | .sccNonZeroU32 src, s => { s with scc := fun i => ReadRawU32 s src i != 0 }
  | .sccNonZeroU64 src, s =>
    { s with scc := fun i => ((ReadU64 s src).1 i != 0) || ((ReadU64 s src).2 i != 0) }

/-- The registers as `TranslateProgram` sets them: every lane is active. -/
def Prologue (user_data : ℕ → Word) : State ι where
  scalar := fun reg _ => user_data reg
  thread_bit := fun _ _ => false
  exec := fun _ => true
  exec_lo := fun _ => 0xffffffff
  exec_hi := fun _ => if 32 < T.current_wave_size then 0xffffffff else 0
  vcc := fun _ => false
  vcc_lo := fun _ => 0
  vcc_hi := fun _ => 0
  scc := fun _ => false
  m0 := fun _ => 0

end Translator

end MagnusPS5.Shader.LaneMasks
