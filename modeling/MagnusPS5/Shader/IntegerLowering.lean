/-
Integer instructions whose results are put together from words (`Integer.cpp`, `Control.cpp`).

The translator emits opcodes of the IR for them: wide products and sums from 32-bit pieces with
their carries, bit fields, funnel shifts. `lower` is what the opcodes make of the operands, and
`result` what the instruction set says, in integers. Where `lower` has no result, the emitted
code has an undefined one.
-/
import MagnusPS5.Shader.ValueSemantics

namespace MagnusPS5.Shader.IntegerLowering

abbrev Word := BitVec 32

/-! ## The opcodes that are emitted -/

variable (opcode : ValueOpcode)

def emitU32 (args : List Val) : Option Word :=
  match eval opcode args with
  | some (.u32 a) => some a
  | _ => none

def emitU64 (args : List Val) : Option (BitVec 64) :=
  match eval opcode args with
  | some (.u64 a) => some a
  | _ => none

def emitU1 (args : List Val) : Option Bool :=
  match eval opcode args with
  | some (.u1 a) => some a
  | _ => none

def mask (value bits : Word) : Option Word := emitU32 .bitwiseAnd32 [.u32 value, .u32 bits]

def extract (value offset width : Word) : Option Word :=
  emitU32 .bitFieldUExtract [.u32 value, .u32 offset, .u32 width]

def select (condition : Bool) (a b : Word) : Option Word :=
  emitU32 .selectU32 [.u1 condition, .u32 a, .u32 b]

def packUint2x32 (low high : Word) : Option (BitVec 64) :=
  (eval .compositeConstructU32x2 [.u32 low, .u32 high]).bind fun pair =>
    emitU64 .packUint2x32 [pair]

def unpackU64 (value : BitVec 64) : Option (Word × Word) := do
  let pair ← eval .unpackUint2x32 [.u64 value]
  let low ← emitU32 .compositeExtractU32x2 [pair, .u32 0]
  let high ← emitU32 .compositeExtractU32x2 [pair, .u32 1]
  some (low, high)

/-- `IAddCarry32` and its two components. -/
def addCarry (a b : Word) : Option (Word × Word) := do
  let pair ← eval .iAddCarry32 [.u32 a, .u32 b]
  let sum ← emitU32 .compositeExtractU32x2 [pair, .u32 0]
  let carry ← emitU32 .compositeExtractU32x2 [pair, .u32 1]
  some (sum, carry)

def rightMask32 (count : Word) : Option Word :=
  emitU32 .bitFieldInsert [.u32 0, .u32 0xffffffff, .u32 0, .u32 count]

def rightMask64 (count : Word) : Option (BitVec 64) := do
  let below32 ← emitU1 .uLessThan32 [.u32 count, .u32 32]
  let above32 ← emitU1 .uGreaterThan32 [.u32 count, .u32 32]
  let low_count ← select below32 count 32
  let high_count ← select above32 (← emitU32 .iSub32 [.u32 count, .u32 32]) 0
  packUint2x32 (← rightMask32 low_count) (← rightMask32 high_count)

def conditionBit (bit : Bool) : Option Word := select bit 1 0

/-! ## The instructions -/

/-- What an instruction writes: its destination, and its carry, borrow or SCC. -/
structure Written where
  dst : Val
  bit : Option Bool := none
  deriving DecidableEq

/-- The instructions with their operands. A vector sum or difference masks its carry with
EXEC, and one without carry-in has `false` there. -/
inductive Instruction
  | vMadU64U32 (src0 src1 : Word) (src2 : BitVec 64)
  | add (vector : Option Bool) (src0 src1 : Word) (carry_in : Bool)
  | sub (vector : Option Bool) (src0 src1 : Word)
  | subRev (vector : Option Bool) (src0 src1 : Word)
  | subBorrow (vector : Option Bool) (src0 src1 : Word) (borrow_in : Bool)
  | subRevBorrow (vector : Option Bool) (src0 src1 : Word) (borrow_in : Bool)
  | bfmB32 (src0 src1 : Word)
  | sBfmB64 (src0 src1 : Word)
  | sBfe32 (signed : Bool) (src0 src1 : Word)
  | sBfeU64 (src0 : BitVec 64) (src1 : Word)
  | vBfe (signed : Bool) (src0 src1 src2 : Word)
  | vAlignbitB32 (src0 src1 src2 : Word)
  | vAlignbyteB32 (src0 src1 src2 : Word)
  | sLshlB64 (src0 : BitVec 64) (src1 : Word)
  | sLshrB64 (src0 : BitVec 64) (src1 : Word)

variable (vector : Option Bool)

/-- How a carry is written: to SCC, or to a mask after `LogicalAnd(GetExec(), carry)`. -/
def writeCarry (dst : Word) (carry : Bool) : Option Written :=
  match vector with
  | none => some { dst := .u32 dst, bit := some carry }
  | some exec => do
    let masked ← emitU1 .logicalAnd [.u1 exec, .u1 carry]
    some { dst := .u32 dst, bit := some masked }

/-- A result with the SCC update that `AppendScalarResultSccNonZero` appends. -/
def writeScc (dst zero : Val) : Option Written := do
  let scc ← emitU1 opcode [dst, zero]
  some { dst, bit := some scc }

def lowerMad (src0 src1 : Word) (src2 : BitVec 64) : Option Written := do
  let (add0, add1) ← unpackU64 src2
  let mul_low ← emitU32 .iMul32 [.u32 src0, .u32 src1]
  let mul_high ← emitU32 .uMulHi [.u32 src0, .u32 src1]
  let low ← emitU32 .iAdd32 [.u32 mul_low, .u32 add0]
  let carry_low ← emitU1 .uLessThan32 [.u32 low, .u32 mul_low]
  let high0 ← emitU32 .iAdd32 [.u32 mul_high, .u32 add1]
  let carry0 ← emitU1 .uLessThan32 [.u32 high0, .u32 mul_high]
  let high ← emitU32 .iAdd32 [.u32 high0, .u32 (← select carry_low 1 0)]
  let carry1 ← emitU1 .uLessThan32 [.u32 high, .u32 high0]
  let carry ← emitU1 .logicalOr [.u1 carry0, .u1 carry1]
  some { dst := .u64 (← packUint2x32 low high), bit := some carry }

def lowerAddCarry (lhs rhs : Word) (carry : Bool) : Option Written := do
  let carry_in ← conditionBit carry
  let (sum, carry0) ← addCarry lhs rhs
  let (result, carry1) ← addCarry sum carry_in
  let carries ← emitU32 .bitwiseOr32 [.u32 carry0, .u32 carry1]
  writeCarry vector result (← emitU1 .iNotEqual32 [.u32 carries, .u32 0])

def lowerSubBorrow (lhs rhs : Word) : Option Written := do
  let result ← emitU32 .iSub32 [.u32 lhs, .u32 rhs]
  writeCarry vector result (← emitU1 .uGreaterThan32 [.u32 rhs, .u32 lhs])

def lowerSubBorrowCarry (lhs rhs : Word) (borrow : Bool) : Option Written := do
  let borrow_in ← conditionBit borrow
  let difference ← emitU32 .iSub32 [.u32 lhs, .u32 rhs]
  let result ← emitU32 .iSub32 [.u32 difference, .u32 borrow_in]
  let borrow0 ← emitU1 .uGreaterThan32 [.u32 rhs, .u32 lhs]
  let borrow1 ← emitU1 .uGreaterThan32 [.u32 borrow_in, .u32 difference]
  writeCarry vector result (← emitU1 .logicalOr [.u1 borrow0, .u1 borrow1])

/-- The end of the bit field extractions of a word: the width is cut at the end of the word. -/
def lowerExtract (signed : Bool) (src offset width : Word) : Option Word := do
  let available ← emitU32 .iSub32 [.u32 32, .u32 offset]
  let count ← emitU32 .uMin32 [.u32 width, .u32 available]
  emitU32 (if signed then .bitFieldSExtract else .bitFieldUExtract)
    [.u32 src, .u32 offset, .u32 count]

/-- What is emitted. -/
def Instruction.lower : Instruction → Option Written
  | vMadU64U32 src0 src1 src2 => lowerMad src0 src1 src2
  | add vector src0 src1 carry_in => lowerAddCarry vector src0 src1 carry_in
  | sub vector src0 src1 => lowerSubBorrow vector src0 src1
  | subRev vector src0 src1 => lowerSubBorrow vector src1 src0
  | subBorrow vector src0 src1 borrow_in => lowerSubBorrowCarry vector src0 src1 borrow_in
  | subRevBorrow vector src0 src1 borrow_in => lowerSubBorrowCarry vector src1 src0 borrow_in
  | bfmB32 src0 src1 => do
    let count ← mask src0 31
    let offset ← mask src1 31
    some { dst := .u32 (← emitU32 .bitFieldInsert
      [.u32 0, .u32 0xffffffff, .u32 offset, .u32 count]) }
  | sBfmB64 src0 src1 => do
    let count ← mask src0 63
    let offset ← mask src1 63
    some { dst := .u64 (← emitU64 .shiftLeftLogical64
      [.u64 (← rightMask64 count), .u32 offset]) }
  | sBfe32 signed src0 src1 => do
    let offset ← extract src1 0 5
    let width ← extract src1 16 7
    writeScc .iNotEqual32 (.u32 (← lowerExtract signed src0 offset width)) (.u32 0)
  | sBfeU64 src0 src1 => do
    let offset ← extract src1 0 6
    let raw_count ← extract src1 16 7
    let available ← emitU32 .iSub32 [.u32 64, .u32 offset]
    let count ← emitU32 .uMin32 [.u32 raw_count, .u32 available]
    let shifted ← emitU64 .shiftRightLogical64 [.u64 src0, .u32 offset]
    let result ← emitU64 .bitwiseAnd64 [.u64 shifted, .u64 (← rightMask64 count)]
    writeScc .iNotEqual64 (.u64 result) (.u64 0)
  | vBfe signed src0 src1 src2 => do
    some { dst := .u32 (← lowerExtract signed src0 (← mask src1 31) (← mask src2 31)) }
  | vAlignbitB32 hi lo src2 => do
    let shift ← mask src2 31
    let lo_part ← emitU32 .shiftRightLogical32 [.u32 lo, .u32 shift]
    let hi_shift ← mask (← emitU32 .iSub32 [.u32 32, .u32 shift]) 31
    let hi_part_raw ← emitU32 .shiftLeftLogical32 [.u32 hi, .u32 hi_shift]
    let hi_part ← select (← emitU1 .iNotEqual32 [.u32 shift, .u32 0]) hi_part_raw 0
    some { dst := .u32 (← emitU32 .bitwiseOr32 [.u32 lo_part, .u32 hi_part]) }
  | vAlignbyteB32 hi lo src2 => do
    let byte_offset ← mask src2 31
    let bit_offset ← emitU32 .shiftLeftLogical32 [.u32 byte_offset, .u32 3]
    let shifted ← emitU64 .shiftRightLogical64
      [.u64 (← packUint2x32 lo hi), .u32 (← mask bit_offset 63)]
    let in_range ← emitU1 .uLessThan32 [.u32 byte_offset, .u32 8]
    some { dst := .u32 (← select in_range (← unpackU64 shifted).1 0) }
  | sLshlB64 src0 src1 => do
    let result ← emitU64 .shiftLeftLogical64 [.u64 src0, .u32 (← mask src1 63)]
    writeScc .iNotEqual64 (.u64 result) (.u64 0)
  | sLshrB64 src0 src1 => do
    let result ← emitU64 .shiftRightLogical64 [.u64 src0, .u32 (← mask src1 63)]
    writeScc .iNotEqual64 (.u64 result) (.u64 0)

/-! ## The instruction set -/

/-- The carry of an instruction: bits of inactive lanes are cleared. -/
def masked (carry : Bool) : Bool := vector.getD true && carry

/-- Bits `offset` to `offset + width` of a number; without an end where the width passes it. -/
def field (value offset width : ℕ) : ℕ := value / 2 ^ offset % 2 ^ width

/-- The field of a word, with its own sign if it is signed. -/
def field32 (signed : Bool) (value : Word) (offset width : ℕ) : Word :=
  if signed then BitVec.ofInt 32 (Int.bmod (value.toInt / 2 ^ offset) (2 ^ width))
  else BitVec.ofNat 32 (field value.toNat offset width)

def word (n : ℕ) : Val := .u32 (BitVec.ofNat 32 n)

def twoWords (n : ℕ) : Val := .u64 (BitVec.ofNat 64 n)

/-- A sum of words, and whether it is too large for one. -/
def sum32 (n : ℕ) : Written :=
  ⟨word n, some (masked vector (decide (2 ^ 32 ≤ n)))⟩

/-- A difference of words, and whether it is negative. -/
def difference32 (n : ℤ) : Written :=
  ⟨.u32 (BitVec.ofInt 32 n), some (masked vector (decide (n < 0)))⟩

/-- What the instruction set prescribes. -/
def Instruction.result : Instruction → Written
  | vMadU64U32 src0 src1 src2 =>
    let n := src0.toNat * src1.toNat + src2.toNat
    ⟨twoWords n, some (decide (2 ^ 64 ≤ n))⟩
  | add vector src0 src1 carry_in => sum32 vector (src0.toNat + src1.toNat + carry_in.toNat)
  | sub vector src0 src1 => difference32 vector (src0.toNat - src1.toNat)
  | subRev vector src0 src1 => difference32 vector (src1.toNat - src0.toNat)
  | subBorrow vector src0 src1 borrow_in =>
    difference32 vector (src0.toNat - src1.toNat - borrow_in.toNat)
  | subRevBorrow vector src0 src1 borrow_in =>
    difference32 vector (src1.toNat - src0.toNat - borrow_in.toNat)
  | bfmB32 src0 src1 => ⟨word ((2 ^ (src0.toNat % 32) - 1) * 2 ^ (src1.toNat % 32)), none⟩
  | sBfmB64 src0 src1 => ⟨twoWords ((2 ^ (src0.toNat % 64) - 1) * 2 ^ (src1.toNat % 64)), none⟩
  | sBfe32 signed src0 src1 =>
    let value := field32 signed src0 (field src1.toNat 0 5) (field src1.toNat 16 7)
    ⟨.u32 value, some (decide (value ≠ 0))⟩
  | sBfeU64 src0 src1 =>
    let value := BitVec.ofNat 64 (field src0.toNat (field src1.toNat 0 6) (field src1.toNat 16 7))
    ⟨.u64 value, some (decide (value ≠ 0))⟩
  | vBfe signed src0 src1 src2 =>
    ⟨.u32 (field32 signed src0 (src1.toNat % 32) (src2.toNat % 32)), none⟩
  | vAlignbitB32 src0 src1 src2 =>
    ⟨word ((src0.toNat * 2 ^ 32 + src1.toNat) / 2 ^ (src2.toNat % 32)), none⟩
  | vAlignbyteB32 src0 src1 src2 =>
    ⟨word ((src0.toNat * 2 ^ 32 + src1.toNat) / 2 ^ (8 * (src2.toNat % 32))), none⟩
  | sLshlB64 src0 src1 =>
    let value := BitVec.ofNat 64 (src0.toNat * 2 ^ (src1.toNat % 64))
    ⟨.u64 value, some (decide (value ≠ 0))⟩
  | sLshrB64 src0 src1 =>
    let value := BitVec.ofNat 64 (src0.toNat / 2 ^ (src1.toNat % 64))
    ⟨.u64 value, some (decide (value ≠ 0))⟩

/-- The mask of `S_BFM_B32` and `V_BFM_B32` does not reach over the end of the word. -/
def Instruction.MaskFits : Instruction → Prop
  | bfmB32 src0 src1 => src0.toNat % 32 + src1.toNat % 32 ≤ 32
  | _ => True

end MagnusPS5.Shader.IntegerLowering
