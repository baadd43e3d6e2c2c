/-
`ConstantPropagationPass` (`ConstantPropagation.cpp`).

`foldInstruction` follows the source case by case. Its result is the value that the source
passes to `Replace`, or none where the source leaves the instruction as it is. The pass
goes once over the instructions in the order of the blocks, and what one replacement
leaves is what the next one sees.
-/
import MagnusPS5.Shader.ValueIR

namespace MagnusPS5.Shader.Program

variable (P : Program) (i : ℕ)

def arg (index : ℕ) : Value := P.resolve (P.instArg i index)

/-- The instruction behind a value, if it has the opcode. -/
def producer (value : Value) (opcode : ValueOpcode) : Option ℕ :=
  value.tryInstruction.filter fun p => (P.insts p).opcode = opcode

/-! ## The functions that fold a family of opcodes -/

def foldU32 (function : BitVec 32 → BitVec 32 → BitVec 32) : Option Value :=
  match P.arg i 0, P.arg i 1 with
  | .u32 lhs, .u32 rhs => some (.u32 (function lhs rhs))
  | _, _ => none

def foldU64 (function : BitVec 64 → BitVec 64 → BitVec 64) : Option Value :=
  match P.arg i 0, P.arg i 1 with
  | .u64 lhs, .u64 rhs => some (.u64 (function lhs rhs))
  | _, _ => none

def foldU64Shift (function : BitVec 64 → BitVec 32 → BitVec 64) : Option Value :=
  match P.arg i 0, P.arg i 1 with
  | .u64 value, .u32 shift => some (.u64 (function value shift))
  | _, _ => none

def foldU32Compare (function : BitVec 32 → BitVec 32 → Bool) : Option Value :=
  match P.arg i 0, P.arg i 1 with
  | .u32 lhs, .u32 rhs => some (.u1 (function lhs rhs))
  | _, _ => none

def foldU64Compare (function : BitVec 64 → BitVec 64 → Bool) : Option Value :=
  match P.arg i 0, P.arg i 1 with
  | .u64 lhs, .u64 rhs => some (.u1 (function lhs rhs))
  | _, _ => none

def foldLogical (function : Bool → Bool → Bool) : Option Value :=
  match P.arg i 0, P.arg i 1 with
  | .u1 lhs, .u1 rhs => some (.u1 (function lhs rhs))
  | _, _ => none

/-- `ReplaceBinaryIdentity`, with the immediate that is the identity. -/
def replaceBinaryIdentity (identity : Value) : Option Value :=
  if P.arg i 0 = identity then some (P.arg i 1)
  else if P.arg i 1 = identity then some (P.arg i 0)
  else none

def foldSelect : Option Value :=
  let true_value := P.arg i 1
  let false_value := P.arg i 2
  match P.arg i 0 with
  | .u1 condition => some (if condition then true_value else false_value)
  | _ => if true_value = false_value then some true_value else none

/-- The loop of `FoldPhi` over the arguments: `some same` at its end, none where two
arguments differ. -/
def foldPhiLoop : Value → List Value → Option Value
  | same, [] => some same
  | same, arg :: args =>
    let value := P.resolve arg
    if value = .inst i then foldPhiLoop same args
    else if same = .empty then foldPhiLoop value args
    else if same ≠ value then none
    else foldPhiLoop same args

def foldPhi : Option Value :=
  (P.foldPhiLoop i .empty (P.insts i).args).filter fun same => same ≠ .empty

/-- The end of `FoldBitCast`: two casts that undo each other. -/
def foldReverse (opcode : ValueOpcode) : Option Value :=
  (P.producer (P.arg i 0) opcode).map fun producer => P.instArg producer 0

def foldBitCast (opcode reverse : ValueOpcode) : Option Value :=
  match opcode, P.arg i 0 with
  | .bitCastU32F32, .f32 bits => some (.u32 bits)
  | .bitCastF32U32, .u32 value => some (.f32 value)
  | .bitCastU16F16, .f16 bits => some (.u16 bits)
  | .bitCastF16U16, .u16 value => some (.f16 value)
  | _, _ => P.foldReverse i reverse

/-- What `FoldCompositeExtract` takes out of the sum of two immediates. -/
def extractCarry (producer component : ℕ) : Option Value :=
  match P.arg producer 0, P.arg producer 1 with
  | .u32 lhs, .u32 rhs =>
    let sum := lhs.setWidth 64 + rhs.setWidth 64
    some (.u32 (if component = 0 then sum.setWidth 32 else (sum >>> 32).setWidth 32))
  | _, _ => none

/-- What `FoldCompositeExtract` takes out of an immediate that was unpacked. -/
def extractUnpacked (producer component : ℕ) : Option Value :=
  match P.arg producer 0 with
  | .u64 packed => some (.u32 ((packed >>> (component * 32)).setWidth 32))
  | _ => none

def foldCompositeExtract (construct : ValueOpcode) (components : ℕ) : Option Value :=
  match P.arg i 1 with
  | .u32 index =>
    let component := index.toNat
    if component ≥ components then none
    else
      let composite := P.arg i 0
      match P.producer composite construct with
      | some producer => some (P.instArg producer component)
      | none =>
        if component < 2 then
          ((P.producer composite .iAddCarry32).bind fun producer =>
            P.extractCarry producer component).or
          ((P.producer composite .unpackUint2x32).bind fun producer =>
            P.extractUnpacked producer component)
        else none
  | _ => none

/-! ## The cases of `FoldInstruction` with a body of their own -/

def foldBitFieldInsert : Option Value :=
  match P.arg i 0, P.arg i 1, P.arg i 2, P.arg i 3 with
  | .u32 base, .u32 insert, .u32 offset, .u32 count =>
    if offset.toNat ≤ 32 ∧ count.toNat ≤ 32 - offset.toNat then
      if count = 0 then some (.u32 base)
      else
        let mask : BitVec 32 :=
          if count = 32 then 0xffffffff else (1#32 <<< count.toNat - 1#32) <<< offset.toNat
        some (.u32 ((base &&& ~~~mask) ||| ((insert <<< offset.toNat) &&& mask)))
    else none
  | _, _, _, _ => none

/-- `BitFieldUExtract` and `BitFieldSExtract`. -/
def foldBitFieldExtract (is_signed : Bool) : Option Value :=
  match P.arg i 0, P.arg i 1, P.arg i 2 with
  | .u32 value, .u32 offset, .u32 count =>
    if offset.toNat > 32 ∨ count.toNat > 32 - offset.toNat then none
    else if count = 0 then some (.u32 0)
    else if is_signed = false then
      let mask : BitVec 32 := if count = 32 then 0xffffffff else 1#32 <<< count.toNat - 1#32
      some (.u32 ((value >>> offset.toNat) &&& mask))
    else
      let left := 32 - offset.toNat - count.toNat
      let bits := value <<< left
      some (.u32 (bits.sshiftRight (left + offset.toNat)))
  | _, _, _ => none

def foldConvertU16U32 : Option Value :=
  match P.arg i 0 with
  | .u32 value => some (.u16 (value.setWidth 16))
  | _ => none

def foldConvertU32U16 : Option Value :=
  match P.arg i 0 with
  | .u16 value => some (.u32 (value.setWidth 32))
  | value => (P.producer value .convertU16U32).map fun producer => P.instArg producer 0

def foldConvertU8U32 : Option Value :=
  match P.arg i 0 with
  | .u32 value => some (.u8 (value.setWidth 8))
  | _ => none

def foldConvertU32U8 : Option Value :=
  match P.arg i 0 with
  | .u8 value => some (.u32 (value.setWidth 32))
  | value => (P.producer value .convertU8U32).map fun producer => P.instArg producer 0

/-- The packing of two immediates in `PackUint2x32`. -/
def packImmediates (producer : ℕ) : Option Value :=
  match P.arg producer 0, P.arg producer 1 with
  | .u32 low, .u32 high => some (.u64 (low.setWidth 64 ||| high.setWidth 64 <<< 32))
  | _, _ => none

def foldPackUint2x32 : Option Value :=
  let value := P.arg i 0
  match P.producer value .unpackUint2x32 with
  | some producer => some (P.instArg producer 0)
  | none => (P.producer value .compositeConstructU32x2).bind P.packImmediates

/-- The right identity of a subtraction. -/
def foldSubZero (zero : Value) : Option Value :=
  if P.arg i 1 = zero then some (P.arg i 0) else none

/-- A shift that the mask of its count makes a shift by zero. -/
def foldShiftZero (mask : BitVec 32) : Option Value :=
  match P.arg i 1 with
  | .u32 shift => if shift &&& mask = 0 then some (P.arg i 0) else none
  | _ => none

def foldUDiv32 : Option Value :=
  match P.arg i 1 with
  | .u32 rhs =>
    if rhs = 1 then some (P.arg i 0)
    else if rhs ≠ 0 then P.foldU32 i fun a b => a / b
    else none
  | _ => none

/-- The lambda of `SMulHi`. -/
def sMulHi (a b : BitVec 32) : BitVec 32 :=
  let product := a.signExtend 64 * b.signExtend 64
  (product >>> 32).setWidth 32

/-- The lambda of `UMulHi`. -/
def uMulHi (a b : BitVec 32) : BitVec 32 := ((a.setWidth 64 * b.setWidth 64) >>> 32).setWidth 32

def foldIAbs32 : Option Value :=
  match P.arg i 0 with
  | .u32 value => some (.u32 (if value &&& 0x80000000 ≠ 0 then 0 - value else value))
  | _ => none

def popcount {w : ℕ} (value : BitVec w) : ℕ :=
  (List.range w).countP fun k => value.getLsbD k

def foldBitCount32 : Option Value :=
  match P.arg i 0 with
  | .u32 value => some (.u32 (BitVec.ofNat 32 (popcount value)))
  | _ => none

def foldBitCount64 : Option Value :=
  match P.arg i 0 with
  | .u64 value => some (.u32 (BitVec.ofNat 32 (popcount value)))
  | _ => none

def foldBitwiseNot32 : Option Value :=
  match P.arg i 0 with
  | .u32 value => some (.u32 (~~~value))
  | _ => P.foldReverse i .bitwiseNot32

/-- The end of `LogicalAnd`. -/
def foldAndIdentity : Option Value :=
  match P.arg i 0, P.arg i 1 with
  | .u1 lhs, rhs => some (if lhs then rhs else .u1 lhs)
  | lhs, .u1 rhs => some (if rhs then lhs else .u1 rhs)
  | _, _ => none

/-- The end of `LogicalOr`. -/
def foldOrIdentity : Option Value :=
  match P.arg i 0, P.arg i 1 with
  | .u1 lhs, rhs => some (if lhs then .u1 lhs else rhs)
  | lhs, .u1 rhs => some (if rhs then .u1 rhs else lhs)
  | _, _ => none

def foldLogicalNot : Option Value :=
  match P.arg i 0 with
  | .u1 value => some (.u1 !value)
  | _ => P.foldReverse i .logicalNot

/-! ## The pass -/

/-- `FoldInstruction`, for an instruction with the opcode. -/
def foldOpcode : ValueOpcode → Option Value
  | .phi => P.foldPhi i
  | .selectU1 | .selectU32 | .selectF32 => P.foldSelect i
  | .bitFieldInsert => P.foldBitFieldInsert i
  | .bitFieldUExtract => P.foldBitFieldExtract i false
  | .bitFieldSExtract => P.foldBitFieldExtract i true
  | .bitCastU16F16 => P.foldBitCast i .bitCastU16F16 .bitCastF16U16
  | .bitCastF16U16 => P.foldBitCast i .bitCastF16U16 .bitCastU16F16
  | .bitCastU32F32 => P.foldBitCast i .bitCastU32F32 .bitCastF32U32
  | .bitCastF32U32 => P.foldBitCast i .bitCastF32U32 .bitCastU32F32
  | .convertU16U32 => P.foldConvertU16U32 i
  | .convertU32U16 => P.foldConvertU32U16 i
  | .convertU8U32 => P.foldConvertU8U32 i
  | .convertU32U8 => P.foldConvertU32U8 i
  | .compositeExtractU32x2 => P.foldCompositeExtract i .compositeConstructU32x2 2
  | .compositeExtractU32x4 => P.foldCompositeExtract i .compositeConstructU32x4 4
  | .packUint2x32 => P.foldPackUint2x32 i
  | .unpackUint2x32 => P.foldReverse i .packUint2x32
  | .iAdd32 => (P.foldU32 i fun a b => a + b).or (P.replaceBinaryIdentity i (.u32 0))
  | .iAdd64 => (P.foldU64 i fun a b => a + b).or (P.replaceBinaryIdentity i (.u64 0))
  | .iSub32 => (P.foldU32 i fun a b => a - b).or (P.foldSubZero i (.u32 0))
  | .iSub64 => (P.foldU64 i fun a b => a - b).or (P.foldSubZero i (.u64 0))
  | .iMul32 => (P.foldU32 i fun a b => a * b).or (P.replaceBinaryIdentity i (.u32 1))
  | .iMul64 => (P.foldU64 i fun a b => a * b).or (P.replaceBinaryIdentity i (.u64 1))
  | .uDiv32 => P.foldUDiv32 i
  | .sMulHi => P.foldU32 i sMulHi
  | .uMulHi => P.foldU32 i uMulHi
  | .iAbs32 => P.foldIAbs32 i
  | .shiftLeftLogical32 =>
    (P.foldU32 i fun a b => a <<< (b &&& 31).toNat).or (P.foldShiftZero i 31)
  | .shiftRightLogical32 =>
    (P.foldU32 i fun a b => a >>> (b &&& 31).toNat).or (P.foldShiftZero i 31)
  | .shiftRightArithmetic32 => P.foldU32 i fun a b => a.sshiftRight (b &&& 31).toNat
  | .shiftLeftLogical64 =>
    (P.foldU64Shift i fun a b => a <<< (b &&& 63).toNat).or (P.foldShiftZero i 63)
  | .shiftRightLogical64 =>
    (P.foldU64Shift i fun a b => a >>> (b &&& 63).toNat).or (P.foldShiftZero i 63)
  | .shiftRightArithmetic64 => P.foldU64Shift i fun a b => a.sshiftRight (b &&& 63).toNat
  | .bitwiseAnd32 =>
    (P.foldU32 i fun a b => a &&& b).or (P.replaceBinaryIdentity i (.u32 0xffffffff))
  | .bitwiseAnd64 =>
    (P.foldU64 i fun a b => a &&& b).or (P.replaceBinaryIdentity i (.u64 0xffffffffffffffff))
  | .bitwiseOr32 => (P.foldU32 i fun a b => a ||| b).or (P.replaceBinaryIdentity i (.u32 0))
  | .bitwiseXor32 => (P.foldU32 i fun a b => a ^^^ b).or (P.replaceBinaryIdentity i (.u32 0))
  | .bitwiseOr64 => (P.foldU64 i fun a b => a ||| b).or (P.replaceBinaryIdentity i (.u64 0))
  | .bitwiseNot32 => P.foldBitwiseNot32 i
  | .bitCount32 => P.foldBitCount32 i
  | .bitCount64 => P.foldBitCount64 i
  | .sMin32 => P.foldU32 i fun a b => if a.slt b then a else b
  | .sMax32 => P.foldU32 i fun a b => if b.slt a then a else b
  | .uMin32 => P.foldU32 i fun a b => if b.ult a then b else a
  | .uMax32 => P.foldU32 i fun a b => if a.ult b then b else a
  | .iEqual32 => P.foldU32Compare i fun a b => a == b
  | .iNotEqual32 => P.foldU32Compare i fun a b => a != b
  | .uLessThan32 => P.foldU32Compare i fun a b => a.ult b
  | .uLessThanEqual32 => P.foldU32Compare i fun a b => a.ule b
  | .uGreaterThan32 => P.foldU32Compare i fun a b => b.ult a
  | .uGreaterThanEqual32 => P.foldU32Compare i fun a b => b.ule a
  | .sLessThan32 => P.foldU32Compare i fun a b => a.slt b
  | .sLessThanEqual32 => P.foldU32Compare i fun a b => a.sle b
  | .sGreaterThan32 => P.foldU32Compare i fun a b => b.slt a
  | .sGreaterThanEqual32 => P.foldU32Compare i fun a b => b.sle a
  | .iEqual64 => P.foldU64Compare i fun a b => a == b
  | .iNotEqual64 => P.foldU64Compare i fun a b => a != b
  | .uLessThan64 => P.foldU64Compare i fun a b => a.ult b
  | .uLessThanEqual64 => P.foldU64Compare i fun a b => a.ule b
  | .uGreaterThan64 => P.foldU64Compare i fun a b => b.ult a
  | .uGreaterThanEqual64 => P.foldU64Compare i fun a b => b.ule a
  | .sLessThan64 => P.foldU64Compare i fun a b => a.slt b
  | .sLessThanEqual64 => P.foldU64Compare i fun a b => a.sle b
  | .sGreaterThan64 => P.foldU64Compare i fun a b => b.slt a
  | .sGreaterThanEqual64 => P.foldU64Compare i fun a b => b.sle a
  | .logicalAnd => (P.foldLogical i fun a b => a && b).or (P.foldAndIdentity i)
  | .logicalOr => (P.foldLogical i fun a b => a || b).or (P.foldOrIdentity i)
  | .logicalXor =>
    (P.foldLogical i fun a b => a != b).or (P.replaceBinaryIdentity i (.u1 false))
  | .logicalNot => P.foldLogicalNot i
  | .identity | .compositeConstructU32x2 | .compositeConstructU32x4 | .iAddCarry32
  | .other _ _ => none

/-- `FoldInstruction`: the value that the instruction is replaced by. -/
def foldInstruction : Option Value := P.foldOpcode i (P.insts i).opcode

/-- One round of the loop of `ConstantPropagationPass`. -/
def foldStep : Program :=
  match P.foldInstruction i with
  | none => P
  | some value => P.replaceUsesWith i (P.resolve value)

def constantPropagationPass : Program := P.blocks.flatten.foldl foldStep P

end MagnusPS5.Shader.Program
