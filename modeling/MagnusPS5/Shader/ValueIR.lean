/-
The value IR of the shader recompiler (`Value.cpp`, `Block.cpp`, `ValueOpcodes.inc`).

A program is a table of instructions and the blocks that list them. An instruction has an
opcode and arguments; an argument is an immediate or the result of an instruction, named
by its number. The source keeps, beside the arguments, for each instruction the list of
its uses; the list says the same as the arguments and is left out here. The opcodes that
no pass of this development looks at are kept apart by a number, with the type of their
result.
-/
import Mathlib.Tactic.Common

namespace MagnusPS5.Shader

/-! ## Types and opcodes -/

/-- `Type`. The kinds of resources are kept apart by a number. -/
inductive IRType
  | void | scalarReg | vectorReg | u1 | u8 | u16 | u32 | u64 | f16 | f32 | u32x2 | u32x4
  | other (kind : ℕ)
  deriving DecidableEq

inductive ValueOpcode
  | phi | identity
  | bitCastU16F16 | bitCastF16U16 | bitCastU32F32 | bitCastF32U32
  | convertU16U32 | convertU32U16 | convertU8U32 | convertU32U8
  | compositeConstructU32x2 | compositeConstructU32x4
  | compositeExtractU32x2 | compositeExtractU32x4
  | packUint2x32 | unpackUint2x32
  | bitFieldInsert | bitFieldUExtract | bitFieldSExtract
  | selectU1 | selectU32 | selectF32
  | iAdd32 | iAdd64 | iAddCarry32 | iSub32 | iSub64 | iMul32 | iMul64 | uDiv32
  | sMulHi | uMulHi | iAbs32
  | shiftLeftLogical32 | shiftLeftLogical64 | shiftRightLogical32 | shiftRightLogical64
  | shiftRightArithmetic32 | shiftRightArithmetic64
  | bitwiseAnd32 | bitwiseAnd64 | bitwiseOr32 | bitwiseOr64 | bitwiseXor32 | bitwiseNot32
  | bitCount32 | bitCount64
  | sMin32 | uMin32 | sMax32 | uMax32
  | sLessThan32 | sLessThan64 | uLessThan32 | uLessThan64 | iEqual32 | iEqual64
  | sLessThanEqual32 | sLessThanEqual64 | uLessThanEqual32 | uLessThanEqual64
  | sGreaterThan32 | sGreaterThan64 | uGreaterThan32 | uGreaterThan64
  | iNotEqual32 | iNotEqual64
  | sGreaterThanEqual32 | sGreaterThanEqual64 | uGreaterThanEqual32 | uGreaterThanEqual64
  | logicalOr | logicalAnd | logicalXor | logicalNot
  | other (index : ℕ) (type : IRType)
  deriving DecidableEq

namespace ValueOpcode

/-- `TypeOf`, of the opcodes whose result type does not depend on their arguments. -/
def typeOf : ValueOpcode → IRType
  | phi | identity => .void
  | bitCastU16F16 | convertU16U32 => .u16
  | bitCastF16U16 => .f16
  | bitCastF32U32 | selectF32 => .f32
  | convertU8U32 => .u8
  | compositeConstructU32x2 | unpackUint2x32 | iAddCarry32 => .u32x2
  | compositeConstructU32x4 => .u32x4
  | packUint2x32 | iAdd64 | iSub64 | iMul64 | shiftLeftLogical64 | shiftRightLogical64
  | shiftRightArithmetic64 | bitwiseAnd64 | bitwiseOr64 => .u64
  | selectU1 | sLessThan32 | sLessThan64 | uLessThan32 | uLessThan64 | iEqual32 | iEqual64
  | sLessThanEqual32 | sLessThanEqual64 | uLessThanEqual32 | uLessThanEqual64
  | sGreaterThan32 | sGreaterThan64 | uGreaterThan32 | uGreaterThan64
  | iNotEqual32 | iNotEqual64
  | sGreaterThanEqual32 | sGreaterThanEqual64 | uGreaterThanEqual32 | uGreaterThanEqual64
  | logicalOr | logicalAnd | logicalXor | logicalNot => .u1
  | bitCastU32F32 | convertU32U16 | convertU32U8 | compositeExtractU32x2 | compositeExtractU32x4
  | bitFieldInsert | bitFieldUExtract | bitFieldSExtract | selectU32
  | iAdd32 | iSub32 | iMul32 | uDiv32 | sMulHi | uMulHi | iAbs32
  | shiftLeftLogical32 | shiftRightLogical32 | shiftRightArithmetic32
  | bitwiseAnd32 | bitwiseOr32 | bitwiseXor32 | bitwiseNot32 | bitCount32 | bitCount64
  | sMin32 | uMin32 | sMax32 | uMax32 => .u32
  | other _ type => type

/-- `ArgTypeOf`, for all arguments, of the opcodes that have a fixed number of them and
that the passes look at. -/
def argTypes : ValueOpcode → Option (List IRType)
  | phi | identity | other _ _ => none
  | bitCastU16F16 => some [.f16]
  | bitCastF16U16 | convertU32U16 => some [.u16]
  | bitCastU32F32 => some [.f32]
  | bitCastF32U32 | convertU16U32 | convertU8U32 | iAbs32 | bitwiseNot32 | bitCount32 => some [.u32]
  | convertU32U8 => some [.u8]
  | compositeConstructU32x4 | bitFieldInsert => some [.u32, .u32, .u32, .u32]
  | compositeExtractU32x2 => some [.u32x2, .u32]
  | compositeExtractU32x4 => some [.u32x4, .u32]
  | packUint2x32 => some [.u32x2]
  | unpackUint2x32 | bitCount64 => some [.u64]
  | bitFieldUExtract | bitFieldSExtract => some [.u32, .u32, .u32]
  | selectU1 => some [.u1, .u1, .u1]
  | selectU32 => some [.u1, .u32, .u32]
  | selectF32 => some [.u1, .f32, .f32]
  | compositeConstructU32x2 | iAdd32 | iAddCarry32 | iSub32 | iMul32 | uDiv32 | sMulHi | uMulHi
  | shiftLeftLogical32 | shiftRightLogical32 | shiftRightArithmetic32
  | bitwiseAnd32 | bitwiseOr32 | bitwiseXor32 | sMin32 | uMin32 | sMax32 | uMax32
  | sLessThan32 | uLessThan32 | iEqual32 | sLessThanEqual32 | uLessThanEqual32
  | sGreaterThan32 | uGreaterThan32 | iNotEqual32
  | sGreaterThanEqual32 | uGreaterThanEqual32 => some [.u32, .u32]
  | iAdd64 | iSub64 | iMul64 | bitwiseAnd64 | bitwiseOr64
  | sLessThan64 | uLessThan64 | iEqual64 | sLessThanEqual64 | uLessThanEqual64
  | sGreaterThan64 | uGreaterThan64 | iNotEqual64
  | sGreaterThanEqual64 | uGreaterThanEqual64 => some [.u64, .u64]
  | shiftLeftLogical64 | shiftRightLogical64 | shiftRightArithmetic64 => some [.u64, .u32]
  | logicalOr | logicalAnd | logicalXor => some [.u1, .u1]
  | logicalNot => some [.u1]

end ValueOpcode

/-! ## Values, instructions, programs -/

/-- `Value`: nothing, the result of an instruction, a register, or an immediate. The
immediates of type `F16` and `F32` are kept by their bits. -/
inductive Value
  | empty
  | inst (id : ℕ)
  | scalarReg (index : ℕ)
  | vectorReg (index : ℕ)
  | u1 (value : Bool)
  | u8 (value : BitVec 8)
  | u16 (value : BitVec 16)
  | u32 (value : BitVec 32)
  | u64 (value : BitVec 64)
  | f16 (bits : BitVec 16)
  | f32 (bits : BitVec 32)
  deriving DecidableEq

def Value.tryInstruction : Value → Option ℕ
  | .inst id => some id
  | _ => none

/-- `Inst`. The block of each argument is kept for a `Phi` alone. -/
structure Inst where
  opcode : ValueOpcode
  args : List Value
  phi_blocks : List ℕ := []
  deriving DecidableEq

/-- A list of blocks: the instructions of each, by their numbers, and its predecessors. The
first block is the entry. -/
structure Program where
  insts : ℕ → Inst
  blocks : List (List ℕ)
  predecessors : ℕ → List ℕ

namespace Program

def instArg (P : Program) (i index : ℕ) : Value := (P.insts i).args.getD index .empty

/-- `Value::Resolve`, through at most `fuel` identities. -/
def resolveIn (P : Program) : ℕ → Value → Value
  | fuel + 1, .inst id =>
    if (P.insts id).opcode = .identity then resolveIn P fuel (P.instArg id 0) else .inst id
  | _, value => value

/-- `Value::Resolve`. No chain of identities has more links than the program has
instructions. -/
def resolve (P : Program) (value : Value) : Value := P.resolveIn P.blocks.flatten.length value

/-- `Inst::ReplaceUsesWith`: every use of the instruction becomes the value, and the
instruction an `Identity` of it. -/
def replaceUsesWith (P : Program) (i : ℕ) (replacement : Value) : Program :=
  { P with
    insts := fun n =>
      if n = i then { opcode := .identity, args := [replacement] }
      else
        { P.insts n with
          args := (P.insts n).args.map fun arg =>
            if arg = .inst i then replacement else arg } }

end Program

end MagnusPS5.Shader
