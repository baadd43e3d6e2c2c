/-
What a program of the value IR computes.

`eval` is the meaning of an opcode on the values of its arguments, as the emitter and the
evaluator of the repository have it: 32-bit and 64-bit arithmetic wraps around, a shift
count is masked, and a narrowing conversion drops the upper bits. It is undefined for
opcodes that act on memory, lanes or floats, and where the opcode itself leaves its result
open; such a result is up to an `Oracle`, which sees all that has happened so far.

A `Run` goes through the blocks along any path that the predecessors allow. A `Phi` reads
its argument as it was at the end of the block that the path comes from. An `Identity` is
a copy.
-/
import MagnusPS5.Lib.Dominance
import MagnusPS5.Shader.ConstantPropagation
import Mathlib

namespace MagnusPS5.Shader

open Lib
open Function (update)

/-! ## Values at run time -/

/-- A value that a program computes with. -/
inductive Val
  | void
  | scalarReg (index : ℕ)
  | vectorReg (index : ℕ)
  | u1 (value : Bool)
  | u8 (value : BitVec 8)
  | u16 (value : BitVec 16)
  | u32 (value : BitVec 32)
  | u64 (value : BitVec 64)
  | f16 (bits : BitVec 16)
  | f32 (bits : BitVec 32)
  | u32x2 (x y : BitVec 32)
  | u32x4 (x y z w : BitVec 32)
  | other (kind bits : ℕ)
  deriving DecidableEq

namespace Val

def type : Val → IRType
  | void => .void
  | scalarReg _ => .scalarReg
  | vectorReg _ => .vectorReg
  | u1 _ => .u1
  | u8 _ => .u8
  | u16 _ => .u16
  | u32 _ => .u32
  | u64 _ => .u64
  | f16 _ => .f16
  | f32 _ => .f32
  | u32x2 _ _ => .u32x2
  | u32x4 _ _ _ _ => .u32x4
  | other kind _ => .other kind

/-- Some value of a type. -/
def default : IRType → Val
  | .void => void
  | .scalarReg => scalarReg 0
  | .vectorReg => vectorReg 0
  | .u1 => u1 false
  | .u8 => u8 0
  | .u16 => u16 0
  | .u32 => u32 0
  | .u64 => u64 0
  | .f16 => f16 0
  | .f32 => f32 0
  | .u32x2 => u32x2 0 0
  | .u32x4 => u32x4 0 0 0 0
  | .other kind => other kind 0

@[simp] theorem type_default (type : IRType) : (default type).type = type := by
  cases type <;> rfl

/-- The value, if it has the type. -/
def cast (type : IRType) (value : Val) : Val := if value.type = type then value else default type

@[simp] theorem type_cast (type : IRType) (value : Val) : (cast type value).type = type := by
  unfold cast
  split
  · assumption
  · exact type_default type

variable {value : Val}

theorem of_u1 (h : value.type = .u1) : ∃ a, value = .u1 a := by
  cases value with
  | u1 a => exact ⟨a, rfl⟩
  | _ => nomatch h

theorem of_u8 (h : value.type = .u8) : ∃ a, value = .u8 a := by
  cases value with
  | u8 a => exact ⟨a, rfl⟩
  | _ => nomatch h

theorem of_u16 (h : value.type = .u16) : ∃ a, value = .u16 a := by
  cases value with
  | u16 a => exact ⟨a, rfl⟩
  | _ => nomatch h

theorem of_u32 (h : value.type = .u32) : ∃ a, value = .u32 a := by
  cases value with
  | u32 a => exact ⟨a, rfl⟩
  | _ => nomatch h

theorem of_u64 (h : value.type = .u64) : ∃ a, value = .u64 a := by
  cases value with
  | u64 a => exact ⟨a, rfl⟩
  | _ => nomatch h

theorem of_f16 (h : value.type = .f16) : ∃ a, value = .f16 a := by
  cases value with
  | f16 a => exact ⟨a, rfl⟩
  | _ => nomatch h

theorem of_f32 (h : value.type = .f32) : ∃ a, value = .f32 a := by
  cases value with
  | f32 a => exact ⟨a, rfl⟩
  | _ => nomatch h

theorem of_u32x2 (h : value.type = .u32x2) : ∃ x y, value = .u32x2 x y := by
  cases value with
  | u32x2 x y => exact ⟨x, y, rfl⟩
  | _ => nomatch h

end Val

/-! ## The meaning of the opcodes -/

section Families

def onU32 (f : BitVec 32 → BitVec 32 → BitVec 32) : List Val → Option Val
  | [.u32 a, .u32 b] => some (.u32 (f a b))
  | _ => none

def onU64 (f : BitVec 64 → BitVec 64 → BitVec 64) : List Val → Option Val
  | [.u64 a, .u64 b] => some (.u64 (f a b))
  | _ => none

def onU64Shift (f : BitVec 64 → ℕ → BitVec 64) : List Val → Option Val
  | [.u64 a, .u32 b] => some (.u64 (f a (b.toNat % 64)))
  | _ => none

def onU32Compare (f : BitVec 32 → BitVec 32 → Bool) : List Val → Option Val
  | [.u32 a, .u32 b] => some (.u1 (f a b))
  | _ => none

def onU64Compare (f : BitVec 64 → BitVec 64 → Bool) : List Val → Option Val
  | [.u64 a, .u64 b] => some (.u1 (f a b))
  | _ => none

def onLogical (f : Bool → Bool → Bool) : List Val → Option Val
  | [.u1 a, .u1 b] => some (.u1 (f a b))
  | _ => none

def onSelect : List Val → Option Val
  | [.u1 condition, a, b] => some (if condition then a else b)
  | _ => none

/-- The number with the given bits. -/
def ofBits (bit : ℕ → Bool) : BitVec 32 :=
  (BitVec.ofBoolListLE ((List.range 32).map bit)).setWidth 32

/-- The component of a vector. -/
def component : Val → ℕ → Option Val
  | .u32x2 x y, index => ([x, y][index]?).map .u32
  | .u32x4 x y z w, index => ([x, y, z, w][index]?).map .u32
  | _, _ => none

end Families

/-- What an opcode makes of the values of its arguments, where it says so. -/
def eval : ValueOpcode → List Val → Option Val
  | .bitCastU16F16, [.f16 a] => some (.u16 a)
  | .bitCastF16U16, [.u16 a] => some (.f16 a)
  | .bitCastU32F32, [.f32 a] => some (.u32 a)
  | .bitCastF32U32, [.u32 a] => some (.f32 a)
  | .convertU16U32, [.u32 a] => some (.u16 (BitVec.ofNat 16 a.toNat))
  | .convertU32U16, [.u16 a] => some (.u32 (BitVec.ofNat 32 a.toNat))
  | .convertU8U32, [.u32 a] => some (.u8 (BitVec.ofNat 8 a.toNat))
  | .convertU32U8, [.u8 a] => some (.u32 (BitVec.ofNat 32 a.toNat))
  | .compositeConstructU32x2, [.u32 x, .u32 y] => some (.u32x2 x y)
  | .compositeConstructU32x4, [.u32 x, .u32 y, .u32 z, .u32 w] => some (.u32x4 x y z w)
  | .compositeExtractU32x2, [composite, .u32 index] => component composite index.toNat
  | .compositeExtractU32x4, [composite, .u32 index] => component composite index.toNat
  | .packUint2x32, [.u32x2 x y] => some (.u64 (y ++ x))
  | .unpackUint2x32, [.u64 a] => some (.u32x2 (a.extractLsb' 0 32) (a.extractLsb' 32 32))
  | .bitFieldInsert, [.u32 base, .u32 insert, .u32 offset, .u32 count] =>
    if offset.toNat + count.toNat ≤ 32 then
      some (.u32 (ofBits fun k =>
        if offset.toNat ≤ k ∧ k < offset.toNat + count.toNat then
          insert.getLsbD (k - offset.toNat)
        else base.getLsbD k))
    else none
  | .bitFieldUExtract, [.u32 value, .u32 offset, .u32 count] =>
    if offset.toNat + count.toNat ≤ 32 then
      some (.u32 ((value.extractLsb' offset.toNat count.toNat).setWidth 32))
    else none
  | .bitFieldSExtract, [.u32 value, .u32 offset, .u32 count] =>
    if offset.toNat + count.toNat ≤ 32 then
      some (.u32 ((value.extractLsb' offset.toNat count.toNat).signExtend 32))
    else none
  | .selectU1, args | .selectU32, args | .selectF32, args => onSelect args
  | .iAdd32, args => onU32 (· + ·) args
  | .iAdd64, args => onU64 (· + ·) args
  | .iAddCarry32, [.u32 a, .u32 b] =>
    some (.u32x2 (a + b) (if a.toNat + b.toNat < 2 ^ 32 then 0 else 1))
  | .iSub32, args => onU32 (· - ·) args
  | .iSub64, args => onU64 (· - ·) args
  | .iMul32, args => onU32 (· * ·) args
  | .iMul64, args => onU64 (· * ·) args
  | .uDiv32, [.u32 a, .u32 b] =>
    if b = 0 then none else some (.u32 (BitVec.ofNat 32 (a.toNat / b.toNat)))
  | .sMulHi, args => onU32 (fun a b => BitVec.ofInt 32 (a.toInt * b.toInt / 2 ^ 32)) args
  | .uMulHi, args => onU32 (fun a b => BitVec.ofNat 32 (a.toNat * b.toNat / 2 ^ 32)) args
  | .iAbs32, [.u32 a] => some (.u32 (if a.toInt < 0 then -a else a))
  | .shiftLeftLogical32, args => onU32 (fun a b => a <<< (b.toNat % 32)) args
  | .shiftRightLogical32, args => onU32 (fun a b => a >>> (b.toNat % 32)) args
  | .shiftRightArithmetic32, args => onU32 (fun a b => a.sshiftRight (b.toNat % 32)) args
  | .shiftLeftLogical64, args => onU64Shift (fun a n => a <<< n) args
  | .shiftRightLogical64, args => onU64Shift (fun a n => a >>> n) args
  | .shiftRightArithmetic64, args => onU64Shift (fun a n => a.sshiftRight n) args
  | .bitwiseAnd32, args => onU32 (· &&& ·) args
  | .bitwiseAnd64, args => onU64 (· &&& ·) args
  | .bitwiseOr32, args => onU32 (· ||| ·) args
  | .bitwiseOr64, args => onU64 (· ||| ·) args
  | .bitwiseXor32, args => onU32 (· ^^^ ·) args
  | .bitwiseNot32, [.u32 a] => some (.u32 (~~~a))
  | .bitCount32, [.u32 a] => some (.u32 (BitVec.ofNat 32 (Program.popcount a)))
  | .bitCount64, [.u64 a] => some (.u32 (BitVec.ofNat 32 (Program.popcount a)))
  | .sMin32, args => onU32 (fun a b => if a.toInt ≤ b.toInt then a else b) args
  | .uMin32, args => onU32 (fun a b => if a.toNat ≤ b.toNat then a else b) args
  | .sMax32, args => onU32 (fun a b => if a.toInt ≤ b.toInt then b else a) args
  | .uMax32, args => onU32 (fun a b => if a.toNat ≤ b.toNat then b else a) args
  | .sLessThan32, args => onU32Compare (fun a b => decide (a.toInt < b.toInt)) args
  | .sLessThan64, args => onU64Compare (fun a b => decide (a.toInt < b.toInt)) args
  | .uLessThan32, args => onU32Compare (fun a b => decide (a.toNat < b.toNat)) args
  | .uLessThan64, args => onU64Compare (fun a b => decide (a.toNat < b.toNat)) args
  | .iEqual32, args => onU32Compare (fun a b => decide (a = b)) args
  | .iEqual64, args => onU64Compare (fun a b => decide (a = b)) args
  | .sLessThanEqual32, args => onU32Compare (fun a b => decide (a.toInt ≤ b.toInt)) args
  | .sLessThanEqual64, args => onU64Compare (fun a b => decide (a.toInt ≤ b.toInt)) args
  | .uLessThanEqual32, args => onU32Compare (fun a b => decide (a.toNat ≤ b.toNat)) args
  | .uLessThanEqual64, args => onU64Compare (fun a b => decide (a.toNat ≤ b.toNat)) args
  | .sGreaterThan32, args => onU32Compare (fun a b => decide (b.toInt < a.toInt)) args
  | .sGreaterThan64, args => onU64Compare (fun a b => decide (b.toInt < a.toInt)) args
  | .uGreaterThan32, args => onU32Compare (fun a b => decide (b.toNat < a.toNat)) args
  | .uGreaterThan64, args => onU64Compare (fun a b => decide (b.toNat < a.toNat)) args
  | .iNotEqual32, args => onU32Compare (fun a b => decide (a ≠ b)) args
  | .iNotEqual64, args => onU64Compare (fun a b => decide (a ≠ b)) args
  | .sGreaterThanEqual32, args => onU32Compare (fun a b => decide (b.toInt ≤ a.toInt)) args
  | .sGreaterThanEqual64, args => onU64Compare (fun a b => decide (b.toInt ≤ a.toInt)) args
  | .uGreaterThanEqual32, args => onU32Compare (fun a b => decide (b.toNat ≤ a.toNat)) args
  | .uGreaterThanEqual64, args => onU64Compare (fun a b => decide (b.toNat ≤ a.toNat)) args
  | .logicalOr, args => onLogical (· || ·) args
  | .logicalAnd, args => onLogical (· && ·) args
  | .logicalXor, args => onLogical xor args
  | .logicalNot, [.u1 a] => some (.u1 !a)
  | _, _ => none

/-! ## Runs -/

/-- The value that each instruction had when it was last executed. -/
abbrev Env := ℕ → Val

/-- What a value stands for. -/
def read (env : Env) : Value → Val
  | .empty => .void
  | .inst id => env id
  | .scalarReg index => .scalarReg index
  | .vectorReg index => .vectorReg index
  | .u1 value => .u1 value
  | .u8 value => .u8 value
  | .u16 value => .u16 value
  | .u32 value => .u32 value
  | .u64 value => .u64 value
  | .f16 bits => .f16 bits
  | .f32 bits => .f32 bits

/-- The instructions that the program has asked the world to execute, with their arguments,
the last one first. -/
abbrev History := List (ℕ × List Val)

/-- The result of an instruction that `eval` leaves open. -/
abbrev Oracle := History → ℕ → List Val → Val

/-- A place of a run, the instructions passed, and what they have left. -/
structure RunState where
  block : ℕ
  position : ℕ
  trace : List ℕ
  env : Env
  /-- The environment at the start of the block. -/
  entry_env : Env
  /-- The block that the run comes from. -/
  pred : Option ℕ
  history : History

namespace Program

variable (P : Program)

/-- The graph of the blocks. -/
def flow : Flow ℕ where
  code b := P.blocks.getD b []
  edge b c := b ∈ P.predecessors c

/-- The argument of a `Phi` for a block that it is reached from. -/
def phiOperand (inst : Inst) (pred : ℕ) : Value :=
  (((inst.phi_blocks.zip inst.args).find? fun operand => operand.1 = pred).map Prod.snd).getD .empty

/-- The values of the arguments that an instruction uses. -/
def argValues (s : RunState) (i : ℕ) : List Val :=
  match (P.insts i).opcode with
  | .phi =>
    match s.pred with
    | some pred => [read s.entry_env (phiOperand (P.insts i) pred)]
    | none => []
  | _ => (P.insts i).args.map (read s.env)

/-- The result of an instruction. -/
def result (ω : Oracle) (s : RunState) (i : ℕ) : Val :=
  match (P.insts i).opcode with
  | .phi | .identity => (P.argValues s i).headD .void
  | opcode =>
    (eval opcode (P.argValues s i)).getD
      (Val.cast opcode.typeOf (ω s.history i (P.argValues s i)))

/-- The history behind an instruction. -/
def historyAfter (s : RunState) (i : ℕ) : History :=
  match (P.insts i).opcode with
  | .other _ _ => (i, P.argValues s i) :: s.history
  | _ => s.history

/-- The run behind an instruction. -/
def execute (ω : Oracle) (s : RunState) (i : ℕ) : RunState :=
  { s with
    position := s.position + 1
    trace := i :: s.trace
    env := update s.env i (P.result ω s i)
    history := P.historyAfter s i }

/-- The run at the start of the next block. -/
def enter (s : RunState) (c : ℕ) : RunState :=
  { s with block := c, position := 0, entry_env := s.env, pred := some s.block }

def runStart : RunState :=
  { block := 0, position := 0, trace := [], env := fun _ => .void,
    entry_env := fun _ => .void, pred := none, history := [] }

/-- The states of the runs along all paths of the program. -/
inductive Run (P : Program) (ω : Oracle) : RunState → Prop
  | start : Run P ω runStart
  | step {s : RunState} {i : ℕ} (h : Run P ω s) (hi : P.flow.At i s.block s.position) :
      Run P ω (P.execute ω s i)
  | jump {s : RunState} {c : ℕ} (h : Run P ω s)
      (hend : s.position = (P.flow.code s.block).length) (hedge : P.flow.edge s.block c) :
      Run P ω (enter s c)

/-! ## Programs in static single assignment form -/

/-- The type of a value, for the types of the instructions. -/
def valueType (types : ℕ → IRType) : Value → IRType
  | .empty => .void
  | .inst id => types id
  | .scalarReg _ => .scalarReg
  | .vectorReg _ => .vectorReg
  | .u1 _ => .u1
  | .u8 _ => .u8
  | .u16 _ => .u16
  | .u32 _ => .u32
  | .u64 _ => .u64
  | .f16 _ => .f16
  | .f32 _ => .f32

/-- A program in static single assignment form, with the types of its instructions: every
use of a result is dominated by the instruction, a `Phi` has an argument for each way into
its block and does not stand in the entry, and the arguments have the types that the
opcode asks for. -/
structure Ssa (P : Program) (types : ℕ → IRType) : Prop where
  unique : P.flow.Unique
  uses : ∀ i, (P.insts i).opcode ≠ .phi → ∀ y, .inst y ∈ (P.insts i).args → P.flow.Dom y i
  phi_entry : ∀ i b k, P.flow.At i b k → (P.insts i).opcode = .phi → b ≠ 0
  phi_covers : ∀ i b k, P.flow.At i b k → (P.insts i).opcode = .phi → ∀ p, P.flow.edge p b →
    ∃ value, (p, value) ∈ (P.insts i).phi_blocks.zip (P.insts i).args
  phi_uses : ∀ i b k, P.flow.At i b k → (P.insts i).opcode = .phi → ∀ p, P.flow.edge p b →
    ∀ y, (p, .inst y) ∈ (P.insts i).phi_blocks.zip (P.insts i).args →
      P.flow.Avail y p (P.flow.code p).length
  typed : ∀ i, (P.insts i).opcode ≠ .phi → (P.insts i).opcode ≠ .identity →
    types i = (P.insts i).opcode.typeOf ∧
    ∀ arg_types, (P.insts i).opcode.argTypes = some arg_types →
      (P.insts i).args.map (valueType types) = arg_types
  phi_typed : ∀ i, (P.insts i).opcode = .phi → ∀ value ∈ (P.insts i).args,
    valueType types value = types i
  phi_value : ∀ i, (P.insts i).opcode = .phi → types i ≠ .void
  identity_typed : ∀ i, (P.insts i).opcode = .identity →
    ∃ value, (P.insts i).args = [value] ∧ valueType types value = types i

end Program

end MagnusPS5.Shader
