/-
Decoded shader programs (`ShaderDecoder.h`) and the targets of `S_SETPC_B64`
(`ShaderCFG.cpp`).

An instruction is kept with what the control flow graph reads of it. Program counters and
operand values are 32-bit words, as natural numbers. A register pair that `S_SETPC_B64`
jumps through is resolved by the instructions before it: two kinds of jump tables, or one
target that is computed from `S_GETPC_B64`.
-/
import Mathlib

namespace MagnusPS5.Shader

namespace Decoder

open List Option

abbrev UINT32_MAX : ℕ := 0xffffffff

/-- `static_cast<uint32_t>`. -/
def toU32 (value : ℤ) : ℕ := (value % 2 ^ 32).toNat

/-- The opcodes that the control flow graph looks at. -/
inductive Opcode
  | sGetpcB64 | sSetpcB64
  | sAddU32 | sAddI32 | sSubU32 | sSubI32 | sAddcU32 | sSubbU32 | sLshlB32 | sMinU32
  | sLoadDword | sLoadDwordx2
  | sBranch | sCbranchScc0 | sCbranchScc1 | sCbranchVccz | sCbranchVccnz
  | sCbranchExecz | sCbranchExecnz
  | sEndpgm | unsupported
  | other (index : ℕ)
  deriving DecidableEq

inductive OperandKind
  | sgpr | vccLo | vccHi | m0 | execLo | execHi
  | integerInlineConstant | literalConstant | floatInlineConstant
  | other (index : ℕ)
  deriving DecidableEq

structure Operand where
  kind : OperandKind := .other 0
  value : ℕ := 0
  signed_val : ℤ := 0
  reg : ℕ := 0
  deriving DecidableEq

/-- `Instruction`, with the text that `InstructionToString` makes of it. -/
structure Instruction where
  pc : ℕ := 0
  word_count : ℕ := 1
  opcode : Opcode
  dst : Operand := {}
  src0 : Operand := {}
  src1 : Operand := {}
  offset : ℕ := 0
  data_dwords : ℕ := 1
  branch_target : ℕ := 0
  text : String := ""
  deriving DecidableEq

structure Program where
  code : List ℕ
  instructions : List Instruction

def Instruction.endPc (inst : Instruction) : ℕ := (inst.pc + inst.word_count * 4) % 2 ^ 32

def Program.endPc (program : Program) : ℕ :=
  match program.instructions.getLast? with
  | none => 0
  | some inst => inst.endPc

/-- What the decoder makes of a span of code: instructions one behind the other, with
program counters of 32 bits. -/
structure Program.Decoded (program : Program) : Prop where
  words : ∀ inst ∈ program.instructions, 0 < inst.word_count
  fits : ∀ inst ∈ program.instructions, inst.pc + inst.word_count * 4 < 2 ^ 32
  contiguous : ∀ k inst next, program.instructions[k]? = some inst →
    program.instructions[k + 1]? = some next → next.pc = inst.pc + inst.word_count * 4

end Decoder

namespace CFG

open Decoder

structure SetpcTargetInfo where
  target : ℕ := 0
  indirect : Bool := false
  pc_sgpr : ℕ := UINT32_MAX
  selector_code : ℕ := UINT32_MAX
  table_load_pc : ℕ := UINT32_MAX
  target_pcs : List ℕ := []
  selector_values : List ℕ := []
  selector_target_pcs : List ℕ := []
  deriving DecidableEq

/-! ## Operands -/

variable (operand : Operand)

def isRegister (kind : OperandKind) (reg : ℕ) : Bool :=
  operand.kind = kind ∧ operand.reg = reg

def scalarOperandCode : Option ℕ :=
  match operand.kind with
  | .sgpr => some operand.reg
  | .vccLo => some 106
  | .vccHi => some 107
  | .m0 => some 124
  | .execLo => some 126
  | .execHi => some 127
  | _ => none

def isScalarCode (code : ℕ) : Bool := scalarOperandCode operand = some code

def isImmediate : Option ℕ :=
  match operand.kind with
  | .integerInlineConstant | .literalConstant | .floatInlineConstant => some operand.value
  | _ => none

def isImmediateSigned : Option ℤ :=
  match operand.kind with
  | .integerInlineConstant | .literalConstant => some operand.signed_val
  | .floatInlineConstant =>
    some (if operand.value < 2 ^ 31 then operand.value else operand.value - 2 ^ 32)
  | _ => none

def otherScalarSource (inst : Instruction) (known_code : ℕ) : Option Operand :=
  if isScalarCode inst.src0 known_code then some inst.src1
  else if isScalarCode inst.src1 known_code then some inst.src0
  else none

def instructionWritesScalarCode (inst : Instruction) (code : ℕ) : Bool :=
  match scalarOperandCode inst.dst with
  | none => false
  | some dst_code => dst_code ≤ code ∧ code < (dst_code + max 1 inst.data_dwords) % 2 ^ 32

section Resolve

variable (program : Decoder.Program)

/-- `program.instructions[index]`. -/
def inst? (index : ℕ) : Option Instruction := program.instructions[index]?

/-- The last instruction before an index that has a property: where the loops of the source
that go backwards stop. -/
def findPrevious (before_index : ℕ) (p : Instruction → Bool) : Option (ℕ × Instruction) :=
  ((List.range before_index).reverse.filterMap fun i =>
    (inst? program i).map fun inst => (i, inst)).find? fun candidate => p candidate.2

def scalarCodeWrittenInRange (begin_index end_index code : ℕ) : Bool :=
  ((program.instructions.take end_index).drop begin_index).any fun inst =>
    instructionWritesScalarCode inst code

def findPreviousGetpc (before_index dst_code : ℕ) : Option ℕ := do
  let isGetpc := fun inst : Instruction =>
    decide (inst.opcode = .sGetpcB64) && isScalarCode inst.dst dst_code
  let (index, candidate) ← findPrevious program before_index fun inst =>
    isGetpc inst || instructionWritesScalarCode inst dst_code
  if isGetpc candidate then some index else none

def resolvePcRelativeBase (before_index base_code : ℕ) : Option ℕ := do
  let (candidate_index, candidate) ← findPrevious program before_index fun inst =>
    instructionWritesScalarCode inst base_code
  let adds : Bool := candidate.opcode = .sAddU32 ∨ candidate.opcode = .sAddI32
  let subs : Bool := candidate.opcode = .sSubU32 ∨ candidate.opcode = .sSubI32
  guard (adds || subs)
  let offset ←
    if adds then otherScalarSource candidate base_code
    else if isScalarCode candidate.src0 base_code then some candidate.src1
    else none
  let imm ← isImmediateSigned offset
  let getpc_index ← findPreviousGetpc program candidate_index base_code
  guard (candidate_index + 1 < before_index)
  let high ← inst? program (candidate_index + 1)
  guard (high.opcode = (if adds then .sAddcU32 else .sSubbU32))
  guard (isScalarCode high.dst (base_code + 1))
  let high_other ←
    if adds then otherScalarSource high (base_code + 1)
    else if isScalarCode high.src0 (base_code + 1) then some high.src1
    else none
  let high_imm ← isImmediate high_other
  guard (high_imm = 0)
  guard (!scalarCodeWrittenInRange program (candidate_index + 2) before_index (base_code + 1))
  let getpc ← inst? program getpc_index
  let base := getpc.endPc
  let pc := if adds then toU32 (base + imm) else toU32 (base - imm)
  some (pc / 4 * 4)

def addSignedByteOffset (base encoded_offset : ℕ) : Option ℕ :=
  let offset : ℤ := if encoded_offset < 2 ^ 31 then encoded_offset else encoded_offset - 2 ^ 32
  let value : ℤ := base + offset
  if value < 0 ∨ value > UINT32_MAX then none else some value.toNat

def findPreviousScalarLoad (before_index dst_code : ℕ) (opcode : Opcode) : Option ℕ := do
  let (index, candidate) ← findPrevious program before_index fun inst =>
    instructionWritesScalarCode inst dst_code
  if candidate.opcode = opcode ∧ isScalarCode candidate.dst dst_code then some index else none

def resolveJumpTableEntryCount (before_index : ℕ) (byte_offset_operand : Operand)
    (stride_shift : ℕ) : Option ℕ := do
  let byte_offset_code ← scalarOperandCode byte_offset_operand
  let (shift_index, shift) ← findPrevious program before_index fun inst =>
    instructionWritesScalarCode inst byte_offset_code
  guard (shift.opcode = .sLshlB32)
  guard (isScalarCode shift.dst byte_offset_code)
  let shift_amount_operand ← otherScalarSource shift byte_offset_code
  let shift_amount ← isImmediate shift_amount_operand
  guard (shift_amount = stride_shift)
  let (_, clamp) ← findPrevious program shift_index fun inst =>
    instructionWritesScalarCode inst byte_offset_code
  guard (clamp.opcode = .sMinU32)
  guard (isScalarCode clamp.dst byte_offset_code)
  let max_index ← (isImmediate clamp.src0).or (isImmediate clamp.src1)
  let entry_count := (max_index + 1) % 2 ^ 32
  if entry_count ≠ 0 then some entry_count else none

/-- `AddUniqueTargetPc`, `AddUnique`. -/
def addUnique (values : List ℕ) (value : ℕ) : List ℕ :=
  if value ∈ values then values else values ++ [value]

/-- The end of both tables: the targets of the entries, with the selector of each. -/
def tableInfo (pc_reg selector_code load_pc stride : ℕ) (entries : List ℕ) :
    Option SetpcTargetInfo :=
  let target_pcs := entries.foldl addUnique []
  if target_pcs = [] then none
  else
    some {
      indirect := true
      pc_sgpr := pc_reg
      selector_code := selector_code
      table_load_pc := load_pc
      target_pcs := target_pcs
      selector_values := (List.range entries.length).map fun i => i * stride % 2 ^ 32
      selector_target_pcs := entries }

variable (setpc_index : ℕ)

def resolveSetpcJumpTable : Option SetpcTargetInfo := do
  guard (4 ≤ setpc_index)
  let setpc ← inst? program setpc_index
  let pc_reg ← scalarOperandCode setpc.src0
  guard (setpc.opcode = .sSetpcB64)
  guard (setpc.src0.kind = .sgpr)
  let getpc ← inst? program (setpc_index - 3)
  let add ← inst? program (setpc_index - 2)
  let addc ← inst? program (setpc_index - 1)
  guard (getpc.opcode = .sGetpcB64 ∧ isScalarCode getpc.dst pc_reg)
  guard (add.opcode = .sAddU32 ∧ isScalarCode add.dst pc_reg)
  guard (addc.opcode = .sAddcU32 ∧ isScalarCode addc.dst (pc_reg + 1))
  let offset_low_operand ← otherScalarSource add pc_reg
  let offset_high_operand ← otherScalarSource addc (pc_reg + 1)
  let offset_low_code ← scalarOperandCode offset_low_operand
  let offset_high_code ← scalarOperandCode offset_high_operand
  guard (offset_high_code = offset_low_code + 1)
  let load_index ← findPreviousScalarLoad program (setpc_index - 3) offset_low_code .sLoadDwordx2
  let load ← inst? program load_index
  let table_base_code ← scalarOperandCode load.src0
  let table_base ← resolvePcRelativeBase program load_index table_base_code
  let table_pc ← addSignedByteOffset table_base load.offset
  let entry_count ← resolveJumpTableEntryCount program load_index load.src1 3
  let selector_code ← scalarOperandCode load.src1
  guard (!scalarCodeWrittenInRange program (load_index + 1) setpc_index selector_code)
  let target_base := getpc.endPc
  let table_word := table_pc / 4
  let table_words := entry_count * 2
  guard (table_pc % 4 = 0)
  guard (table_word ≤ program.code.length)
  guard (table_words ≤ program.code.length - table_word)
  let entries ← (List.range entry_count).mapM fun i => do
    let low ← program.code[table_word + i * 2]?
    let high ← program.code[table_word + i * 2 + 1]?
    if high ≠ 0 ∧ high ≠ UINT32_MAX then none
    else some ((target_base + low) % 2 ^ 32 / 4 * 4)
  tableInfo pc_reg selector_code load.pc 8 entries

def resolveSetpcDwordJumpTable : Option SetpcTargetInfo := do
  guard (3 ≤ setpc_index)
  let setpc ← inst? program setpc_index
  guard (setpc.opcode = .sSetpcB64)
  guard (setpc.src0.kind = .sgpr)
  let pc_reg ← scalarOperandCode setpc.src0
  let low_sub ← inst? program (setpc_index - 2)
  let high_sub ← inst? program (setpc_index - 1)
  guard (low_sub.opcode = .sSubU32 ∧ isScalarCode low_sub.dst pc_reg)
  guard (isScalarCode low_sub.src0 pc_reg)
  let offset_code ← scalarOperandCode low_sub.src1
  guard (high_sub.opcode = .sSubbU32 ∧ isScalarCode high_sub.dst (pc_reg + 1))
  guard (isScalarCode high_sub.src0 (pc_reg + 1))
  let high_imm ← isImmediate high_sub.src1
  guard (high_imm = 0)
  guard (offset_code ≠ pc_reg ∧ offset_code ≠ pc_reg + 1)
  let load_index ← findPreviousScalarLoad program (setpc_index - 2) offset_code .sLoadDword
  let load ← inst? program load_index
  guard (isScalarCode load.src0 pc_reg)
  let target_base ← resolvePcRelativeBase program load_index pc_reg
  let table_pc ← addSignedByteOffset target_base load.offset
  let entry_count ← resolveJumpTableEntryCount program load_index load.src1 2
  let selector_code ← scalarOperandCode load.src1
  guard (selector_code ≠ offset_code)
  guard (!scalarCodeWrittenInRange program (load_index + 1) setpc_index selector_code)
  let table_word := table_pc / 4
  guard (table_pc % 4 = 0)
  guard (table_word ≤ program.code.length)
  guard (entry_count ≤ program.code.length - table_word)
  let entries ← (List.range entry_count).mapM fun i => do
    let offset ← program.code[table_word + i]?
    if offset > target_base then none
    else some ((target_base - offset) / 4 * 4)
  tableInfo pc_reg selector_code load.pc 4 entries

def resolveSetpcTarget : Option ℕ := do
  let setpc ← inst? program setpc_index
  guard (setpc.opcode = .sSetpcB64)
  guard (setpc.src0.kind = .sgpr)
  let pc_reg := setpc.src0.reg
  let isGetpc := fun inst : Instruction =>
    decide (inst.opcode = .sGetpcB64) && isRegister inst.dst .sgpr pc_reg
  let sum : Option ℕ := do
    guard (2 ≤ setpc_index)
    let arith ← inst? program (setpc_index - 1)
    let getpc ← inst? program (setpc_index - 2)
    guard (isGetpc getpc)
    guard (isRegister arith.dst .sgpr pc_reg)
    let adds : Bool := arith.opcode = .sAddU32 ∨ arith.opcode = .sAddI32
    let subs : Bool := arith.opcode = .sSubU32 ∨ arith.opcode = .sSubI32
    guard (adds || subs)
    guard (isRegister arith.src0 .sgpr pc_reg || isRegister arith.src1 .sgpr pc_reg)
    let imm ← (isImmediate arith.src0).or (isImmediate arith.src1)
    let base := getpc.endPc
    some (if adds then toU32 (base + imm) / 4 * 4 else toU32 (base - imm) / 4 * 4)
  let plain : Option ℕ := do
    guard (1 ≤ setpc_index)
    let getpc ← inst? program (setpc_index - 1)
    guard (isGetpc getpc)
    some getpc.endPc
  sum.or plain

def resolveSetpcTargets : Option SetpcTargetInfo :=
  (resolveSetpcDwordJumpTable program setpc_index).or
    ((resolveSetpcJumpTable program setpc_index).or
      ((resolveSetpcTarget program setpc_index).map fun target => { target := target }))

end Resolve

end CFG

end MagnusPS5.Shader
