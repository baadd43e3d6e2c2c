/-
Where the operands of an emulated SHA instruction are (`x64InstructionEmulator.cpp`).

`DecodeShaNiInsn` walks over the bytes for the length of the instruction,
`ResolveShaNiMemoryAddress` walks over them again for the address. Both are compared with the
forms of an x86-64 operand.
-/
import MagnusPS5.Lib.ModRm
import MagnusPS5.Loader.ShaNi

namespace MagnusPS5.Loader

open Lib.ModRm hiding Byte

/-! ## The two walks -/

variable (rip : ℕ → Byte)

/-- The part of `DecodeShaNiInsn` behind the ModRM byte: `end`. -/
def shaNiOperandEnd (modrm_offset : ℕ) : ℕ :=
  let modrm := rip modrm_offset
  let mod := modrm >>> 6
  let rm := modrm &&& 0x07
  let stop := modrm_offset + 1
  if mod = 3 then stop
  else
    let sib_base := if rm = 4 then rip stop &&& 0x07 else 0xff
    let stop := if rm = 4 then stop + 1 else stop
    if mod = 0 ∧ (rm = 5 ∨ rm = 4 ∧ sib_base = 5) then stop + 4
    else if mod = 1 then stop + 1
    else if mod = 2 then stop + 4
    else stop

def decodeShaNiInsn : Option ShaNiInsn :=
  let rex := if rip 0 &&& 0xf0 = 0x40 then rip 0 else 0
  let offset := if rip 0 &&& 0xf0 = 0x40 then 1 else 0
  if rip offset ≠ 0x0f then none
  else if rip (offset + 1) = 0x38 then
    let op := rip (offset + 2)
    if op ≠ 0xc8 ∧ op ≠ 0xc9 ∧ op ≠ 0xca ∧ op ≠ 0xcb ∧ op ≠ 0xcc ∧ op ≠ 0xcd then none
    else
      some
        { escape := 0x38
          opcode := op
          imm8 := 0
          rex
          modrm_offset := offset + 3
          length := shaNiOperandEnd rip (offset + 3) }
  else if rip (offset + 1) = 0x3a ∧ rip (offset + 2) = 0xcc then
    let stop := shaNiOperandEnd rip (offset + 3)
    some
      { escape := 0x3a
        opcode := 0xcc
        imm8 := rip stop
        rex
        modrm_offset := offset + 3
        length := stop + 1 }
  else none

def shaNiModrmIsRegister (modrm : Byte) : Bool := modrm &&& 0xc0 == 0xc0

def shaNiRegIndex (modrm rex : Byte) (reg_field : Bool) : Byte :=
  if reg_field then (modrm >>> 3) &&& 0x07 ||| (rex &&& 0x04) <<< 1
  else modrm &&& 0x07 ||| (rex &&& 0x01) <<< 3

/-- The displacement that `memcpy` takes from four bytes, extended. -/
def displacement32 (offset : ℕ) : BitVec 64 :=
  (rip (offset + 3) ++ rip (offset + 2) ++ rip (offset + 1) ++ rip offset : BitVec 32).signExtend 64

/-- The branch of `ResolveShaNiMemoryAddress` with a SIB byte: `result` and `offset`. -/
def shaNiSibAddress (rex mod : Byte) (gpr : ℕ → BitVec 64) (offset : ℕ) : BitVec 64 × ℕ :=
  let sib := rip offset
  let offset := offset + 1
  let scale := sib >>> 6
  let index_low := (sib >>> 3) &&& 0x07
  let base_low := sib &&& 0x07
  let has_index := index_low ≠ 4 ∨ rex &&& 0x02 ≠ 0
  let has_base := mod ≠ 0 ∨ base_low ≠ 5
  let result : BitVec 64 := 0
  let result :=
    if has_base then result + gpr (base_low ||| (rex &&& 0x01) <<< 3).toNat else result
  let result :=
    if has_index then result + gpr (index_low ||| (rex &&& 0x02) <<< 2).toNat <<< scale.toNat
    else result
  if has_base then (result, offset) else (result + displacement32 rip offset, offset + 4)

/-- `ResolveShaNiMemoryAddress`, with the address that `rip` is. -/
def resolveShaNiMemoryAddress (rip_address : BitVec 64) (rip : ℕ → Byte) (insn : ShaNiInsn)
    (gpr : ℕ → BitVec 64) : Option (BitVec 64) :=
  let modrm := rip insn.modrm_offset
  let mod := modrm >>> 6
  let rm := modrm &&& 0x07
  if mod = 3 then none
  else
    let offset := insn.modrm_offset + 1
    let (result, offset) :=
      if rm = 4 then shaNiSibAddress rip insn.rex mod gpr offset
      else if mod = 0 ∧ rm = 5 then
        (rip_address + BitVec.ofNat 64 insn.length + displacement32 rip offset, offset + 4)
      else (gpr (rm ||| (insn.rex &&& 0x01) <<< 3).toNat, offset)
    if mod = 1 then some (result + (rip offset).signExtend 64)
    else if mod = 2 then some (result + displacement32 rip offset)
    else some result

/-! ## Encodings -/

/-- The SHA instructions. -/
inductive ShaNiOp
  | sha1rnds4 (imm8 : Byte)
  | sha1nexte | sha1msg1 | sha1msg2 | sha256rnds2 | sha256msg1 | sha256msg2
  deriving DecidableEq

namespace ShaNiOp

/-- The byte behind `0f`. -/
def escape : ShaNiOp → Byte
  | sha1rnds4 _ => 0x3a
  | _ => 0x38

def opcode : ShaNiOp → Byte
  | sha1rnds4 _ => 0xcc
  | sha1nexte => 0xc8
  | sha1msg1 => 0xc9
  | sha1msg2 => 0xca
  | sha256rnds2 => 0xcb
  | sha256msg1 => 0xcc
  | sha256msg2 => 0xcd

def immediate : ShaNiOp → List Byte
  | sha1rnds4 imm8 => [imm8]
  | _ => []

end ShaNiOp

/-- An instruction as the processor reads it. -/
structure ShaNiEncoding where
  rex : Option Rex
  op : ShaNiOp
  reg : BitVec 3
  rm : Rm

namespace ShaNiEncoding

variable (e : ShaNiEncoding)

def opcodeBytes : List Byte :=
  (e.rex.map Rex.byte).toList ++ [0x0f, e.op.escape, e.op.opcode]

def bytes (e : ShaNiEncoding) : List Byte :=
  e.opcodeBytes ++ (e.rm.bytes e.reg ++ e.op.immediate)

/-- The prefix as a byte, `0` without one. -/
def prefixByte : Byte := (e.rex.map Rex.byte).getD 0

/-- The prefix as bits: without one no register is extended. -/
def prefixRex : Rex := e.rex.getD ⟨false, false, false, false⟩

end ShaNiEncoding

end MagnusPS5.Loader
