/-
Instructions that are lowered to several (`ShaderIRMemory.cpp`, `ShaderIR.cpp`), and their
translation (`Translate.cpp`, `Memory.cpp`).

A load of several dwords becomes one instruction for each of them, and a scalar minimum or
maximum is followed by a comparison for SCC. `TranslateBlock` reads the sources of the
loads that it takes as a group once; the others are read again by each instruction.

The registers are those of one lane. The operands of these instructions carry no
modifiers, and the tables of buffer formats enter as the number of components and their
offsets.
-/
import MagnusPS5.Lib.Assignments
import MagnusPS5.Shader.WaveMasks

namespace MagnusPS5.Shader.LoweredReads

open Lib
open Function (update)

abbrev Word := BitVec 32

/-! ## Registers -/

inductive Register
  | scalar (index : ℕ)
  | vector (index : ℕ)
  | vccLo | vccHi | execLo | execHi | m0 | scc | null
  deriving DecidableEq

inductive Operand
  | register (reg : Register)
  | immediateU32 (imm : Word)
  deriving DecidableEq

/-- The registers, as one lane sees them. -/
structure Registers where
  word : Register → Word
  scc : Bool

namespace Registers

variable (r : Registers)

/-- The lane is active. -/
def exec (lane : ℕ) : Bool := LaneMasks.laneBit (r.word .execLo) (r.word .execHi) lane

def readU32 : Operand → Word
  | .immediateU32 imm => imm
  | .register .null => 0
  | .register .scc => if r.scc then 1 else 0
  | .register reg => r.word reg

def readScalarCode (code : ℕ) : Word :=
  if code < 106 then r.word (.scalar code)
  else
    match code with
    | 106 => r.word .vccLo
    | 107 => r.word .vccHi
    | 124 => r.word .m0
    | 126 => r.word .execLo
    | 127 => r.word .execHi
    | _ => 0

/-- `Translator::WriteRawU32`, without a mask or a modifier. -/
def writeU32 (lane : ℕ) (dst : Register) (value : Word) : Registers :=
  match dst with
  | .null => r
  | .scc => { r with scc := value != 0 }
  | .vector _ => if r.exec lane then { r with word := update r.word dst value } else r
  | _ => { r with word := update r.word dst value }

end Registers

/-! ## Instructions before they are lowered -/

def decodeScalarDestination (code : ℕ) : Option Register :=
  if code ≤ 105 then some (.scalar code)
  else
    match code with
    | 106 => some .vccLo
    | 107 => some .vccHi
    | 124 => some .m0
    | 125 => some .null
    | 126 => some .execLo
    | 127 => some .execHi
    | _ => none

/-- A register that a scalar instruction can write. -/
structure ScalarDestination where
  reg : Register
  decoded : ∃ code, decodeScalarDestination code = some reg

/-- `S_MIN_I32`, `S_MAX_I32`, `S_MIN_U32` and `S_MAX_U32`. -/
inductive MinMax
  | minI32 | maxI32 | minU32 | maxU32
  deriving DecidableEq

/-- The instructions that read several dwords or write SCC beside their result, as they are
decoded. The vector registers of a buffer or DS instruction are named by their numbers. -/
inductive Decoded
  | scalarLoad (buffer : Bool) (dst : ScalarDestination) (src0 src1 : Operand) (offset : Word)
      (data_dwords : ℕ)
  | bufferLoad (data_bits : ℕ) (data_signed : Bool) (vdata vaddr : ℕ) (src1 src2 : Operand)
      (idxen offen : Bool) (offset : Word) (data_dwords format_components : ℕ)
      (component_offset : ℕ → Word)
  | dsRead (data_bits : ℕ) (data_signed : Bool) (gds : Bool) (vdst vaddr : ℕ) (offset : Word)
      (data_dwords : ℕ)
  | dsRead2 (gds : Bool) (vdst vaddr : ℕ) (offset secondary_offset : Word) (dwords_per_read : ℕ)
  | minMax (op : MinMax) (dst : ScalarDestination) (src0 src1 : Operand)

/-! ## Instructions of the IR -/

/-- What `MemoryInfo` says of one component. -/
structure MemoryInfo where
  resource : ℕ
  offset : Word
  component_index : ℕ
  component_count : ℕ
  deriving DecidableEq

inductive Op
  | sLoadDword (dst : Register) (src : Operand) (memory : MemoryInfo)
  | sBufferLoadDword (dst : Register) (src : Operand) (memory : MemoryInfo)
  | bufferLoad (data_bits : ℕ) (data_signed : Bool) (dst : Register) (srcs : List Operand)
      (idxen offen : Bool) (memory : MemoryInfo)
  | dsRead (data_bits : ℕ) (data_signed : Bool) (gds : Bool) (dst : Register) (src : Operand)
      (memory : MemoryInfo)
  | moveU32 (dst : Register) (imm : Word)
  | minMax (op : MinMax) (dst : Register) (src0 src1 : Operand)
  | compare (op : MinMax) (dst : Register) (src0 src1 : Operand)
  deriving DecidableEq

structure Instruction where
  pc : ℕ
  op : Op
  deriving DecidableEq

/-! ## Lowering -/

def tryGetScalarDestinationCode : Register → Option ℕ
  | .scalar index => some index
  | .vccLo => some 106
  | .vccHi => some 107
  | .execLo => some 126
  | .execHi => some 127
  | _ => none

def offsetDecodedRegister (reg : Register) (index : ℕ) : Register :=
  if index = 0 then reg
  else
    match reg with
    | .vector v => .vector (v + index)
    | reg =>
      ((tryGetScalarDestinationCode reg).bind fun code =>
        decodeScalarDestination (code + index)).getD reg

def rawScalarLoadBase : Operand → ℕ
  | .register (.scalar reg) => reg
  | .register .vccLo => 106
  | _ => 0

def resourceIndexFromOperand : Operand → ℕ
  | .register (.scalar reg) => reg / 4
  | .register (.vector reg) => reg
  | .immediateU32 imm => imm.toNat
  | _ => 0

/-- `4u * index`. -/
def dwordOffset (index : ℕ) : Word := BitVec.ofNat 32 (index * 4)

/-- The components of a load that `data_bits` asks for. -/
def loadCount (data_bits data_dwords : ℕ) : ℕ := if data_bits = 32 then data_dwords else 1

def lowerBufferAddressSources (vaddr : ℕ) (src2 : Operand) (idxen offen : Bool) : List Operand :=
  (if idxen then [.register (.vector vaddr)] else []) ++
    (if offen then [.register (.vector (if idxen then vaddr + 1 else vaddr))] else []) ++ [src2]

/-- `LowerScalarMemoryLoadDword`, `LowerBufferLoad`, `LowerDsRead`, `LowerDsRead2` and
`LowerScalarMinMaxWithScc`. -/
def lower (decoded : Decoded) : List Op :=
  match decoded with
  | .scalarLoad buffer dst src0 src1 offset data_dwords =>
    (List.range data_dwords).map fun i =>
      let resource := if buffer then resourceIndexFromOperand src0 else rawScalarLoadBase src0
      let memory : MemoryInfo := ⟨resource, offset + dwordOffset i, i, data_dwords⟩
      if buffer then .sBufferLoadDword (offsetDecodedRegister dst.reg i) src1 memory
      else .sLoadDword (offsetDecodedRegister dst.reg i) src1 memory
  | .bufferLoad data_bits data_signed vdata vaddr src1 src2 idxen offen offset data_dwords
      format_components component_offset =>
      (List.range (loadCount data_bits data_dwords)).map fun i =>
        let dst := offsetDecodedRegister (.vector vdata) i
        -- the components that the format lacks are zero
        if format_components ≤ i then .moveU32 dst 0
        else
          .bufferLoad data_bits data_signed dst
            (lowerBufferAddressSources vaddr src2 idxen offen) idxen offen
            ⟨resourceIndexFromOperand src1, offset + component_offset i, i, data_dwords⟩
  | .dsRead data_bits data_signed gds vdst vaddr offset data_dwords =>
    (List.range (loadCount data_bits data_dwords)).map fun i =>
      .dsRead data_bits data_signed gds (offsetDecodedRegister (.vector vdst) i)
        (.register (.vector vaddr)) ⟨0, offset + dwordOffset i, i, data_dwords⟩
  | .dsRead2 gds vdst vaddr offset secondary_offset dwords_per_read =>
    [(0, offset), (1, secondary_offset)].flatMap fun read =>
      (List.range dwords_per_read).map fun dword =>
        .dsRead 32 false gds
          (offsetDecodedRegister (.vector vdst) (read.1 * dwords_per_read + dword))
          (.register (.vector vaddr)) ⟨0, read.2 + dwordOffset dword, 0, 1⟩
  | .minMax op dst src0 src1 => [.minMax op dst.reg src0 src1, .compare op .scc src0 src1]

/-! ## Translation -/

/-- The memory that the loads of one instruction read: the words of a constant buffer or of
the address space behind a descriptor and an offset, the components of a buffer, and the
bytes, halves or dwords of LDS and GDS. -/
structure Memory where
  address : (low high offset : Word) → Word → Word
  constBuffer : (dwords : Fin 4 → Word) → (offset : Word) → Word → Word
  buffer : (data_bits : ℕ) → (dwords : Fin 4 → Word) → (index offset soffset : Word) →
    MemoryInfo → Word
  shared : (gds : Bool) → (data_bits : ℕ) → Word → Word

structure BufferAddressValues where
  index : Word
  offset : Word
  soffset : Word

/-- `ScalarMemorySourceValues`: the words of the descriptor or the base, and the offset. -/
structure ScalarMemorySourceValues where
  resource : Fin 4 → Word
  offset : Word

/-- `Translator::WidenSubdword`, of a narrow load. -/
def widenSubdword (bits : ℕ) (sign : Bool) (value : Word) : Word :=
  if bits = 32 then value
  else if sign then (value.setWidth bits).signExtend 32
  else (value.setWidth bits).setWidth 32

namespace MinMax

/-- The comparison of `ScalarMinMaxSccCompareOpcode`. -/
def test : MinMax → Word → Word → Bool
  | minI32, a, b => a.slt b
  | maxI32, a, b => b.slt a
  | minU32, a, b => a.ult b
  | maxU32, a, b => b.ult a

/-- The first operand if it is the result, otherwise the second one. -/
def apply (op : MinMax) (a b : Word) : Word := if op.test a b then a else b

end MinMax

namespace Registers

variable (r : Registers)

def getBufferResource (resource : ℕ) (dword : Fin 4) : Word :=
  r.readScalarCode (resource * 4 + dword)

def readBufferAddress (srcs : List Operand) (idxen offen : Bool) : BufferAddressValues :=
  let next := fun (cursor : ℕ) => (srcs[cursor]?.map r.readU32).getD 0
  let first := if idxen then 1 else 0
  let second := if offen then first + 1 else first
  { index := if idxen then next 0 else 0
    offset := if offen then next first else 0
    soffset := next second }

def readScalarMemorySource (buffer : Bool) (src : Operand) (memory : MemoryInfo) :
    ScalarMemorySourceValues :=
  { resource := fun dword =>
      if buffer then r.getBufferResource memory.resource dword
      else if dword.val < 2 then r.readScalarCode (memory.resource + dword) else 0
    offset := r.readU32 src }

end Registers

/-- The local variables of `TranslateBlock`: the snapshots, each with the `pc` it was taken at. -/
structure Block where
  registers : Registers
  buffer_address_snapshot : Option (ℕ × BufferAddressValues)
  scalar_source_snapshot : Option (ℕ × ScalarMemorySourceValues)

/-- A snapshot that is taken for the first component of a group, and kept for the others. -/
def snapshot {α : Type} (grouped : Bool) (taken : Option (ℕ × α)) (pc component_index : ℕ)
    (value : α) : Option (ℕ × α) :=
  if grouped then
    match taken with
    | some (taken_pc, old) =>
      if taken_pc ≠ pc ∨ component_index = 0 then some (pc, value) else some (taken_pc, old)
    | none => some (pc, value)
  else none

/-- One turn of the loop of `Translator::TranslateBlock`, as the IR that it emits computes. -/
def translateInstruction (lane : ℕ) (M : Memory) (block : Block) (inst : Instruction) : Block :=
  let r := block.registers
  match inst.op with
  | .sLoadDword dst src memory =>
    let source := r.readScalarMemorySource false src memory
    let taken := snapshot (decide (1 < memory.component_count)) block.scalar_source_snapshot
      inst.pc memory.component_index source
    let source := (taken.map Prod.snd).getD source
    { registers := r.writeU32 lane dst
        (M.address (source.resource 0) (source.resource 1) source.offset memory.offset)
      buffer_address_snapshot := none
      scalar_source_snapshot := taken }
  | .sBufferLoadDword dst src memory =>
    let source := r.readScalarMemorySource true src memory
    let taken := snapshot (decide (1 < memory.component_count)) block.scalar_source_snapshot
      inst.pc memory.component_index source
    let source := (taken.map Prod.snd).getD source
    { registers := r.writeU32 lane dst
        (M.constBuffer source.resource source.offset memory.offset)
      buffer_address_snapshot := none
      scalar_source_snapshot := taken }
  | .bufferLoad data_bits data_signed dst srcs idxen offen memory =>
    let address := r.readBufferAddress srcs idxen offen
    let taken := snapshot (decide (1 < memory.component_count)) block.buffer_address_snapshot
      inst.pc memory.component_index address
    let address := (taken.map Prod.snd).getD address
    { registers := r.writeU32 lane dst (widenSubdword data_bits data_signed
        (M.buffer data_bits (r.getBufferResource memory.resource) address.index address.offset
          address.soffset memory))
      buffer_address_snapshot := taken
      scalar_source_snapshot := none }
  | .dsRead data_bits data_signed gds dst src memory =>
    { registers := r.writeU32 lane dst (widenSubdword data_bits data_signed
        (M.shared gds data_bits (r.readU32 src + memory.offset)))
      buffer_address_snapshot := none
      scalar_source_snapshot := none }
  | .moveU32 dst imm =>
    ⟨r.writeU32 lane dst imm, none, none⟩
  | .minMax op dst src0 src1 =>
    ⟨r.writeU32 lane dst (op.apply (r.readU32 src0) (r.readU32 src1)), none, none⟩
  | .compare op dst src0 src1 =>
    ⟨r.writeU32 lane dst (if op.test (r.readU32 src0) (r.readU32 src1) then 1 else 0), none, none⟩

/-- A decoded instruction in a block: lowered, translated and executed. -/
def execute (lane : ℕ) (M : Memory) (pc : ℕ) (block : Block) (decoded : Decoded) : Registers :=
  ((lower decoded).foldl (fun block op => translateInstruction lane M block ⟨pc, op⟩)
    block).registers

end MagnusPS5.Shader.LoweredReads
