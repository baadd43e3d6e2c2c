/-
Values that the CPU computes for the shader (`SrtWalker.cpp`).

`validateRuntimeValue` says whether a value can be computed from the user data and the
memory of the guest; `evaluate` computes it. Both follow the arguments back through the
program. The plan of the flattened reads (`srt_reads`) is part of the program: a `ReadConst`
stands for the read in its slot. The recursions are counted by fuel. Of a diagnostic the
reason is kept; the shader's hash, its stage and the program counter are left out.
-/
import MagnusPS5.Lib.Checks
import MagnusPS5.Lib.Outcomes
import MagnusPS5.Shader.ValueProgram

namespace MagnusPS5.Shader

open Lib

/-! ## Opcodes and programs -/

namespace ValueOpcode

/-! Opcodes by their places in the table. -/

def void : ValueOpcode := .other 2 .void
def referenceU32 : ValueOpcode := .other 5 .void
def getUserData : ValueOpcode := .other 8 .u32
def getShaderBase : ValueOpcode := .other 9 .u64
def undefU1 : ValueOpcode := .other 35 .u1
def undefU8 : ValueOpcode := .other 36 .u8
def undefU16 : ValueOpcode := .other 37 .u16
def undefU32 : ValueOpcode := .other 38 .u32
def undefU64 : ValueOpcode := .other 39 .u64
def getSrtResource : ValueOpcode := .other 183 (.other 65536)
def getBufferResource : ValueOpcode := .other 184 (.other 131072)
def getAddressResource : ValueOpcode := .other 185 (.other 262144)
def getImageResource : ValueOpcode := .other 186 (.other 524288)
def getSamplerResource : ValueOpcode := .other 187 (.other 1048576)
def readConst : ValueOpcode := .other 191 .u32

/-- `UndefU1` to `UndefU64`. -/
def isUndef (opcode : ValueOpcode) : Bool :=
  opcode = undefU1 ∨ opcode = undefU8 ∨ opcode = undefU16 ∨ opcode = undefU32 ∨ opcode = undefU64

/-- `IsDescriptorHandle`, with the number of words of the descriptor. -/
def descriptorDwords (opcode : ValueOpcode) : Option ℕ :=
  if opcode = getBufferResource then some 4
  else if opcode = getAddressResource then some 2
  else if opcode = getImageResource then some 8
  else if opcode = getSamplerResource then some 4
  else none

def isRuntimeIntegerOp : ValueOpcode → Bool
  | compositeConstructU32x2 | compositeExtractU32x2 | packUint2x32 | unpackUint2x32
  | bitFieldInsert | bitFieldUExtract | bitFieldSExtract
  | iAdd32 | iAdd64 | iAddCarry32 | iSub32 | iSub64 | iMul32 | iMul64 | uMin32
  | shiftLeftLogical32 | shiftLeftLogical64 | shiftRightLogical32 | shiftRightLogical64
  | shiftRightArithmetic32 | shiftRightArithmetic64
  | bitwiseAnd32 | bitwiseAnd64 | bitwiseOr32 | bitwiseOr64 | bitwiseXor32 | bitwiseNot32
  | selectU1 | selectU32 | uLessThan32 | iEqual32 | uGreaterThan32 | iNotEqual32
  | logicalOr | logicalAnd | logicalXor | logicalNot => true
  | _ => false

end ValueOpcode

/-- The types of integers. -/
def IRType.isInteger : IRType → Bool
  | .u1 | .u8 | .u16 | .u32 | .u64 => true
  | _ => false

inductive ResourceKind
  | none | scalarBuffer | scalarAddress | buffer | flat | global | scratch | lds | gds
  | image | imageUint | storageImage | storageImageUint | sampler
  deriving DecidableEq

/-- `MemoryInfo`. The fields that only comparisons look at are kept as a list. -/
structure MemoryInfo where
  kind : ResourceKind
  offset : BitVec 32
  planning_only : Bool := false
  rest : List ℕ := []
  deriving DecidableEq

structure SrtRead where
  value : Value
  flat_offset : ℕ
  use_pc : ℕ
  deriving DecidableEq

/-- The values of a `ValueBlockInfo`. -/
structure BlockInfo where
  condition : Value
  indirect_target : Value
  deriving DecidableEq

/-- A program with its plan of flattened reads and its range of user data. -/
structure RuntimeProgram extends ValueProgram MemoryInfo where
  block_info : List BlockInfo := []
  srt_reads : List SrtRead := []
  dynamic_reads : List Value := []
  user_data_base : ℕ
  user_data_count : ℕ

namespace RuntimeProgram

variable (P : RuntimeProgram)

def memoryPc (i : ℕ) : ℕ := (P.flags i).toNat / 2 ^ 32

/-- `ResolveInstruction`. -/
def definition (value : Value) : Option ℕ := (P.resolve value).tryInstruction

/-- The value is the result of an instruction with the opcode. -/
def definedBy (value : Value) (opcode : ValueOpcode) : Bool :=
  match P.definition value with
  | some id => (P.insts id).opcode = opcode
  | none => false

def isRawRead (i : ℕ) : Bool :=
  match P.memory_info[P.memoryIndex i]? with
  | none => false
  | some info =>
    ((P.insts i).opcode = .loadAddressU32 ∧ info.kind = .scalarAddress) ∨
      ((P.insts i).opcode = .readConstBuffer ∧ info.kind = .scalarBuffer)

/-- The slot of a flattened read. -/
def srtSlot (i : ℕ) : Option SrtRead :=
  match P.resolve (P.instArg i 1) with
  | .u32 slot => P.srt_reads[slot.toNat]?
  | _ => none

/-- The component that an extraction takes. -/
def extractComponent (i : ℕ) : Option ℕ :=
  match P.resolve (P.instArg i 1) with
  | .u32 component => some component.toNat
  | _ => none

/-! ## `RuntimeValidator` -/

/-- Why a value is no runtime value. -/
inductive InvalidReason
  /-- contains a non-integer immediate -/
  | nonInteger (type : IRType)
  /-- contains a cyclic value -/
  | cyclic (opcode : ValueOpcode)
  /-- contains Void or an undefined value -/
  | contains (opcode : ValueOpcode)
  /-- contains a malformed GetUserData, GetShaderBase, GetSrtResource or descriptor -/
  | malformed (opcode : ValueOpcode)
  /-- references an unavailable user SGPR -/
  | unavailableSgpr (reg : ℕ)
  /-- contains a control-dependent phi -/
  | dependentPhi
  /-- contains a malformed flattened SRT read -/
  | malformedRead
  /-- contains a non-scalar LoadAddressU32 or ReadConstBuffer -/
  | nonScalar (opcode : ValueOpcode)
  /-- contains an unsupported packed runtime value -/
  | packed
  /-- contains an unsupported composite runtime source -/
  | composite
  /-- contains an unsupported or control-dependent opcode -/
  | unsupported (opcode : ValueOpcode)
  /-- the fuel ran out -/
  | unfinished
  deriving DecidableEq

section Validator

variable (i : ℕ)

def validateUserData : Except InvalidReason Unit :=
  match (P.insts i).args with
  | [.scalarReg reg] =>
    check (P.user_data_base ≤ reg ∧ reg - P.user_data_base < P.user_data_count)
      (.unavailableSgpr reg)
  | _ => .error (.malformed .getUserData)

/-- The source of a read is a handle of the right kind. -/
def rawReadHandle (opcode : ValueOpcode) : ValueOpcode :=
  if opcode = .loadAddressU32 then .getAddressResource else .getBufferResource

/-- The operand of a composite extraction that can be evaluated. -/
def isCompositeSource (value : Value) : Bool :=
  P.definedBy value .compositeConstructU32x2 ∨ P.definedBy value .unpackUint2x32 ∨
    P.definedBy value .iAddCarry32

/-- What `Validate` asks of reads, packed and composite values beside their arguments. -/
def validateShape : Except InvalidReason Unit :=
  let opcode := (P.insts i).opcode
  if opcode = .readConst then
    check ((P.insts i).args.length = 2 ∧ P.definedBy (P.instArg i 0) .getSrtResource ∧
      (P.srtSlot i).isSome) .malformedRead
  else if isRuntimeRead opcode then
    check (P.isRawRead i ∧ P.definedBy (P.instArg i 0) (rawReadHandle opcode)) (.nonScalar opcode)
  else if opcode = .packUint2x32 then
    check ((P.insts i).args.length = 1 ∧ P.definedBy (P.instArg i 0) .compositeConstructU32x2)
      .packed
  else if opcode = .compositeExtractU32x2 then
    check ((P.insts i).args.length = 2 ∧ (P.extractComponent i).any (· < 2) ∧
      P.isCompositeSource (P.instArg i 0)) .composite
  else .ok ()

/-- The opcodes whose arguments `Validate` goes on with. -/
def validateOpcode : Except InvalidReason Unit :=
  let opcode := (P.insts i).opcode
  match opcode.descriptorDwords with
  | some expected => check ((P.insts i).args.length = expected) (.malformed opcode)
  | none =>
    check (opcode = .readConst ∨ isRuntimeRead opcode ∨ opcode.isRuntimeIntegerOp)
      (.unsupported opcode)

/-- `Validate`, of an instruction that is not being visited. -/
def validateInst (validate : Value → Except InvalidReason Unit) : Except InvalidReason Unit :=
  let opcode := (P.insts i).opcode
  if opcode.isUndef ∨ opcode = .void then .error (.contains opcode)
  else if opcode = .getUserData then P.validateUserData i
  else if opcode = .getShaderBase then check ((P.insts i).args = []) (.malformed opcode)
  else if opcode = .phi then
    if P.resolveInvariantPhi (.inst i) = .empty then .error .dependentPhi
    else validate (P.resolveInvariantPhi (.inst i))
  else if opcode = .getSrtResource then check ((P.insts i).args = []) (.malformed opcode)
  else do
    P.validateShape i
    P.validateOpcode i
    forEach (fun _ arg => validate arg) 0 (P.insts i).args

end Validator

/-- `Validate`, with the instructions that are being visited. -/
def validateIn : ℕ → List ℕ → Value → Except InvalidReason Unit
  | 0, _, _ => .error .unfinished
  | fuel + 1, visiting, value =>
    match P.resolve value with
    | .inst i =>
      if i ∈ visiting then .error (.cyclic (P.insts i).opcode)
      else P.validateInst i (validateIn fuel (i :: visiting))
    | immediate =>
      let type := P.getType immediate
      check type.isInteger (.nonInteger type)

def validateRuntimeValue (value : Value) : Except InvalidReason Unit :=
  P.validateIn (P.ids.length + 1) [] value

end RuntimeProgram

/-! ## Operations of the evaluator -/

/-- Why a value has not been evaluated. -/
inductive EvalError
  /-- non-integer immediate in runtime expression -/
  | nonInteger
  /-- cyclic typed runtime value -/
  | cyclic
  /-- typed phi has runtime-dependent values -/
  | dependentPhi
  /-- dynamic composite extract in runtime expression -/
  | dynamicExtract
  /-- unsupported composite runtime source -/
  | composite
  /-- raw scalar read has invalid metadata -/
  | invalidMetadata
  /-- raw scalar read has no descriptor handle -/
  | noHandle
  /-- constant-buffer descriptor has invalid width -/
  | bufferWidth
  /-- the same text, where a word of the descriptor has failed -/
  | bufferWord (cause : EvalError)
  /-- constant-buffer read has a negative immediate offset -/
  | negativeOffset
  /-- constant-buffer offset exceeds size -/
  | bufferRange (aligned size : BitVec 64)
  /-- raw scalar read is outside the 48-bit address space -/
  | addressRange
  /-- constant read failed -/
  | readFailed (address : BitVec 64)
  /-- the argument of a GetUserData is no scalar register -/
  | noRegister
  /-- user SGPR is unavailable -/
  | unavailableSgpr (reg : ℕ)
  /-- unsupported packed runtime value -/
  | packed
  /-- the same text, where a half of the value has failed -/
  | packedHalf (cause : EvalError)
  /-- invalid flattened SRT index -/
  | invalidSlot
  /-- invalid unsigned bit-field range -/
  | unsignedRange
  /-- invalid signed bit-field range -/
  | signedRange
  /-- invalid inserted bit-field range -/
  | insertedRange
  /-- undefined typed runtime value -/
  | undefined
  /-- unsupported typed runtime opcode -/
  | unsupported (opcode : ValueOpcode)
  /-- the fuel ran out -/
  | unfinished
  deriving DecidableEq

/-- `static_cast<uint32_t>`, as a wide value. -/
def low32 (a : BitVec 64) : BitVec 64 := (a.setWidth 32).setWidth 64

/-- A wide truth value. -/
def wideBool (b : Bool) : BitVec 64 := (BitVec.ofBool b).setWidth 64

/-- A bit field of `width` bits, for a width of at most 32. -/
def bitFieldMask (width : ℕ) : BitVec 32 :=
  if width = 32 then BitVec.allOnes 32 else (1 <<< width) - 1

def bitFieldUExtract (a b c : BitVec 64) : Except EvalError (BitVec 64) :=
  let offset := (b.setWidth 32).toNat
  let width := (c.setWidth 32).toNat
  if 32 < offset ∨ 32 - offset < width then .error .unsignedRange
  else if width = 0 then .ok 0
  else .ok (((a.setWidth 32 >>> offset) &&& bitFieldMask width).setWidth 64)

def bitFieldSExtract (a b c : BitVec 64) : Except EvalError (BitVec 64) :=
  let offset := (b.setWidth 32).toNat
  let width := (c.setWidth 32).toNat
  if 32 < offset ∨ 32 - offset < width then .error .signedRange
  else if width = 0 then .ok 0
  else
    let bits := (a.setWidth 32 >>> offset) &&& bitFieldMask width
    if width < 32 ∧ bits &&& (1 <<< (width - 1)) ≠ 0 then
      .ok ((bits ||| ~~~bitFieldMask width).setWidth 64)
    else .ok (bits.setWidth 64)

def bitFieldInsert (a b c d : BitVec 64) : Except EvalError (BitVec 64) :=
  let offset := (c.setWidth 32).toNat
  let width := (d.setWidth 32).toNat
  if 32 < offset ∨ 32 - offset < width then .error .insertedRange
  else if width = 0 then .ok (low32 a)
  else
    let mask := if width = 32 then BitVec.allOnes 32 else bitFieldMask width <<< offset
    .ok (((a.setWidth 32 &&& ~~~mask) ||| ((b.setWidth 32 <<< offset) &&& mask)).setWidth 64)

/-- An operation of `EvaluateInst` on the values of the first arguments. -/
inductive RuntimeOp
  | unary (f : BitVec 64 → BitVec 64)
  | binary (f : BitVec 64 → BitVec 64 → BitVec 64)
  | ternary (f : BitVec 64 → BitVec 64 → BitVec 64 → Except EvalError (BitVec 64))
  | quaternary (f : BitVec 64 → BitVec 64 → BitVec 64 → BitVec 64 → Except EvalError (BitVec 64))

namespace RuntimeOp

def arity : RuntimeOp → ℕ
  | unary _ => 1
  | binary _ => 2
  | ternary _ => 3
  | quaternary _ => 4

def apply : RuntimeOp → List (BitVec 64) → Except EvalError (BitVec 64)
  | unary f, [a] => .ok (f a)
  | binary f, [a, b] => .ok (f a b)
  | ternary f, [a, b, c] => f a b c
  | quaternary f, [a, b, c, d] => f a b c d
  | _, _ => .error .unfinished

end RuntimeOp

/-- The branches of `EvaluateInst` that compute a result from the values of arguments alone. -/
def runtimeOp : ValueOpcode → Option RuntimeOp
  | .iAdd32 => some (.binary fun a b => low32 (a + b))
  | .iAdd64 => some (.binary fun a b => a + b)
  | .iSub32 => some (.binary fun a b => low32 (a - b))
  | .iSub64 => some (.binary fun a b => a - b)
  | .iMul32 => some (.binary fun a b => low32 (a * b))
  | .iMul64 => some (.binary fun a b => a * b)
  | .uMin32 => some (.binary fun a b => if low32 b < low32 a then low32 b else low32 a)
  | .bitwiseAnd32 => some (.binary fun a b => low32 (a &&& b))
  | .bitwiseAnd64 => some (.binary fun a b => a &&& b)
  | .bitwiseOr32 => some (.binary fun a b => low32 (a ||| b))
  | .bitwiseOr64 => some (.binary fun a b => a ||| b)
  | .bitwiseXor32 => some (.binary fun a b => low32 (a ^^^ b))
  | .bitwiseNot32 => some (.unary fun a => (~~~(a.setWidth 32)).setWidth 64)
  | .shiftLeftLogical32 =>
    some (.binary fun a b => (a.setWidth 32 <<< (b &&& 31).toNat).setWidth 64)
  | .shiftLeftLogical64 => some (.binary fun a b => a <<< (b &&& 63).toNat)
  | .shiftRightLogical32 =>
    some (.binary fun a b => (a.setWidth 32 >>> (b &&& 31).toNat).setWidth 64)
  | .shiftRightLogical64 => some (.binary fun a b => a >>> (b &&& 63).toNat)
  | .shiftRightArithmetic32 =>
    some (.binary fun a b => ((a.setWidth 32).sshiftRight (b &&& 31).toNat).setWidth 64)
  | .shiftRightArithmetic64 => some (.binary fun a b => a.sshiftRight (b &&& 63).toNat)
  | .bitFieldUExtract => some (.ternary bitFieldUExtract)
  | .bitFieldSExtract => some (.ternary bitFieldSExtract)
  | .bitFieldInsert => some (.quaternary bitFieldInsert)
  | .selectU32 | .selectU1 => some (.ternary fun a b c => .ok (if a ≠ 0 then b else c))
  | .iEqual32 => some (.binary fun a b => wideBool (low32 a = low32 b))
  | .iNotEqual32 => some (.binary fun a b => wideBool (low32 a ≠ low32 b))
  | .uLessThan32 => some (.binary fun a b => wideBool (low32 a < low32 b))
  | .uGreaterThan32 => some (.binary fun a b => wideBool (low32 b < low32 a))
  | .logicalAnd => some (.binary fun a b => wideBool (a ≠ 0 ∧ b ≠ 0))
  | .logicalOr => some (.binary fun a b => wideBool (a ≠ 0 ∨ b ≠ 0))
  | .logicalXor => some (.binary fun a b => wideBool (decide (a ≠ 0) != decide (b ≠ 0)))
  | .logicalNot => some (.unary fun a => wideBool (a = 0))
  | _ => none

def addressMask : BitVec 64 := 0x0000ffffffffffff

def addSignedAddress (base offset : BitVec 64) : Option (BitVec 64) :=
  if addressMask < base then none
  else if offset.toInt < 0 then
    let magnitude := 0 - offset
    if base < magnitude then none else some (base - magnitude)
  else if addressMask - base < offset then none
  else some (base + offset)

/-- The address of a raw read through an address. -/
def rawAddress (immediate : BitVec 32) (low high offset : BitVec 64) :
    Except EvalError (BitVec 64) :=
  let base := ((high <<< 32) ||| low32 low) &&& addressMask
  let relative := (immediate.signExtend 64 &&& ~~~3) + (low32 offset &&& ~~~3)
  match addSignedAddress (base &&& ~~~3) relative with
  | some address => .ok address
  | none => .error .addressRange

/-- The address of a raw read from a constant buffer. -/
def rawBufferAddress (immediate : BitVec 32) (low high offset records : BitVec 64) :
    Except EvalError (BitVec 64) :=
  let base := ((high <<< 32) ||| low32 low) &&& addressMask
  if immediate.toInt < 0 then .error .negativeOffset
  else
    let byte_offset := immediate.signExtend 64 + low32 offset
    let aligned := byte_offset &&& ~~~3
    let stride := (low32 high >>> 16) &&& 0x3fff
    let size := if stride = 0 then low32 records else stride * low32 records
    if size < aligned ∨ size - aligned < 4 then .error (.bufferRange aligned size)
    else .ok (((base &&& ~~~3) + byte_offset) &&& ~~~3)

/-- `SrtRuntime`: the user data and the memory that a shader is started with. A reader can
refuse an address; where there is none, the memory of the host is read. -/
structure SrtRuntime where
  user_data : List (BitVec 32)
  shader_base : BitVec 64
  read_memory : Option (BitVec 64 → Option (BitVec 32))
  read_specialization_memory : Option (BitVec 64 → Option (BitVec 32))
  host_memory : BitVec 64 → BitVec 32

/-- Reads a word. The clean evaluator reads the memory of the specialization. -/
def SrtRuntime.readWord (R : SrtRuntime) (clean : Bool) (address : BitVec 64) :
    Except EvalError (BitVec 64) :=
  match if clean then R.read_specialization_memory else R.read_memory with
  | none => .ok ((R.host_memory address).setWidth 64)
  | some reader =>
    match reader address with
    | some word => .ok (word.setWidth 64)
    | none => .error (.readFailed address)

/-! ## `Evaluator` -/

/-- An evaluator: the values that it has found and the instructions that it is evaluating. -/
structure Evaluator where
  cache : List (ℕ × BitVec 64) := []
  visiting : List ℕ := []

/-- The evaluator and the clean evaluator. -/
structure Evaluators where
  main : Evaluator := {}
  clean : Evaluator := {}

namespace Evaluators

/-- The evaluator at work. -/
def active (s : Evaluators) (clean : Bool) : Evaluator := if clean then s.clean else s.main

def update (s : Evaluators) (clean : Bool) (f : Evaluator → Evaluator) : Evaluators :=
  if clean then { s with clean := f s.clean } else { s with main := f s.main }

end Evaluators

abbrev Eval (α : Type) : Type := StateT Evaluators (Except EvalError) α

namespace RuntimeProgram

variable (P : RuntimeProgram) (R : SrtRuntime) (clean_flat_slots : List Bool)

section EvaluateInst

variable (evaluate : Bool → Value → Eval (BitVec 64)) (clean : Bool) (i : ℕ)

def evaluateUserData : Eval (BitVec 64) :=
  match P.instArg i 0 with
  | .scalarReg reg =>
    match if P.user_data_base ≤ reg then R.user_data[reg - P.user_data_base]? else none with
    | some word => pure (word.setWidth 64)
    | none => throw (.unavailableSgpr reg)
  | _ => throw .noRegister

def evaluatePhi : Eval (BitVec 64) :=
  if P.resolveInvariantPhi (.inst i) = .empty then throw .dependentPhi
  else evaluate clean (P.resolveInvariantPhi (.inst i))

/-- `EvaluateExtract`, from the instruction that makes the pair. -/
def evaluateComponent (component source : ℕ) : Eval (BitVec 64) :=
  match (P.insts source).opcode with
  | .compositeConstructU32x2 => evaluate clean (P.instArg source component)
  | .unpackUint2x32 => do
      let packed ← evaluate clean (P.instArg source 0)
      pure (low32 (packed >>> (component * 32)))
  | .iAddCarry32 => do
      let lhs ← evaluate clean (P.instArg source 0)
      let rhs ← evaluate clean (P.instArg source 1)
      let sum := low32 lhs + low32 rhs
      pure (if component = 0 then low32 sum else low32 (sum >>> 32))
  | _ => throw .composite

def evaluateExtract : Eval (BitVec 64) :=
  match P.extractComponent i with
  | none => throw .dynamicExtract
  | some component =>
    match P.definition (P.instArg i 0) with
    | none => throw .composite
    | some source =>
      if 2 ≤ component then throw .composite
      else P.evaluateComponent evaluate clean component source

def evaluatePack : Eval (BitVec 64) :=
  match P.definition (P.instArg i 0) with
  | none => throw .packed
  | some pair =>
    if (P.insts pair).opcode ≠ .compositeConstructU32x2 then throw .packed
    else
      mapError .packedHalf do
        let a ← evaluate clean (P.instArg pair 0)
        let b ← evaluate clean (P.instArg pair 1)
        pure (low32 a ||| (low32 b <<< 32))

/-- A flattened read has the value of the read in its slot, which is left to the clean
evaluator where the slot is clean. -/
def evaluateReadConst : Eval (BitVec 64) :=
  match P.resolve (P.instArg i 1) with
  | .u32 slot =>
    match P.srt_reads[slot.toNat]? with
    | none => throw .invalidSlot
    | some read =>
      if ¬clean ∧ clean_flat_slots.getD slot.toNat false then evaluate true read.value
      else evaluate clean read.value
  | _ => throw .invalidSlot

/-- The last two words of the descriptor of a constant buffer. -/
def evaluateRecords (handle : ℕ) : Eval (BitVec 64) :=
  if (P.insts handle).args.length ≠ 4 then throw .bufferWidth
  else
    mapError .bufferWord do
      let records ← evaluate clean (P.instArg handle 2)
      let _ ← evaluate clean (P.instArg handle 3)
      pure records

/-- The address that a raw read reads. -/
def evaluateRawAddress (immediate : BitVec 32) (handle : ℕ) : Eval (BitVec 64) := do
  let low ← evaluate clean (P.instArg handle 0)
  let high ← evaluate clean (P.instArg handle 1)
  let offset ← evaluate clean (P.instArg i 1)
  if (P.insts i).opcode = .readConstBuffer then do
    let records ← P.evaluateRecords evaluate clean handle
    liftM (rawBufferAddress immediate low high offset records)
  else liftM (rawAddress immediate low high offset)

def evaluateRawRead : Eval (BitVec 64) :=
  match P.memory_info[P.memoryIndex i]? with
  | none => throw .invalidMetadata
  | some info =>
    match P.definition (P.instArg i 0) with
    | none => throw .noHandle
    | some handle => do
        let address ← P.evaluateRawAddress evaluate clean i info.offset handle
        liftM (R.readWord clean address)

def evaluateInst : Eval (BitVec 64) :=
  let opcode := (P.insts i).opcode
  if opcode = .getUserData then P.evaluateUserData R i
  else if opcode = .getShaderBase then pure R.shader_base
  else if opcode = .phi then P.evaluatePhi evaluate clean i
  else if opcode = .compositeExtractU32x2 then P.evaluateExtract evaluate clean i
  else if opcode = .packUint2x32 then P.evaluatePack evaluate clean i
  else if opcode = .readConst then P.evaluateReadConst clean_flat_slots evaluate clean i
  else if isRuntimeRead opcode then
    if P.isRawRead i then P.evaluateRawRead R evaluate clean i else throw (.unsupported opcode)
  else if opcode.isUndef then throw .undefined
  else
    match runtimeOp opcode with
    | none => throw (.unsupported opcode)
    | some op => do
        let args ← runEach (evaluate clean) ((List.range op.arity).map (P.instArg i))
        liftM (op.apply args)

end EvaluateInst

/-- The value of an immediate. -/
def evaluateImmediate : Value → Except EvalError (BitVec 64)
  | .u1 value => .ok (wideBool value)
  | .u8 value => .ok (value.setWidth 64)
  | .u16 value => .ok (value.setWidth 64)
  | .u32 value => .ok (value.setWidth 64)
  | .u64 value => .ok value
  | _ => .error .nonInteger

def evaluateWide : ℕ → Bool → Value → Eval (BitVec 64)
  | 0, _, _ => throw .unfinished
  | fuel + 1, clean, value =>
    match P.resolve value with
    | .inst i => do
        let s ← get
        match (s.active clean).cache.lookup i with
        | some result => pure result
        | none =>
          if i ∈ (s.active clean).visiting then throw .cyclic
          else do
            modify fun s => s.update clean fun e => { e with visiting := i :: e.visiting }
            let out ← P.evaluateInst R clean_flat_slots (evaluateWide fuel) clean i
            modify fun s => s.update clean fun e =>
              { cache := (i, out) :: e.cache, visiting := e.visiting.tail }
            pure out
    | immediate => liftM (evaluateImmediate immediate)

/-- `Evaluate`. Each evaluator is in an instruction at most once, and an evaluation goes over
to the clean evaluator for good. -/
def evaluate (clean : Bool) (value : Value) : Eval (BitVec 32) := do
  let wide ← P.evaluateWide R clean_flat_slots (2 * P.ids.length + 2) clean value
  pure (wide.setWidth 32)

end RuntimeProgram

end MagnusPS5.Shader
