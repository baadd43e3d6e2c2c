/-
`BuildGraph` (`ShaderCFG.cpp`).

The labels are the first program counter, the end, the targets of the branches and what
stands behind a branch or the end of a program. Blocks are cut from each label to the
next one, and linked by the last instruction of each. The analyses of the finished graph
(dominators, back edges, loops, components) and the flags that they set are left out.

The second half of the file says what it is to execute the shader: `linear` goes from
program counter to program counter, and `walk` from block to block.
-/
import MagnusPS5.Lib.Lockstep
import MagnusPS5.Shader.SetpcTargets

namespace MagnusPS5.Shader.CFG

open Decoder

/-! ## The graph -/

inductive BranchCondition
  | always | sccZero | sccNonZero | vccZero | vccNonZero | execZero | execNonZero | unknown
  deriving DecidableEq

inductive TerminatorKind
  | branch | conditionalBranch | indirectBranch | ret | unsupported
  deriving DecidableEq

inductive FailureKind
  | unsupportedInstruction | invalidBranchTarget | missingFallthrough | invalidLabel
  deriving DecidableEq

structure Terminator where
  kind : TerminatorKind := .ret
  condition : BranchCondition := .always
  true_block : ℕ := UINT32_MAX
  false_block : ℕ := UINT32_MAX
  indirect_pc_sgpr : ℕ := UINT32_MAX
  indirect_selector_code : ℕ := UINT32_MAX
  indirect_target_pcs : List ℕ := []
  indirect_targets : List ℕ := []
  indirect_selector_values : List ℕ := []
  indirect_selector_targets : List ℕ := []
  deriving DecidableEq

structure BasicBlock where
  id : ℕ
  start_pc : ℕ
  end_pc : ℕ
  inst_begin : ℕ
  inst_end : ℕ
  predecessors : List ℕ := []
  successors : List ℕ := []
  terminator : Terminator := {}
  deriving DecidableEq

structure Graph where
  blocks : List BasicBlock
  code_table_load_pcs : List ℕ
  entry_block : ℕ
  deriving DecidableEq

/-- Why there is no graph: `SetError`, `SetFailure`, or what `std::map::at` throws. -/
inductive Failure
  | error (message : String)
  | failure (kind : FailureKind) (block : ℕ) (message : String)
  | outOfRange
  deriving DecidableEq

/-! ## Opcodes -/

def isUnconditionalBranch (opcode : Opcode) : Bool := opcode = .sBranch

def isConditionalBranch : Opcode → Bool
  | .sCbranchScc0 | .sCbranchScc1 | .sCbranchVccz | .sCbranchVccnz | .sCbranchExecz
  | .sCbranchExecnz => true
  | _ => false

def isBranch (opcode : Opcode) : Bool := isUnconditionalBranch opcode || isConditionalBranch opcode

def conditionForOpcode : Opcode → BranchCondition
  | .sBranch => .always
  | .sCbranchScc0 => .sccZero
  | .sCbranchScc1 => .sccNonZero
  | .sCbranchVccz => .vccZero
  | .sCbranchVccnz => .vccNonZero
  | .sCbranchExecz => .execZero
  | .sCbranchExecnz => .execNonZero
  | _ => .unknown

/-! ## Labels -/

def insertSorted (value : ℕ) : List ℕ → List ℕ
  | [] => [value]
  | x :: xs =>
    if value < x then value :: x :: xs
    else if value = x then x :: xs
    else x :: insertSorted value xs

def sortUnique (values : List ℕ) : List ℕ := values.foldr insertSorted []

/-- The format `0x{:08x}`. -/
def hexPc (pc : ℕ) : String :=
  let digits := Nat.toDigits 16 pc
  "0x" ++ String.ofList (List.replicate (8 - digits.length) '0' ++ digits)

/-- What the first loop of `BuildGraph` over the instructions collects. -/
structure Scan where
  labels : List ℕ
  setpc_targets : List (ℕ × SetpcTargetInfo)
  deriving DecidableEq

section Build

variable (program : Decoder.Program)

def firstPc : ℕ := (program.instructions.head?.map Instruction.pc).getD 0

/-- `instruction_pcs.contains`. -/
def isInstructionPc (pc : ℕ) : Bool := program.instructions.any fun inst => inst.pc = pc

def isValidTarget (target : ℕ) : Bool :=
  target = program.endPc ∨ (firstPc program ≤ target ∧ isInstructionPc program target)

/-- `labels.insert(next_pc)`, where that is not behind the end. -/
def insertNext (next_pc : ℕ) (labels : List ℕ) : List ℕ :=
  if next_pc ≤ program.endPc then insertSorted next_pc labels else labels

/-- `std::map::emplace`, on the list of the entries. -/
def emplaceTarget (pc : ℕ) (info : SetpcTargetInfo) (targets : List (ℕ × SetpcTargetInfo)) :
    List (ℕ × SetpcTargetInfo) :=
  if targets.any fun entry => entry.1 = pc then targets else targets ++ [(pc, info)]

/-- The target program counters of a resolved `S_SETPC_B64`. -/
def SetpcTargetInfo.targets (info : SetpcTargetInfo) : List ℕ :=
  if info.indirect then info.target_pcs else [info.target]

/-- One round of the loop over the instructions. -/
def scanInstruction (i : ℕ) (inst : Instruction) (scan : Scan) : Except Failure Scan :=
  if isBranch inst.opcode then
    if isValidTarget program inst.branch_target = false then
      .error (.failure .invalidBranchTarget UINT32_MAX
        ("branch at pc " ++ hexPc inst.pc ++ " targets invalid pc " ++ hexPc inst.branch_target))
    else
      .ok { scan with
        labels := insertNext program inst.endPc (insertSorted inst.branch_target scan.labels) }
  else if inst.opcode = .sSetpcB64 then
    match resolveSetpcTargets program i with
    | none =>
      .error (.failure .invalidBranchTarget UINT32_MAX
        ("unsupported dynamic S_SETPC_B64 at pc " ++ hexPc inst.pc))
    | some info =>
      match info.targets.find? fun target => isValidTarget program target = false with
      | some target =>
        .error (.failure .invalidBranchTarget UINT32_MAX
          ("S_SETPC_B64 at pc " ++ hexPc inst.pc ++ " targets invalid pc " ++ hexPc target))
      | none =>
        .ok {
          labels := insertNext program inst.endPc
            (info.targets.foldl (fun labels target => insertSorted target labels) scan.labels)
          setpc_targets := emplaceTarget inst.pc info scan.setpc_targets }
  else if inst.opcode = .sEndpgm then
    .ok { scan with labels := insertSorted inst.endPc scan.labels }
  else .ok scan

/-- The loop over the instructions from an index on. -/
def scanFrom : ℕ → List Instruction → Scan → Except Failure Scan
  | _, [], scan => .ok scan
  | i, inst :: rest, scan =>
    (scanInstruction program i inst scan).bind fun scan => scanFrom (i + 1) rest scan

/-! ## Blocks -/

/-- `std::lower_bound` over the program counters. -/
def lowerBound (pc : ℕ) : ℕ := (program.instructions.takeWhile fun inst => inst.pc < pc).length

/-- The block from a label to the end that is given. -/
def makeBlock (id start end_pc : ℕ) : BasicBlock where
  id := id
  start_pc := start
  end_pc := end_pc
  inst_begin := lowerBound program start
  inst_end := lowerBound program end_pc

/-- The loop over the sorted labels. -/
def cutBlocks : ℕ → List ℕ → Except Failure (List BasicBlock)
  | _, [] => .ok []
  | id, start :: rest =>
    if start > program.endPc then cutBlocks id rest
    else if start ≠ program.endPc ∧ isInstructionPc program start = false then
      .error (.failure .invalidLabel UINT32_MAX
        ("CFG label does not start on an instruction: " ++ hexPc start))
    else
      (cutBlocks (id + 1) rest).map fun blocks =>
        makeBlock program id start (rest.head?.getD program.endPc) :: blocks

/-- `pc_to_block.find`. -/
def blockOfPc (blocks : List BasicBlock) (pc : ℕ) : Option ℕ :=
  (blocks.find? fun block => block.start_pc = pc).map BasicBlock.id

def blockAt (blocks : List BasicBlock) (pc : ℕ) : Except Failure ℕ :=
  match blockOfPc blocks pc with
  | none => .error .outOfRange
  | some id => .ok id

/-- A branch that is always taken. -/
def branchTo (target : ℕ) : Terminator :=
  { kind := .branch, condition := .always, true_block := target }

/-- The terminator of a block that ends with `S_SETPC_B64`. -/
def setpcTerminator (blocks : List BasicBlock) (info : SetpcTargetInfo) :
    Except Failure Terminator :=
  if info.indirect then do
    let targets ← info.target_pcs.mapM (blockAt blocks)
    let selector_count := min info.selector_values.length info.selector_target_pcs.length
    let selector_targets ← (info.selector_target_pcs.take selector_count).mapM (blockAt blocks)
    .ok {
      kind := .indirectBranch
      condition := .always
      indirect_pc_sgpr := info.pc_sgpr
      indirect_selector_code := info.selector_code
      indirect_target_pcs := info.target_pcs
      indirect_targets := targets
      indirect_selector_values := info.selector_values.take selector_count
      indirect_selector_targets := selector_targets }
  else (blockAt blocks info.target).map branchTo

variable (setpc_targets : List (ℕ × SetpcTargetInfo))

/-- The terminator of a block, by its last instruction. -/
def makeTerminator (blocks : List BasicBlock) (block : BasicBlock) : Except Failure Terminator :=
  if block.inst_begin = block.inst_end then .ok { kind := .ret }
  else
    match program.instructions[block.inst_end - 1]? with
    | none => .error .outOfRange
    | some last =>
      if last.opcode = .sEndpgm then (blockAt blocks program.endPc).map branchTo
      else if last.opcode = .sSetpcB64 then
        match setpc_targets.find? fun entry => entry.1 = last.pc with
        | none => .error .outOfRange
        | some entry => setpcTerminator blocks entry.2
      else if isUnconditionalBranch last.opcode then
        (blockAt blocks last.branch_target).map branchTo
      else if isConditionalBranch last.opcode then
        (blockAt blocks last.branch_target).bind fun true_block =>
          match blockOfPc blocks last.endPc with
          | none =>
            .error (.failure .missingFallthrough block.id
              ("conditional branch at pc " ++ hexPc last.pc ++ " has no fallthrough block"))
          | some false_block =>
            .ok {
              kind := .conditionalBranch
              condition := conditionForOpcode last.opcode
              true_block := true_block
              false_block := false_block }
      else
        match blockOfPc blocks block.end_pc with
        | some next =>
          if block.end_pc ≠ block.start_pc then .ok (branchTo next) else .ok { kind := .ret }
        | none => .ok { kind := .ret }

/-- The blocks that a terminator leads to. -/
def Terminator.targets (terminator : Terminator) : List ℕ :=
  match terminator.kind with
  | .branch => addUnique [] terminator.true_block
  | .conditionalBranch => addUnique (addUnique [] terminator.true_block) terminator.false_block
  | .indirectBranch => terminator.indirect_targets.foldl addUnique []
  | .ret | .unsupported => []

/-- The loop over the blocks that sets the terminators and the successors. -/
def linkBlock (blocks : List BasicBlock) (block : BasicBlock) : Except Failure BasicBlock :=
  (makeTerminator program setpc_targets blocks block).map fun terminator =>
    { block with terminator := terminator, successors := terminator.targets }

/-- `AddUnique(predecessors, id)`. -/
def BasicBlock.addPredecessor (id : ℕ) (block : BasicBlock) : BasicBlock :=
  { block with predecessors := addUnique block.predecessors id }

/-- The loops that set the predecessors. -/
def linkPredecessors (blocks : List BasicBlock) : List BasicBlock :=
  let sorted := blocks.map fun block => { block with successors := sortUnique block.successors }
  let linked := sorted.foldl (fun blocks block =>
    block.successors.foldl (fun blocks succ =>
      blocks.modify succ (BasicBlock.addPredecessor block.id)) blocks) sorted
  linked.map fun block => { block with predecessors := sortUnique block.predecessors }

def codeTableLoadPcs (blocks : List BasicBlock) : List ℕ :=
  sortUnique (blocks.filterMap fun block =>
    if block.inst_begin = block.inst_end then none
    else
      program.instructions[block.inst_end - 1]?.bind fun last =>
        if last.opcode = .sSetpcB64 then
          (setpc_targets.find? fun entry => entry.1 = last.pc).bind fun entry =>
            if entry.2.indirect ∧ entry.2.table_load_pc ≠ UINT32_MAX then
              some entry.2.table_load_pc
            else none
        else none)

def buildGraph : Except Failure Graph :=
  if program.instructions = [] then .error (.error "cannot build CFG for empty shader")
  else
    match program.instructions.find? fun inst => inst.opcode = .unsupported with
    | some inst =>
      .error (.failure .unsupportedInstruction UINT32_MAX
        ("unsupported decoded instruction in CFG at pc " ++ hexPc inst.pc ++ ": " ++ inst.text))
    | none => do
        let start : Scan := {
          labels := insertSorted program.endPc (insertSorted (firstPc program) [])
          setpc_targets := [] }
        let scan ← scanFrom program 0 program.instructions start
        let blocks ← cutBlocks program 0 scan.labels
        let linked ← blocks.mapM (linkBlock program scan.setpc_targets blocks)
        .ok {
          blocks := linkPredecessors linked
          code_table_load_pcs := codeTableLoadPcs program scan.setpc_targets blocks
          entry_block := 0 }

end Build

/-! ## Execution -/

/-- What the branches of a shader see of its state when they are executed. -/
structure Outcome where
  scc : Bool
  vccz : Bool
  execz : Bool
  scalar : ℕ → ℕ

/-- The entry for a value in a table; the dispatcher compares one entry after the other, and
the last one that matches counts. -/
def select (value : ℕ) (values targets : List ℕ) : Option ℕ :=
  ((values.zip targets).reverse.find? fun entry => entry.1 = value).map Prod.snd

/-- Whether a conditional branch is taken. -/
def taken (o : Outcome) : Opcode → Bool
  | .sCbranchScc0 => !o.scc
  | .sCbranchScc1 => o.scc
  | .sCbranchVccz => o.vccz
  | .sCbranchVccnz => !o.vccz
  | .sCbranchExecz => o.execz
  | .sCbranchExecnz => !o.execz
  | _ => false

/-- The program counter that a resolved `S_SETPC_B64` jumps to. -/
def SetpcTargetInfo.jump (info : SetpcTargetInfo) (o : Outcome) : Option ℕ :=
  if info.indirect then
    if info.selector_code ≠ UINT32_MAX then
      select (o.scalar info.selector_code) info.selector_values info.selector_target_pcs
    else select (o.scalar info.pc_sgpr) info.target_pcs info.target_pcs
  else some info.target

variable (program : Decoder.Program)

/-- The program counter behind an instruction, or none behind the end of the program. -/
def nextPc (i : ℕ) (inst : Instruction) (o : Outcome) : Option ℕ :=
  if inst.opcode = .sEndpgm then none
  else if inst.opcode = .sBranch then some inst.branch_target
  else if isConditionalBranch inst.opcode then
    some (if taken o inst.opcode then inst.branch_target else inst.endPc)
  else if inst.opcode = .sSetpcB64 then
    (resolveSetpcTargets program i).bind fun info => info.jump o
  else some inst.endPc

/-- The execution by the program counter. The outputs are the instructions executed, by their
numbers. -/
def linear : Lib.Machine (Option ℕ) Outcome ℕ where
  step s o := do
    let pc ← s
    let i ← program.instructions.findIdx? fun inst => inst.pc = pc
    let inst ← program.instructions[i]?
    some (i, nextPc program i inst o)

/-- Whether the condition of a terminator holds. -/
def BranchCondition.holds (o : Outcome) : BranchCondition → Bool
  | .always => true
  | .sccZero => !o.scc
  | .sccNonZero => o.scc
  | .vccZero => o.vccz
  | .vccNonZero => !o.vccz
  | .execZero => o.execz
  | .execNonZero => !o.execz
  | .unknown => false

/-- The block that a terminator leads to. -/
def Terminator.follow (terminator : Terminator) (o : Outcome) : Option ℕ :=
  match terminator.kind with
  | .branch => some terminator.true_block
  | .conditionalBranch =>
    some (if terminator.condition.holds o then terminator.true_block else terminator.false_block)
  | .indirectBranch =>
    if terminator.indirect_selector_code ≠ UINT32_MAX then
      select (o.scalar terminator.indirect_selector_code) terminator.indirect_selector_values
        terminator.indirect_selector_targets
    else
      select (o.scalar terminator.indirect_pc_sgpr) terminator.indirect_target_pcs
        terminator.indirect_targets
  | .ret | .unsupported => none

/-- The start of a block. -/
def Graph.enter (graph : Graph) (id : ℕ) : Option (ℕ × ℕ) :=
  graph.blocks[id]?.map fun block => (id, block.inst_begin)

/-- The execution by the blocks. A state is a block and the next instruction of it. -/
def walk (graph : Graph) : Lib.Machine (Option (ℕ × ℕ)) Outcome ℕ where
  step s o := do
    let (id, k) ← s
    let block ← graph.blocks[id]?
    if k < block.inst_end then
      let _ ← program.instructions[k]?
      some (k,
        if k + 1 < block.inst_end then some (id, k + 1)
        else (block.terminator.follow o).bind graph.enter)
    else none

end MagnusPS5.Shader.CFG
