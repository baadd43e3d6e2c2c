/-
The analyses of a finished graph (`ShaderCFG.cpp`): `ComputeDominators`,
`ComputePostDominators`, `ComputeBackEdges` and `ComputeNaturalLoops`.

The sets of the blocks are kept in lists beside the graph, in the order of the blocks, whose
ids are their places. The loops `while (changed)` and `while (!stack.empty())` take a number
of rounds here and have no result if that is not enough.
-/
import MagnusPS5.Shader.ControlFlowGraph

namespace MagnusPS5.Shader.CFG

open Decoder

/-! ## Sets of blocks -/

def allBlockIds (count : ℕ) : List ℕ := List.range count

def intersectSorted : List ℕ → List ℕ → List ℕ
  | [], _ => []
  | a :: as, bs =>
    match bs.dropWhile fun b => b < a with
    | [] => []
    | b :: rest => if b = a then a :: intersectSorted as rest else intersectSorted as (b :: rest)

/-- The set that a block gets from those behind its links. -/
def nextSet (sets : List (List ℕ)) (id : ℕ) : List ℕ → List ℕ
  | [] => [id]
  | first :: rest =>
    sortUnique (addUnique
      (rest.foldl (fun next link => intersectSorted next (sets.getD link []))
        (sets.getD first [])) id)

section Refine

variable (fixed : ℕ → Bool) (links : BasicBlock → List ℕ)

/-- The body of the loop over the blocks. -/
def refineBlock (state : List (List ℕ) × Bool) (block : BasicBlock) : List (List ℕ) × Bool :=
  if fixed block.id then state
  else
    let next := nextSet state.1 block.id (links block)
    if next ≠ state.1.getD block.id [] then (state.1.set block.id next, true) else state

/-- The loop over the blocks. -/
def refineRound (blocks : List BasicBlock) (sets : List (List ℕ)) : List (List ℕ) × Bool :=
  blocks.foldl (refineBlock fixed links) (sets, false)

/-- The loop `while (changed)`. -/
def refineLoop (blocks : List BasicBlock) : ℕ → List (List ℕ) → Option (List (List ℕ))
  | 0, _ => none
  | fuel + 1, sets =>
    let round := refineRound fixed links blocks sets
    if round.2 then refineLoop blocks fuel round.1 else some round.1

end Refine

namespace Graph

variable (graph : Graph)

def computeDominators (fuel : ℕ) : Option (List (List ℕ)) :=
  refineLoop (fun id => id = graph.entry_block) BasicBlock.predecessors graph.blocks fuel
    (graph.blocks.map fun block =>
      if block.id = graph.entry_block then [block.id] else allBlockIds graph.blocks.length)

def computePostDominators (fuel : ℕ) : Option (List (List ℕ)) :=
  refineLoop (fun _ => false) BasicBlock.successors graph.blocks fuel
    (graph.blocks.map fun block =>
      if block.successors = [] then [block.id] else allBlockIds graph.blocks.length)

def findBlock (id : ℕ) : Option BasicBlock :=
  match graph.blocks[id]? with
  | some block => if block.id = id then some block else graph.blocks.find? fun b => b.id = id
  | none => graph.blocks.find? fun b => b.id = id

/-- `Dominates` and `PostDominates`: whether the set of a block holds another one. -/
def dominates (sets : List (List ℕ)) (dominator block : ℕ) : Bool :=
  match graph.findBlock block with
  | some target => decide (dominator ∈ sets.getD target.id [])
  | none => false

/-! ## Back edges and loops -/

end Graph

/-- `struct BackEdge`. -/
structure BackEdge where
  src : ℕ
  dst : ℕ
  natural : Bool
  deriving DecidableEq

/-- `struct NaturalLoop`. -/
structure NaturalLoop where
  header : ℕ := UINT32_MAX
  latch : ℕ := UINT32_MAX
  merge : ℕ := UINT32_MAX
  continue_block : ℕ := UINT32_MAX
  body_blocks : List ℕ := []
  exit_blocks : List ℕ := []
  deriving DecidableEq

/-- The local variables of `NaturalLoopBody`; the last element of the stack stands first. -/
structure LoopBody where
  body : List ℕ
  stack : List ℕ
  natural : Bool
  deriving DecidableEq

/-- The body of the loop over the predecessors. -/
def LoopBody.visit (dominates : ℕ → ℕ → Bool) (header : ℕ) (s : LoopBody) (pred : ℕ) : LoopBody :=
  let s := if dominates header pred then s else { s with natural := false }
  if pred ∈ s.body then s
  else
    { s with
      body := s.body ++ [pred]
      stack := if pred ≠ header then pred :: s.stack else s.stack }

namespace Graph

variable (graph : Graph)

/-- The loop over the stack. -/
def bodyLoop (dominates : ℕ → ℕ → Bool) (header : ℕ) : ℕ → LoopBody → Option LoopBody
  | 0, _ => none
  | fuel + 1, s =>
    match s.stack with
    | [] => some s
    | id :: stack =>
      let s := { s with stack := stack }
      match graph.findBlock id with
      | none => bodyLoop dominates header fuel s
      | some block =>
        bodyLoop dominates header fuel
          (block.predecessors.foldl (LoopBody.visit dominates header) s)

def naturalLoopBody (fuel : ℕ) (dominates : ℕ → ℕ → Bool) (header latch : ℕ) :
    Option (List ℕ × Bool) :=
  let start : LoopBody := {
    body := addUnique (addUnique [] header) latch
    stack := if latch ≠ header then [latch] else []
    natural := true }
  (graph.bodyLoop dominates header fuel start).map fun s => (sortUnique s.body, s.natural)

def computeBackEdges (dominators : List (List ℕ)) : List BackEdge :=
  graph.blocks.flatMap fun block =>
    block.successors.filterMap fun succ =>
      if graph.dominates dominators succ block.id then some ⟨block.id, succ, true⟩ else none

def findNearestCommonPostDominator (post_dominators : List (List ℕ)) (block_a block_b : ℕ) : ℕ :=
  match graph.findBlock block_a, graph.findBlock block_b with
  | some a, some b =>
    let common := intersectSorted (post_dominators.getD a.id []) (post_dominators.getD b.id [])
    match common.find? fun candidate => common.all fun other =>
        other = candidate ∨ graph.dominates post_dominators other candidate with
    | some candidate => candidate
    | none => common.head?.getD UINT32_MAX
  | _, _ => UINT32_MAX

/-- The blocks that a loop is left to. -/
def exitBlocks (body : List ℕ) : List ℕ :=
  sortUnique ((body.filterMap graph.findBlock).foldl
    (fun exits block => (block.successors.filter fun succ => succ ∉ body).foldl addUnique exits) [])

/-- The body of the loop of `ComputeNaturalLoops`, with what it writes to the edge. -/
def computeNaturalLoop (fuel : ℕ) (dominators post_dominators : List (List ℕ)) (edge : BackEdge) :
    Option (BackEdge × NaturalLoop) :=
  (graph.naturalLoopBody fuel (graph.dominates dominators) edge.dst edge.src).map
    fun (body, natural) =>
      let exits := graph.exitBlocks body
      ({ edge with natural := natural },
        { header := edge.dst
          latch := edge.src
          continue_block := edge.src
          body_blocks := body
          exit_blocks := exits
          merge :=
            match exits with
            | [] => UINT32_MAX
            | first :: rest =>
              rest.foldl (graph.findNearestCommonPostDominator post_dominators) first })

/-- What the four analyses write to the graph. -/
structure Analysis where
  dominators : List (List ℕ)
  post_dominators : List (List ℕ)
  back_edges : List BackEdge
  natural_loops : List NaturalLoop
  deriving DecidableEq

/-- The calls of the four analyses at the end of `BuildGraph`. -/
def analyze (fuel : ℕ) : Option Analysis := do
  let dominators ← graph.computeDominators fuel
  let post_dominators ← graph.computePostDominators fuel
  let loops ← (graph.computeBackEdges dominators).mapM
    (graph.computeNaturalLoop fuel dominators post_dominators)
  some {
    dominators := dominators
    post_dominators := post_dominators
    back_edges := loops.map Prod.fst
    natural_loops := loops.map Prod.snd }

end Graph

end MagnusPS5.Shader.CFG
