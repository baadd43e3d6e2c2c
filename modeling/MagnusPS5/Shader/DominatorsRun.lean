/-
The analyses of every graph that `BuildGraph` makes.

Postdominators and loop bodies are exact. A block without predecessors gets a set of its own
like the entry, so the dominators are those of a graph with several entries: what they hold is
passed on all ways from the entry and on all ways from dead blocks. `analysis_exact_iff` says
for which graphs this makes no difference. Of the blocks that all ways out of two blocks pass,
`FindNearestCommonPostDominator` finds the first.
-/
import MagnusPS5.Shader.NaturalLoops

namespace MagnusPS5.Shader.CFG

open Decoder Lib List BasicBlock Option

variable {program : Decoder.Program} {graph : Graph}

/-! ## The graphs of `BuildGraph` -/

theorem cutBlocks_ids {labels : List ℕ} {blocks : List BasicBlock} {id : ℕ}
    (h : cutBlocks program id labels = .ok blocks) :
    ∀ (j : ℕ) (block : BasicBlock), blocks[j]? = some block →
      block.id = id + j ∧ block.predecessors = [] := by
  induction labels generalizing blocks id with
  | nil =>
    cases h
    intro j block hj
    cases hj
  | cons start rest ih =>
    unfold cutBlocks at h
    split_ifs at h
    · exact ih h
    · obtain ⟨tail, hcut, h⟩ := bind_eq_ok.mp h
      cases h
      intro j block hj
      cases j with
      | zero =>
        cases hj
        exact ⟨rfl, rfl⟩
      | succ j =>
        obtain ⟨hid, hpreds⟩ := ih hcut j block hj
        exact ⟨by omega, hpreds⟩

/-- **A graph of `BuildGraph` is well-formed**, whatever the program. -/
theorem buildGraph_linked (h : buildGraph program = .ok graph) :
    graph.WellFormed ∧ graph.entry_block = 0 := by
  unfold buildGraph at h
  split at h
  · nomatch h
  split at h
  · nomatch h
  simp only [bind, Except.bind] at h
  split at h
  · nomatch h
  rename_i scan _
  split at h
  · nomatch h
  rename_i blocks hcut
  split at h
  · nomatch h
  rename_i linked hlink
  cases h
  have hcutIds := cutBlocks_ids hcut
  have hids : ∀ (j : ℕ) (block : BasicBlock), blocks[j]? = some block → block.id = j :=
    fun j block hj => (hcutIds j block hj).1.trans (Nat.zero_add j)
  have hpreds : ∀ block ∈ blocks, block.predecessors = [] := by
    intro block hblock
    obtain ⟨j, hj⟩ := mem_iff_getElem?.mp hblock
    exact (hcutIds j block hj).2
  obtain ⟨hspec, hedges, hclosed⟩ := link_spec hids hpreds hlink
  have hlast : ∀ (j : ℕ) (last : BasicBlock), (linkPredecessors linked)[j]? = some last →
      ∃ block, blocks[j]? = some block ∧
        LinkedBlock program scan.setpc_targets blocks block last := by
    intro j last hj
    rcases hspec j with ⟨_, hnone⟩ | ⟨block, last', h1, h2, hlinked⟩
    · nomatch hj.symm.trans hnone
    · cases hj.symm.trans h2
      exact ⟨block, h1, hlinked⟩
  have hlastIds : ∀ (j : ℕ) (last : BasicBlock), (linkPredecessors linked)[j]? = some last →
      last.id = j := by
    intro j last hj
    obtain ⟨block, hblock, hlinked⟩ := hlast j last hj
    exact hlinked.id.trans (hids j block hblock)
  have hlength : ∀ j : ℕ, j < blocks.length → j < (linkPredecessors linked).length := by
    intro j hj
    rcases hspec j with ⟨hnone, _⟩ | ⟨_, _, _, h2, _⟩
    · exact absurd hj (not_lt.mpr (getElem?_eq_none_iff.mp hnone))
    · exact (List.getElem?_eq_some_iff.mp h2).1
  refine ⟨⟨hlastIds, fun last hmem id hid => ?_, fun last hmem p hp => ?_, hedges⟩, rfl⟩
  · obtain ⟨j, hj⟩ := mem_iff_getElem?.mp hmem
    obtain ⟨block, _, hlinked⟩ := hlast j last hj
    exact hlength id
      (makeTerminator_targets hids hlinked.terminator id ((hlinked.successors id).mp hid))
  · obtain ⟨b, hb, rfl⟩ := hclosed last hmem p hp
    obtain ⟨j, hj⟩ := mem_iff_getElem?.mp hb
    rw [hlastIds j b hj]
    exact (List.getElem?_eq_some_iff.mp hj).1

theorem buildGraph_wellFormed (h : buildGraph program = .ok graph) : graph.WellFormed :=
  (buildGraph_linked h).1

namespace Graph

/-! ## What is claimed -/

/-- The entry reaches the block. -/
def Reachable (graph : Graph) (b : ℕ) : Prop := ∃ l, Route graph.edge graph.entry_block b l

/-- No way leads on from the block. -/
def IsExit (graph : Graph) (b : ℕ) : Prop :=
  ∃ block, graph.blocks[b]? = some block ∧ block.successors = []

/-- No way leads to the block. -/
def IsRoot (graph : Graph) (b : ℕ) : Prop :=
  ∃ block, graph.blocks[b]? = some block ∧ block.predecessors = []

/-- **What is claimed of the analyses**: `Dominates`, for a block that the entry reaches, is to
be on all ways from the entry to the block, `PostDominates` is to be on all ways from the block
to an exit, and there is a loop for each back edge, whose body is its header and the blocks that
reach the latch without passing the header. -/
structure Exact (graph : Graph) (analysis : Analysis) : Prop where
  dominators : ∀ b < graph.blocks.length, graph.Reachable b → ∀ d,
    graph.dominates analysis.dominators d b = true ↔
      ∀ l, Route graph.edge graph.entry_block b l → d ∈ l
  post_dominators : ∀ b < graph.blocks.length, ∀ d < graph.blocks.length,
    graph.dominates analysis.post_dominators d b = true ↔
      ∀ x l, graph.IsExit x → Route graph.edge b x l → d ∈ l
  back_edges : analysis.natural_loops.map (fun loop => (loop.latch, loop.header)) =
    analysis.back_edges.map fun edge => (edge.src, edge.dst)
  natural_loops : ∀ loop ∈ analysis.natural_loops, ∀ b,
    b ∈ loop.body_blocks ↔ b = loop.header ∨ ReachesLatch graph loop.header loop.latch b

/-- The analyses come to an end and are exact. -/
def AnalysisExact (graph : Graph) : Prop :=
  ∃ bound, ∀ fuel, bound ≤ fuel → ∃ analysis, graph.analyze fuel = some analysis ∧
    graph.Exact analysis

/-- Every way from a block without predecessors to a block that the entry reaches passes the
entry. -/
def NoDeadRoots (graph : Graph) : Prop :=
  ∀ r b l, graph.IsRoot r → graph.Reachable b → Route graph.edge r b l → graph.entry_block ∈ l

/-! ## Dominators -/

section Spec

variable (hgraph : graph.WellFormed)

include hgraph

theorem dominates_iff {sets : List (List ℕ)} {b : ℕ} (hb : b < graph.blocks.length) (d : ℕ) :
    graph.dominates sets d b = true ↔ d ∈ sets.getD b [] := by
  have hblock : graph.blocks[b]? = some graph.blocks[b] := getElem?_eq_getElem hb
  unfold dominates
  rw [(hgraph.findBlock_eq b).trans hblock]
  dsimp only
  rw [hgraph.ids b _ hblock, decide_eq_true_eq]

theorem start_lt {a b : ℕ} {l : List ℕ} (hroute : Route graph.edge a b l)
    (hb : b < graph.blocks.length) : a < graph.blocks.length := by
  cases hroute with
  | here => exact hb
  | step hedge _ => exact (hgraph.edge_lt hedge).1

theorem end_lt {a b : ℕ} {l : List ℕ} (hroute : Route graph.edge a b l)
    (ha : a < graph.blocks.length) : b < graph.blocks.length := by
  induction hroute with
  | here => exact ha
  | step hedge _ ih => exact ih (hgraph.edge_lt hedge).2

/-- What the sets of the predecessors hold: what all ways from the entry and from the roots
pass. -/
theorem passes_predecessors_iff {b d : ℕ} (hb : b < graph.blocks.length) :
    PassesAt (fun id => id = graph.entry_block) predecessors graph.blocks b d ↔
      ∀ r l, r = graph.entry_block ∨ graph.IsRoot r → Route graph.edge r b l → d ∈ l := by
  have hlinks : (fun a b => b ∈ linksAt predecessors graph.blocks a) =
      fun x y => graph.edge y x := by
    funext a b
    exact propext hgraph.mem_linksAt_predecessors
  unfold PassesAt
  rw [hlinks]
  constructor
  · intro h r l hr hroute
    have hstop : stopAt (fun id => id = graph.entry_block) predecessors graph.blocks r := by
      rcases hr with rfl | ⟨block, hblock, hnil⟩
      · exact .inl (decide_eq_true rfl)
      · refine .inr ?_
        rw [linksAt, hblock]
        exact hnil
    exact mem_reverse.mp (h r l.reverse hstop hroute.reverse)
  · intro h r l hstop hroute
    refine mem_reverse.mp (h r l.reverse ?_ hroute.reverse)
    rcases hstop with hentry | hnil
    · exact .inl (of_decide_eq_true hentry)
    · -- a node on a way to a block is a block
      have hr : r < graph.blocks.length := start_lt hgraph hroute.reverse hb
      have hblock : graph.blocks[r]? = some graph.blocks[r] := getElem?_eq_getElem hr
      rw [linksAt, hblock] at hnil
      exact .inr ⟨_, hblock, hnil⟩

theorem passes_successors_iff {b d : ℕ} (hb : b < graph.blocks.length) :
    PassesAt (fun _ => false) successors graph.blocks b d ↔
      ∀ x l, graph.IsExit x → Route graph.edge b x l → d ∈ l := by
  have hlinks : (fun a b => b ∈ linksAt successors graph.blocks a) = graph.edge := by
    funext a b
    exact propext mem_linksAt_successors
  unfold PassesAt
  rw [hlinks]
  constructor
  · rintro h x l ⟨block, hblock, hnil⟩ hroute
    refine h x l (.inr ?_) hroute
    rw [linksAt, hblock]
    exact hnil
  · intro h x l hstop hroute
    have hx : x < graph.blocks.length := end_lt hgraph hroute hb
    have hblock : graph.blocks[x]? = some graph.blocks[x] := getElem?_eq_getElem hx
    rcases hstop with hfixed | hnil
    · cases hfixed
    · rw [linksAt, hblock] at hnil
      exact h x l ⟨_, hblock, hnil⟩ hroute

theorem computeDominators_spec : ∃ bound, ∀ fuel, bound ≤ fuel →
    ∃ sets, graph.computeDominators fuel = some sets ∧
      ∀ b < graph.blocks.length, ∀ d, graph.dominates sets d b = true ↔
        d < graph.blocks.length ∧
          ∀ r l, r = graph.entry_block ∨ graph.IsRoot r → Route graph.edge r b l → d ∈ l := by
  obtain ⟨bound, hbound⟩ := refineLoop_exact (fun id => id = graph.entry_block)
    predecessors (fun block => block.id = graph.entry_block) hgraph.linked_predecessors
    (fun block _ hsingle => .inl (decide_eq_true hsingle))
    (fun block _ hfixed => of_decide_eq_true hfixed)
  refine ⟨bound, fun fuel hfuel => ?_⟩
  obtain ⟨sets, hloop, -, hsets⟩ := hbound fuel hfuel
  refine ⟨sets, hloop, fun b hb d => ?_⟩
  rw [dominates_iff hgraph hb, hsets b hb, passes_predecessors_iff hgraph hb]

/-- **Postdominators are exact.** -/
theorem computePostDominators_spec : ∃ bound, ∀ fuel, bound ≤ fuel →
    ∃ sets, graph.computePostDominators fuel = some sets ∧
      (∀ b, (sets.getD b []).Pairwise (· < ·)) ∧ ∀ b < graph.blocks.length, ∀ d,
        graph.dominates sets d b = true ↔ d < graph.blocks.length ∧
          ∀ x l, graph.IsExit x → Route graph.edge b x l → d ∈ l := by
  obtain ⟨bound, hbound⟩ := refineLoop_exact (fun _ => false) successors
    (fun block => block.successors = []) hgraph.linked_successors
    (fun block _ hsingle => .inr hsingle) (fun block _ hfixed => nomatch hfixed)
  refine ⟨bound, fun fuel hfuel => ?_⟩
  obtain ⟨sets, hloop, hsorted, hsets⟩ := hbound fuel hfuel
  refine ⟨sets, hloop, hsorted, fun b hb d => ?_⟩
  rw [dominates_iff hgraph hb, hsets b hb, passes_successors_iff hgraph hb]

/-! ## Loops -/

theorem mem_computeBackEdges {dominators : List (List ℕ)} {edge : BackEdge}
    (h : edge ∈ graph.computeBackEdges dominators) : graph.edge edge.src edge.dst := by
  obtain ⟨block, hblock, hedge⟩ := mem_flatMap.mp h
  obtain ⟨succ, hsucc, heq⟩ := mem_filterMap.mp hedge
  split_ifs at heq
  rw [some.injEq] at heq
  rw [← heq]
  obtain ⟨j, hj⟩ := mem_iff_getElem?.mp hblock
  exact ⟨block, (hgraph.ids j block hj).symm ▸ hj, hsucc⟩

theorem computeNaturalLoop_spec {fuel : ℕ} (hfuel : 2 * graph.blocks.length + 1 < fuel)
    (dominators post_dominators : List (List ℕ)) {edge : BackEdge}
    (hedge : graph.edge edge.src edge.dst) :
    ∃ edge' loop, graph.computeNaturalLoop fuel dominators post_dominators edge =
        some (edge', loop) ∧
      edge'.src = edge.src ∧ edge'.dst = edge.dst ∧
      loop.latch = edge.src ∧ loop.header = edge.dst ∧
      ∀ b, b ∈ loop.body_blocks ↔
        b = loop.header ∨ ReachesLatch graph loop.header loop.latch b := by
  obtain ⟨hsrc, hdst⟩ := hgraph.edge_lt hedge
  obtain ⟨body, natural, hbody, hmem⟩ :=
    naturalLoopBody_spec (graph.dominates dominators) hgraph hdst hsrc hfuel
  unfold computeNaturalLoop
  rw [hbody, map_some]
  exact ⟨_, _, rfl, rfl, rfl, rfl, rfl, hmem⟩

theorem mapM_computeNaturalLoop {fuel : ℕ} (hfuel : 2 * graph.blocks.length + 1 < fuel)
    (dominators post_dominators : List (List ℕ)) {edges : List BackEdge}
    (hedges : ∀ edge ∈ edges, graph.edge edge.src edge.dst) :
    ∃ loops, edges.mapM (graph.computeNaturalLoop fuel dominators post_dominators) = some loops ∧
      (loops.map fun entry => (entry.2.latch, entry.2.header)) =
        (loops.map fun entry => (entry.1.src, entry.1.dst)) ∧
      ∀ entry ∈ loops, ∀ b, b ∈ entry.2.body_blocks ↔
        b = entry.2.header ∨ ReachesLatch graph entry.2.header entry.2.latch b := by
  induction edges with
  | nil => exact ⟨[], rfl, rfl, fun entry h => nomatch h⟩
  | cons edge edges ih =>
    rw [forall_mem_cons] at hedges
    obtain ⟨loops, hloops, hnames, hbodies⟩ := ih hedges.2
    obtain ⟨edge', loop, hloop, hsrc, hdst, hlatch, hheader, hbody⟩ :=
      computeNaturalLoop_spec hgraph hfuel dominators post_dominators hedges.1
    refine ⟨(edge', loop) :: loops, ?_, ?_, forall_mem_cons.mpr ⟨hbody, hbodies⟩⟩
    · rw [mapM_cons, hloop, hloops]
      rfl
    · rw [map_cons, map_cons, hnames, hsrc, hdst, hlatch, hheader]

/-! ## The analyses -/

/-- What the analyses of a well-formed graph give: everything that is claimed, but for the
dominators, which are those of a graph with several entries. -/
theorem analyze_spec : ∃ bound, ∀ fuel, bound ≤ fuel → ∃ analysis,
    graph.analyze fuel = some analysis ∧
    (∀ b < graph.blocks.length, ∀ d, graph.dominates analysis.dominators d b = true ↔
      d < graph.blocks.length ∧
        ∀ r l, r = graph.entry_block ∨ graph.IsRoot r → Route graph.edge r b l → d ∈ l) ∧
    (∀ b < graph.blocks.length, ∀ d < graph.blocks.length,
      graph.dominates analysis.post_dominators d b = true ↔
        ∀ x l, graph.IsExit x → Route graph.edge b x l → d ∈ l) ∧
    (analysis.natural_loops.map fun loop => (loop.latch, loop.header)) =
      (analysis.back_edges.map fun edge => (edge.src, edge.dst)) ∧
    ∀ loop ∈ analysis.natural_loops, ∀ b,
      b ∈ loop.body_blocks ↔ b = loop.header ∨ ReachesLatch graph loop.header loop.latch b := by
  obtain ⟨bound1, h1⟩ := computeDominators_spec hgraph
  obtain ⟨bound2, h2⟩ := computePostDominators_spec hgraph
  refine ⟨bound1 + bound2 + 2 * graph.blocks.length + 2, fun fuel hfuel => ?_⟩
  obtain ⟨dominators, hdominators, hdom⟩ := h1 fuel (by omega)
  obtain ⟨post_dominators, hpost_dominators, -, hpost⟩ := h2 fuel (by omega)
  have hrounds : 2 * graph.blocks.length + 1 < fuel := by omega
  obtain ⟨loops, hloops, hnames, hbodies⟩ :=
    mapM_computeNaturalLoop hgraph hrounds dominators post_dominators
      fun edge hedge => mem_computeBackEdges hgraph hedge
  refine ⟨⟨dominators, post_dominators, loops.map Prod.fst, loops.map Prod.snd⟩, ?_, hdom,
    fun b hb d hd => (hpost b hb d).trans (and_iff_right hd), ?_, fun loop hloop => ?_⟩
  · unfold analyze
    rw [hdominators, hpost_dominators]
    simp only [bind_eq_bind, bind_some]
    rw [hloops, bind_some]
  · rw [List.map_map, List.map_map]
    exact hnames
  · obtain ⟨entry, hentry, rfl⟩ := mem_map.mp hloop
    exact hbodies entry hentry

end Spec

/-- **The analyses of a well-formed graph are exact if and only if no dead root leads around the
entry.** -/
theorem WellFormed.analysisExact_iff (hgraph : graph.WellFormed) :
    graph.AnalysisExact ↔ graph.NoDeadRoots := by
  obtain ⟨bound, hbound⟩ := analyze_spec hgraph
  constructor
  · rintro ⟨bound', hbound'⟩ r b l hroot hreach hroute
    obtain ⟨analysis, hanalyze, hdom, -⟩ := hbound (bound + bound') (by omega)
    obtain ⟨analysis', hanalyze', hexact⟩ := hbound' (bound + bound') (by omega)
    cases hanalyze.symm.trans hanalyze'
    -- the entry is on all ways from the entry, so it has to be on the way from the root
    obtain ⟨block, hblock, -⟩ := id hroot
    have hr := (List.getElem?_eq_some_iff.mp hblock).1
    have hb := end_lt hgraph hroute hr
    have hdominates := (hexact.dominators b hb hreach graph.entry_block).mpr
      fun l hl => hl.start_mem
    exact ((hdom b hb _).mp hdominates).2 r l (.inr hroot) hroute
  · intro hroots
    refine ⟨bound, fun fuel hfuel => ?_⟩
    obtain ⟨analysis, hanalyze, hdom, hpost, hedges, hloops⟩ := hbound fuel hfuel
    refine ⟨analysis, hanalyze, fun b hb hreach d => ?_, hpost, hedges, hloops⟩
    rw [hdom b hb]
    constructor
    · intro h l hl
      exact h.2 _ l (.inl rfl) hl
    · intro h
      have hall : ∀ r l, r = graph.entry_block ∨ graph.IsRoot r → Route graph.edge r b l →
          d ∈ l := by
        intro r l hr hroute
        rcases hr with rfl | hroot
        · exact h l hroute
        · -- the way from the root goes on from the entry
          obtain ⟨rest, hrest, hsub⟩ := hroute.from_mem (hroots r b l hroot hreach hroute)
          exact hsub d (h rest hrest)
      obtain ⟨l, hl⟩ := hreach
      obtain ⟨rest, hrest, -⟩ := hl.from_mem (h l hl)
      exact ⟨start_lt hgraph hrest hb, hall⟩

end Graph

/-- **The analyses of a graph of `BuildGraph` are exact if and only if** every way from a block
without predecessors to a block that the entry reaches passes the entry. -/
theorem analysis_exact_iff (program : Decoder.Program) (graph : Graph)
    (h : buildGraph program = .ok graph) : graph.AnalysisExact ↔ graph.NoDeadRoots :=
  (buildGraph_wellFormed h).analysisExact_iff

theorem analysis_exact_iff_skip : ∃ graph, buildGraph skipProgram = .ok graph ∧
    (graph.AnalysisExact ↔ graph.NoDeadRoots) := by
  obtain ⟨graph, h⟩ := skipProgram_accepted
  exact ⟨graph, h, analysis_exact_iff skipProgram graph h⟩

/-- A jump over one instruction, which nothing leads to and which goes on behind the jump. -/
def deadProgram : Decoder.Program where
  code := [0, 0, 0]
  instructions := [
    { pc := 0, opcode := .sBranch, branch_target := 8 },
    { pc := 4, opcode := .other 0 },
    { pc := 8, opcode := .sEndpgm }]

/-- The instruction that is jumped over takes the entry out of the dominators of the block behind
it. -/
theorem dead_block_hides_entry : ∃ graph, buildGraph deadProgram = .ok graph ∧
    ¬ graph.AnalysisExact := by
  have hbuilt : (buildGraph deadProgram).toOption.map (fun graph =>
      (graph.blocks.map BasicBlock.successors, graph.blocks.map BasicBlock.predecessors)) =
      some ([[2], [2], [3], []], [[], [], [0, 1], [2]]) := by decide +kernel
  cases h : buildGraph deadProgram with
  | error e =>
    rw [h] at hbuilt
    exact nomatch hbuilt
  | ok graph =>
    rw [h] at hbuilt
    obtain ⟨hsuccs, hpreds⟩ := Prod.mk.inj (Option.some.inj hbuilt)
    obtain ⟨hgraph, hentry⟩ := buildGraph_linked h
    refine ⟨graph, rfl, fun hexact => ?_⟩
    have hroots := hgraph.analysisExact_iff.mp hexact
    have hedge : ∀ a b succs, [[2], [2], [3], []][a]? = some succs → b ∈ succs →
        graph.edge a b := by
      intro a b succs ha hb
      rw [← hsuccs, List.getElem?_map, Option.map_eq_some_iff] at ha
      obtain ⟨block, hblock, rfl⟩ := ha
      exact ⟨block, hblock, hb⟩
    have hroot : graph.IsRoot 1 := by
      have h1 : (graph.blocks.map BasicBlock.predecessors)[1]? = some [] := by rw [hpreds]; rfl
      rw [List.getElem?_map, Option.map_eq_some_iff] at h1
      exact h1
    have hreach : graph.Reachable 2 := by
      refine ⟨[0, 2], ?_⟩
      rw [hentry]
      exact .step (hedge 0 2 [2] rfl List.mem_cons_self) (.here 2)
    have hmem := hroots 1 2 [1, 2] hroot hreach
      (.step (hedge 1 2 [2] rfl List.mem_cons_self) (.here 2))
    rw [hentry] at hmem
    exact nomatch hmem

/-! ## The nearest common postdominator -/

/-- **`FindNearestCommonPostDominator`** of blocks from the first of which a way leads out: the
first block that all ways out of both pass, if there is one. -/
theorem findNearestCommonPostDominator_spec (h : buildGraph program = .ok graph) :
    ∃ bound, ∀ fuel, bound ≤ fuel → ∃ sets, graph.computePostDominators fuel = some sets ∧
      ∀ a < graph.blocks.length, ∀ b < graph.blocks.length,
        ∀ x l, graph.IsExit x → Route graph.edge a x l →
        let m := graph.findNearestCommonPostDominator sets a b
        let passes := Passes graph.edge graph.IsExit
        (m = UINT32_MAX ∨ passes a m ∧ passes b m) ∧
        ∀ d, passes a d → passes b d → passes a m ∧ passes b m ∧ passes m d := by
  have hgraph := buildGraph_wellFormed h
  obtain ⟨bound, hbound⟩ := Graph.computePostDominators_spec hgraph
  refine ⟨bound, fun fuel hfuel => ?_⟩
  obtain ⟨sets, hsets, hsorted, hexact⟩ := hbound fuel hfuel
  refine ⟨sets, hsets, ?_⟩
  intro a ha b hb x l hexit hroute m passes
  have hmem {v d : ℕ} (hv : v < graph.blocks.length) :
      d ∈ sets.getD v [] ↔ d < graph.blocks.length ∧ passes v d :=
    (Graph.dominates_iff hgraph hv d).symm.trans (hexact v hv d)
  -- the way out of the first block keeps what it passes inside of the graph
  have hlt {d : ℕ} (hd : passes a d) : d < graph.blocks.length := by
    obtain ⟨rest, hrest, -⟩ := hroute.from_mem (hd x l hexit hroute)
    exact Graph.start_lt hgraph hrest (Graph.end_lt hgraph hroute ha)
  have hcommon (d : ℕ) : d ∈ intersectSorted (sets.getD a []) (sets.getD b []) ↔
      passes a d ∧ passes b d := by
    rw [mem_intersectSorted (hsorted a) (hsorted b), hmem ha, hmem hb]
    exact ⟨fun h => ⟨h.1.2, h.2.2⟩, fun h => ⟨⟨hlt h.1, h.1⟩, hlt h.1, h.2⟩⟩
  -- the test of a candidate is that all ways out of it pass the others
  have hnearest {d e : ℕ} (hd : passes a d) (he : passes a e) :
      decide (e = d ∨ graph.dominates sets e d) = true ↔ passes d e := by
    rw [decide_eq_true_eq, hexact d (hlt hd)]
    exact ⟨fun h => h.elim (fun h => h ▸ fun _ _ _ hroute => hroute.start_mem) And.right,
      fun h => .inr ⟨hlt he, h⟩⟩
  have hblock {v : ℕ} (hv : v < graph.blocks.length) :
      graph.findBlock v = some graph.blocks[v] ∧ graph.blocks[v].id = v :=
    have hv := getElem?_eq_getElem hv
    ⟨(hgraph.findBlock_eq v).trans hv, hgraph.ids v _ hv⟩
  unfold m Graph.findNearestCommonPostDominator
  rw [(hblock ha).1, (hblock hb).1]
  dsimp only
  rw [(hblock ha).2, (hblock hb).2]
  generalize intersectSorted (sets.getD a []) (sets.getD b []) = common at hcommon
  split
  · next m hfind =>
    have hm := (hcommon m).mp (mem_of_find?_eq_some hfind)
    have hall := find?_some hfind
    rw [List.all_eq_true] at hall
    exact ⟨.inr hm, fun d hd hd' =>
      ⟨hm.1, hm.2, (hnearest hm.1 hd).mp (hall d ((hcommon d).mpr ⟨hd, hd'⟩))⟩⟩
  · next hnone =>
    -- one of the blocks that all ways pass comes first, so that there is none
    suffices hnil : common = [] by
      subst hnil
      exact ⟨.inl rfl, fun d hd hd' => absurd ((hcommon d).mpr ⟨hd, hd'⟩) not_mem_nil⟩
    by_contra hne
    obtain ⟨m, hm, hfirst⟩ := Passes.first hne hroute hexit fun d hd => ((hcommon d).mp hd).1
    refine find?_eq_none.mp hnone m hm (List.all_eq_true.mpr fun d hd => ?_)
    exact (hnearest ((hcommon m).mp hm).1 ((hcommon d).mp hd).1).mpr (hfirst d hd)

/-- The branch over one instruction, and the instruction. -/
theorem findNearestCommonPostDominator_spec_skip : ∃ graph fuel sets,
    buildGraph skipProgram = .ok graph ∧ graph.computePostDominators fuel = some sets ∧
      ∀ d, Passes graph.edge graph.IsExit 0 d → Passes graph.edge graph.IsExit 1 d →
        Passes graph.edge graph.IsExit (graph.findNearestCommonPostDominator sets 0 1) d := by
  have hskip : (buildGraph skipProgram).toOption.map
      (fun graph => graph.blocks.map BasicBlock.successors) = some [[1, 2], [2], [3], []] := by
    decide +kernel
  cases h : buildGraph skipProgram with
  | error e =>
    rw [h] at hskip
    cases hskip
  | ok graph =>
    rw [h] at hskip
    have hsuccessors := some.inj hskip
    have hlength : graph.blocks.length = 4 := by simpa using congrArg length hsuccessors
    have hblock (k : ℕ) (l : List ℕ) (hk : [[1, 2], [2], [3], []][k]? = some l) :
        ∃ block, graph.blocks[k]? = some block ∧ block.successors = l := by
      rw [← hsuccessors, getElem?_map] at hk
      exact map_eq_some_iff.mp hk
    have hedge {k next : ℕ} {l : List ℕ} (hk : [[1, 2], [2], [3], []][k]? = some l)
        (hnext : next ∈ l) : graph.edge k next := by
      obtain ⟨block, hget, rfl⟩ := hblock k l hk
      exact ⟨block, hget, hnext⟩
    obtain ⟨bound, hbound⟩ := findNearestCommonPostDominator_spec h
    obtain ⟨sets, hsets, hspec⟩ := hbound bound le_rfl
    exact ⟨graph, bound, sets, rfl, hsets, fun d h0 h1 =>
      ((hspec 0 (by omega) 1 (by omega) 3 _ (hblock 3 [] rfl)
        (.step (hedge rfl (.tail _ (.head _))) (.step (hedge rfl (.head _)) (.here 3)))).2
          d h0 h1).2.2⟩

end MagnusPS5.Shader.CFG
