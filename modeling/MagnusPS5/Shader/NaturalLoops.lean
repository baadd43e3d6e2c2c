/-
The blocks that `NaturalLoopBody` collects.

The body of a loop holds its header, and every other block of it reaches the latch without
passing the header. A block that is in the body and not on the stack any more has brought
all its predecessors along, so at the end nothing outside of the body leads into it but to
the header.
-/
import MagnusPS5.Shader.DominatorsSpec

namespace MagnusPS5.Shader.CFG

open Decoder Lib List LoopBody BasicBlock

/-! ## Edges -/

namespace Graph

/-- The second block is a successor of the first one. -/
def edge (graph : Graph) (a b : ℕ) : Prop :=
  ∃ block, graph.blocks[a]? = some block ∧ b ∈ block.successors

/-- Blocks stand at their ids, and their successors and predecessors are blocks and say the
same. -/
structure WellFormed (graph : Graph) : Prop where
  ids : ∀ (j : ℕ) (block : BasicBlock), graph.blocks[j]? = some block → block.id = j
  successors : ∀ block ∈ graph.blocks, ∀ id ∈ block.successors, id < graph.blocks.length
  predecessors : ∀ block ∈ graph.blocks, ∀ id ∈ block.predecessors, id < graph.blocks.length
  edges : ∀ b ∈ graph.blocks, ∀ c ∈ graph.blocks, c.id ∈ b.successors ↔ b.id ∈ c.predecessors

variable {graph : Graph}

theorem WellFormed.linked_successors (h : graph.WellFormed) :
    Linked BasicBlock.successors graph.blocks := ⟨h.ids, h.successors⟩

theorem WellFormed.linked_predecessors (h : graph.WellFormed) :
    Linked BasicBlock.predecessors graph.blocks := ⟨h.ids, h.predecessors⟩

variable {a b : ℕ}

theorem mem_linksAt_successors : b ∈ linksAt successors graph.blocks a ↔ graph.edge a b := by
  unfold linksAt edge
  cases graph.blocks[a]? with
  | none | some => simp

theorem WellFormed.mem_linksAt_predecessors (h : graph.WellFormed) :
    a ∈ linksAt BasicBlock.predecessors graph.blocks b ↔ graph.edge a b := by
  constructor
  · intro ha
    have halt := h.linked_predecessors.linksAt_lt ha
    unfold linksAt at ha
    cases hb : graph.blocks[b]? with
    | none =>
      rw [hb] at ha
      nomatch ha
    | some target =>
      rw [hb] at ha
      have hsource : graph.blocks[a]? = some graph.blocks[a] := getElem?_eq_getElem halt
      refine ⟨_, hsource, ?_⟩
      have hedge := h.edges _ (mem_of_getElem? hsource) _ (mem_of_getElem? hb)
      rw [h.ids a _ hsource, h.ids b _ hb] at hedge
      exact hedge.mpr ha
  · rintro ⟨source, hsource, hb⟩
    have hblt := h.successors source (mem_of_getElem? hsource) b hb
    have htarget : graph.blocks[b]? = some graph.blocks[b] := getElem?_eq_getElem hblt
    have hedge := h.edges _ (mem_of_getElem? hsource) _ (mem_of_getElem? htarget)
    rw [h.ids a _ hsource, h.ids b _ htarget] at hedge
    unfold linksAt
    rw [htarget]
    exact hedge.mp hb

theorem WellFormed.edge_lt (h : graph.WellFormed) (hedge : graph.edge a b) :
    a < graph.blocks.length ∧ b < graph.blocks.length := by
  obtain ⟨block, hblock, hb⟩ := hedge
  exact ⟨(List.getElem?_eq_some_iff.mp hblock).1, h.successors block (mem_of_getElem? hblock) b hb⟩

theorem WellFormed.findBlock_eq (h : graph.WellFormed) (id : ℕ) :
    graph.findBlock id = graph.blocks[id]? := by
  unfold findBlock
  split
  · next block hblock =>
    rw [if_pos (h.ids id block hblock), hblock]
  · next hnone =>
    rw [hnone, find?_eq_none]
    intro block hmem
    obtain ⟨j, hj⟩ := mem_iff_getElem?.mp hmem
    rw [decide_eq_true_eq, h.ids j block hj]
    rintro rfl
    nomatch hj.symm.trans hnone

end Graph

/-! ## The body of a loop -/

section Body

variable {graph : Graph} {header latch : ℕ}

/-- The block reaches the latch on a way that does not pass the header. -/
def ReachesLatch (graph : Graph) (header latch x : ℕ) : Prop :=
  ∃ l, Route graph.edge x latch l ∧ header ∉ l

/-- The work that is left: twice the blocks that are not in the body yet, and the stack. -/
def LoopBody.work (count : ℕ) (s : LoopBody) : ℕ := 2 * (count - s.body.length) + s.stack.length

/-- The body on its way up; `waiting` blocks may have predecessors outside. -/
structure Collected (graph : Graph) (header latch : ℕ) (waiting : ℕ → Prop) (s : LoopBody) :
    Prop where
  header_mem : header ∈ s.body
  latch_mem : latch ∈ s.body
  nodup : s.body.Nodup
  bound : ∀ x ∈ s.body, x < graph.blocks.length
  reaches : ∀ x ∈ s.body, x = header ∨ ReachesLatch graph header latch x
  stack_mem : ∀ x ∈ s.stack, x ∈ s.body ∧ x ≠ header
  closed : ∀ x ∈ s.body, x ≠ header → x ∉ s.stack → ¬ waiting x →
    ∀ p, graph.edge p x → p ∈ s.body

theorem length_le_of_bound {xs : List ℕ} {count : ℕ} (hnodup : xs.Nodup)
    (hbound : ∀ x ∈ xs, x < count) : xs.length ≤ count := by
  have hsub : xs ⊆ range count := fun x hx => mem_range.mpr (hbound x hx)
  simpa using (hnodup.subperm hsub).length_le

variable {s : LoopBody} {waiting : ℕ → Prop}

section

variable (dominates : ℕ → ℕ → Bool)

include dominates

theorem visit_collected {x p : ℕ}
    (h : Collected graph header latch waiting s) (hx : x ∈ s.body) (hne : x ≠ header)
    (hedge : graph.edge p x) (hp : p < graph.blocks.length) :
    Collected graph header latch waiting (s.visit dominates header p) ∧
      p ∈ (s.visit dominates header p).body ∧
      (∀ y ∈ s.body, y ∈ (s.visit dominates header p).body) ∧
      (s.visit dominates header p).work graph.blocks.length ≤ s.work graph.blocks.length := by
  have hreach : ReachesLatch graph header latch x := (h.reaches x hx).resolve_left hne
  -- the flag plays no part
  obtain ⟨natural, hflag⟩ : ∃ natural, (if dominates header p then s
      else { s with natural := false }) = { s with natural := natural } := by
    split_ifs
    · exact ⟨s.natural, rfl⟩
    · exact ⟨false, rfl⟩
  unfold visit
  rw [hflag]
  by_cases hmem : p ∈ s.body
  · rw [if_pos hmem]
    exact ⟨⟨h.header_mem, h.latch_mem, h.nodup, h.bound, h.reaches, h.stack_mem, h.closed⟩, hmem,
      fun y hy => hy, le_refl _⟩
  · have hph : p ≠ header := fun heq => hmem (heq ▸ h.header_mem)
    rw [if_neg hmem, if_pos hph]
    have hbound : ∀ y ∈ s.body ++ [p], y < graph.blocks.length := by
      intro y hy
      rcases mem_append.mp hy with hy | hy
      · exact h.bound y hy
      · rw [mem_singleton.mp hy]
        exact hp
    have hnodup : (s.body ++ [p]).Nodup := by
      refine nodup_append.mpr ⟨h.nodup, nodup_singleton _, fun y hy z hz hyz => ?_⟩
      rw [hyz, mem_singleton.mp hz] at hy
      exact hmem hy
    refine ⟨⟨mem_append_left _ h.header_mem, mem_append_left _ h.latch_mem, hnodup,
      hbound, fun y hy => ?_, fun y hy => ?_, fun y hy hyh hys hyw q hq => ?_⟩,
      mem_append_right _ (mem_singleton_self _), fun y hy => mem_append_left _ hy,
      ?_⟩
    · rcases mem_append.mp hy with hy | hy
      · exact h.reaches y hy
      · rw [mem_singleton.mp hy]
        obtain ⟨l, hroute, hnot⟩ := hreach
        refine .inr ⟨p :: l, .step hedge hroute, fun hl => ?_⟩
        rcases mem_cons.mp hl with heq | hl
        · exact hph heq.symm
        · exact hnot hl
    · rcases mem_cons.mp hy with rfl | hy
      · exact ⟨mem_append_right _ (mem_singleton_self _), hph⟩
      · exact ⟨mem_append_left _ (h.stack_mem y hy).1, (h.stack_mem y hy).2⟩
    · rw [mem_cons, not_or] at hys
      rcases mem_append.mp hy with hy | hy
      · exact mem_append_left _ (h.closed y hy hyh hys.2 hyw q hq)
      · exact absurd (mem_singleton.mp hy) hys.1
    · have hlength := length_le_of_bound hnodup hbound
      rw [length_append, length_singleton] at hlength
      simp only [work, length_append, length_cons, length_nil]
      omega

theorem foldl_visit_collected {preds : List ℕ} {x : ℕ}
    (h : Collected graph header latch waiting s) (hx : x ∈ s.body) (hne : x ≠ header)
    (hedge : ∀ p ∈ preds, graph.edge p x) (hbound : ∀ p ∈ preds, p < graph.blocks.length) :
    Collected graph header latch waiting (preds.foldl (visit dominates header) s) ∧
      (∀ p ∈ preds, p ∈ (preds.foldl (visit dominates header) s).body) ∧
      (∀ y ∈ s.body, y ∈ (preds.foldl (visit dominates header) s).body) ∧
      (preds.foldl (visit dominates header) s).work graph.blocks.length ≤
        s.work graph.blocks.length := by
  induction preds generalizing s with
  | nil => exact ⟨h, fun p hp => absurd hp not_mem_nil, fun y hy => hy, le_refl _⟩
  | cons p preds ih =>
    rw [forall_mem_cons] at hedge hbound
    obtain ⟨h1, hp, hkeep, hwork⟩ := visit_collected dominates h hx hne hedge.1 hbound.1
    obtain ⟨h2, hall, hkeep2, hwork2⟩ := ih h1 (hkeep x hx) hedge.2 hbound.2
    rw [foldl_cons]
    refine ⟨h2, forall_mem_cons.mpr ⟨hkeep2 p hp, hall⟩, fun y hy => hkeep2 y (hkeep y hy),
      hwork2.trans hwork⟩

/-- **The loop over the stack comes to an end, with nothing left to bring along.** -/
theorem bodyLoop_spec (hgraph : graph.WellFormed) {fuel : ℕ}
    (h : Collected graph header latch (fun _ => False) s)
    (hfuel : s.work graph.blocks.length < fuel) :
    ∃ last, graph.bodyLoop dominates header fuel s = some last ∧ last.stack = [] ∧
      Collected graph header latch (fun _ => False) last := by
  induction fuel generalizing s with
  | zero => exact absurd hfuel (Nat.not_lt_zero _)
  | succ fuel ih =>
    unfold Graph.bodyLoop
    split
    · next hnil => exact ⟨s, rfl, hnil, h⟩
    · next x stack hcons =>
      obtain ⟨hx, hne⟩ := h.stack_mem x (hcons ▸ .head _)
      have hxlt := h.bound x hx
      have hblock : graph.blocks[x]? = some graph.blocks[x] := getElem?_eq_getElem hxlt
      have hfind := (hgraph.findBlock_eq x).trans hblock
      rw [hfind]
      -- while its predecessors are visited, the block itself is waiting
      have hpopped : Collected graph header latch (fun y => y = x) { s with stack := stack } := by
        refine ⟨h.header_mem, h.latch_mem, h.nodup, h.bound, h.reaches, fun y hy => ?_,
          fun y hy hyh hys hyw => ?_⟩
        · exact h.stack_mem y (hcons ▸ .tail _ hy)
        · refine h.closed y hy hyh ?_ id
          rw [hcons, mem_cons, not_or]
          exact ⟨hyw, hys⟩
      have hpreds : ∀ p, p ∈ graph.blocks[x].predecessors ↔ graph.edge p x := by
        intro p
        rw [← hgraph.mem_linksAt_predecessors, linksAt, hblock]
        rfl
      obtain ⟨h1, hall, hkeep, hwork⟩ := foldl_visit_collected dominates hpopped hx hne
        (fun p hp => (hpreds p).mp hp)
        (hgraph.predecessors _ (mem_of_getElem? hblock))
      refine ih ⟨h1.header_mem, h1.latch_mem, h1.nodup, h1.bound, h1.reaches, h1.stack_mem,
        fun y hy hyh hys _ => ?_⟩ ?_
      · by_cases hyx : y = x
        · subst hyx
          exact fun p hp => hall p ((hpreds p).mpr hp)
        · exact h1.closed y hy hyh hys hyx
      · have hlength : ({ s with stack := stack } : LoopBody).work graph.blocks.length + 1 =
            s.work graph.blocks.length := by
          rw [work, work, hcons, length_cons]
          dsimp only
          omega
        omega

/-- **`NaturalLoopBody`** collects the header and the blocks that reach the latch without
passing the header. -/
theorem naturalLoopBody_spec (hgraph : graph.WellFormed) (hheader : header < graph.blocks.length)
    (hlatch : latch < graph.blocks.length) {fuel : ℕ} (hfuel : 2 * graph.blocks.length + 1 < fuel) :
    ∃ body natural, graph.naturalLoopBody fuel dominates header latch = some (body, natural) ∧
      ∀ x, x ∈ body ↔ x = header ∨ ReachesLatch graph header latch x := by
  have hstart : Collected graph header latch (fun _ => False)
      { body := addUnique (addUnique [] header) latch
        stack := if latch ≠ header then [latch] else []
        natural := true } := by
    have hmem : ∀ x, x ∈ addUnique (addUnique [] header) latch ↔ x = header ∨ x = latch := by
      intro x
      rw [mem_addUnique, mem_addUnique]
      simp
    refine ⟨(hmem _).mpr (.inl rfl), (hmem _).mpr (.inr rfl), ?_, fun x hx => ?_, fun x hx => ?_,
      fun x hx => ?_, fun x hx hxh hxs => ?_⟩
    · have hfirst : addUnique [] header = [header] := by simp [addUnique]
      dsimp only
      rw [hfirst]
      unfold addUnique
      split_ifs with heq
      · exact nodup_singleton _
      · rw [mem_singleton] at heq
        simp [Ne.symm heq]
    · rcases (hmem x).mp hx with rfl | rfl
      · exact hheader
      · exact hlatch
    · rcases (hmem x).mp hx with rfl | rfl
      · exact .inl rfl
      · by_cases heq : x = header
        · exact .inl heq
        · refine .inr ⟨[x], .here x, fun hl => heq (mem_singleton.mp hl).symm⟩
    · split_ifs at hx with hne
      · rw [mem_singleton.mp hx]
        exact ⟨(hmem _).mpr (.inr rfl), hne⟩
      · nomatch hx
    · rcases (hmem x).mp hx with rfl | rfl
      · exact absurd rfl hxh
      · refine absurd ?_ hxs
        rw [if_pos hxh]
        exact mem_singleton_self _
  have hwork : ({ body := addUnique (addUnique [] header) latch
                  stack := if latch ≠ header then [latch] else []
                  natural := true } : LoopBody).work graph.blocks.length < fuel := by
    simp only [work]
    split_ifs
    · rw [length_singleton]
      omega
    · rw [length_nil]
      omega
  obtain ⟨last, hloop, hempty, h⟩ := bodyLoop_spec dominates hgraph hstart hwork
  refine ⟨sortUnique last.body, last.natural, ?_, fun x => ?_⟩
  · unfold Graph.naturalLoopBody
    dsimp only
    rw [hloop, Option.map_some]
  · rw [mem_sortUnique]
    refine ⟨h.reaches x, fun hx => ?_⟩
    rcases hx with rfl | ⟨l, hroute, hnot⟩
    · exact h.header_mem
    · refine hroute.start_mem_of_closed (s := {y | y ∈ last.body}) h.latch_mem
        fun p y hpy hy hl => ?_
      refine h.closed y hy (fun heq => hnot (heq ▸ hl)) ?_ id p hpy
      rw [hempty]
      exact not_mem_nil

end

end Body

end MagnusPS5.Shader.CFG
