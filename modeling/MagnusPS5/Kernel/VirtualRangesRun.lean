/-
The table of virtual ranges over whole runs: from the empty table, any sequence of
operations on ranges whose end is a 64-bit address.

`VrOp.Effect` is the abstract machine. Its states are partial functions from
addresses to attributes, and it says of each operation what its result means and
what becomes of every address. `step_spec` is the simulation of one step;
`wf_run` carries the invariant through a run.
-/
import MagnusPS5.Kernel.VirtualRangesQueries

namespace MagnusPS5.Kernel

open Lib
open Spanned (lo hi)
open VirtualRanges

/-- An operation that changes the table, with its arguments. -/
inductive VrOp
  | add (start size offset : ℕ) (protection : Flags) (memory_type : ℤ)
      (type : VirtualRangeType) (name : Option CString) (disallow_merge : Bool)
  | remove (start size : ℕ)
  | consumeReserved (start size : ℕ) (type : VirtualRangeType)
  | consumeReservedSpan (start size : ℕ) (type : VirtualRangeType)
  | rename (start size : ℕ) (name : Option CString)
  | protect (start size : ℕ) (protection : Flags)
  | setMemoryType (start size : ℕ) (memory_type : ℤ)

namespace VrOp

/-- The interval an operation is about. -/
def span : VrOp → ℕ × ℕ
  | .add start size .. => (start, size)
  | .remove start size => (start, size)
  | .consumeReserved start size _ => (start, size)
  | .consumeReservedSpan start size _ => (start, size)
  | .rename start size _ => (start, size)
  | .protect start size _ => (start, size)
  | .setMemoryType start size _ => (start, size)

/-- The end of the interval is a 64-bit address. -/
def NoWrap (op : VrOp) : Prop := op.span.1 + op.span.2 ≤ UINT64_MAX

instance (op : VrOp) : Decidable op.NoWrap := inferInstanceAs (Decidable (_ ≤ _))

/-- The operation on the table. The operations that return nothing count as
returning `true`. -/
def step (m : VirtualRanges) : VrOp → Bool × VirtualRanges
  | .add start size offset protection memory_type type name disallow_merge =>
    m.add start size offset protection memory_type type name disallow_merge
  | .remove start size => m.remove start size
  | .consumeReserved start size type => m.consumeReserved start size type
  | .consumeReservedSpan start size type =>
    let (first_range, m') := m.consumeReservedSpan start size type
    (first_range.isSome, m')
  | .rename start size name => (true, m.rename start size name)
  | .protect start size protection => (true, m.protect start size protection)
  | .setMemoryType start size memory_type => (true, m.setMemoryType start size memory_type)

/-- The table after a sequence of operations. -/
def run (m : VirtualRanges) (ops : List VrOp) : VirtualRanges :=
  ops.foldl (fun m op => (step m op).2) m

/-! ## The abstract machine -/

variable (f : ℕ → Option Attr)

/-- No address of the interval is mapped. -/
def Free (start size : ℕ) : Prop :=
  ∀ x, start ≤ x → x < start + size → f x = none

/-- Every address of the interval has the type. -/
def AllOfType (start size : ℕ) (type : VirtualRangeType) : Prop :=
  ∀ x, start ≤ x → x < start + size → (f x).map Attr.type = some type

/-- What an operation that returns `ok` makes of the function `f`, and what its
result says of `f`. -/
def Effect (ok : Bool) (f' : ℕ → Option Attr) : VrOp → Prop
  | .add start size offset protection memory_type type name disallow_merge =>
    (ok = true ↔ start ≠ 0 ∧ size ≠ 0 ∧ Free f start size) ∧
    (ok = true → f' = VirtualRanges.onSpan start size
      (fun x _ => some (VirtualRanges.addedAttr start offset protection memory_type type name
        disallow_merge x)) f)
  | .remove start size =>
    (ok = true ↔ ¬ Free f start size) ∧
    f' = VirtualRanges.onSpan start size (fun _ _ => none) f
  | .consumeReserved start size type =>
    (ok = true → AllOfType f start size type ∧
      f' = VirtualRanges.onSpan start size (fun _ _ => none) f)
  | .consumeReservedSpan start size type =>
    (ok = true ↔ size ≠ 0 ∧ AllOfType f start size type) ∧
    (ok = true → f' = VirtualRanges.onSpan start size (fun _ _ => none) f)
  | .rename start size name =>
    f' = VirtualRanges.onSpan start size
      (fun _ a => a.map fun a => { a with name := copyVirtualRangeName name }) f
  | .protect start size protection =>
    f' = VirtualRanges.onSpan start size (fun _ a => a.map fun a => { a with protection }) f
  | .setMemoryType start size memory_type =>
    f' = VirtualRanges.onSpan start size (fun _ a => a.map fun a => { a with memory_type }) f

/-- **One step.** It keeps the invariant, acts on the function as the abstract
machine says, and changes no address when it returns `false`. -/
theorem step_spec {m : VirtualRanges} (h : m.Wf) {op : VrOp} (hop : op.NoWrap) :
    (step m op).2.Wf ∧
    op.Effect m.attrOf (step m op).1 (step m op).2.attrOf ∧
    ((step m op).1 = false → (step m op).2.attrOf = m.attrOf) := by
  cases op with
  | add start size offset protection memory_type type name disallow_merge =>
    obtain ⟨hwf, hiff, htrue, hfalse⟩ :=
      add_spec h offset protection memory_type type name disallow_merge hop
    exact ⟨hwf, ⟨hiff, htrue⟩, fun hf => congrArg attrOf (hfalse hf)⟩
  | remove start size =>
    obtain ⟨hwf, hiff, hview⟩ := remove_spec h hop
    refine ⟨hwf, ⟨hiff.trans ?_, hview⟩, remove_false h hop⟩
    unfold Free
    push Not
    rfl
  | consumeReserved start size type =>
    obtain ⟨hwf, hiff, htrue, hfalse⟩ := consumeReserved_spec h type hop
    refine ⟨hwf, fun ht => ⟨?_, htrue ht⟩, fun hf => congrArg attrOf (hfalse hf)⟩
    -- one range of the type holds the whole interval
    obtain ⟨r, hr, rfl, hlo, hhi⟩ := hiff.mp ht
    intro x h1 h2
    exact type_of_mem h hr ⟨hlo.trans h1, lt_of_lt_of_le h2 hhi⟩
  | consumeReservedSpan start size type =>
    obtain ⟨hwf, hiff, htrue, hfalse⟩ := consumeReservedSpan_spec h type hop
    exact ⟨hwf, ⟨hiff, htrue⟩, fun hf => congrArg attrOf (hfalse hf)⟩
  | rename start size name =>
    obtain ⟨hwf, hview⟩ := rename_spec h name hop
    exact ⟨hwf, hview, fun hf => absurd hf (by simp [step])⟩
  | protect start size protection =>
    obtain ⟨hwf, hview⟩ := protect_spec h protection hop
    exact ⟨hwf, hview, fun hf => absurd hf (by simp [step])⟩
  | setMemoryType start size memory_type =>
    obtain ⟨hwf, hview⟩ := setMemoryType_spec h memory_type hop
    exact ⟨hwf, hview, fun hf => absurd hf (by simp [step])⟩

theorem wf_run {m : VirtualRanges} (h : m.Wf) {ops : List VrOp}
    (hops : ∀ op ∈ ops, op.NoWrap) : (run m ops).Wf := by
  induction ops generalizing m with
  | nil => exact h
  | cons op ops ih =>
    obtain ⟨hop, hrest⟩ := List.forall_mem_cons.mp hops
    exact ih (step_spec h hop).1 hrest

end VrOp

/-! ## The table answers for the function -/

/-- The answers of the queries, in terms of the function the table stands for. -/
structure VirtualRanges.Answers (m : VirtualRanges) : Prop where
  /-- `Query` with flag 0 finds the range that covers the address. -/
  query : ∀ addr r, m.query addr 0 = some r ↔ r ∈ m ∧ Covers r addr
  /-- With flag 1 it falls back on the first range above the address. -/
  query_next : ∀ addr r, m.query addr 1 = some r ↔ (r ∈ m ∧ Covers r addr) ∨
    (m.attrOf addr = none ∧ r ∈ m ∧ addr < r.start ∧ ∀ c ∈ m, addr < c.start → r.start ≤ c.start)
  /-- What a range of the table says of its addresses, the function says. -/
  range : ∀ r ∈ m, ∀ x, Covers r x → m.attrOf x = some (r.attr x)
  hasOverlap : ∀ start size, start + size ≤ UINT64_MAX →
    (m.hasOverlap start size = true ↔ ∃ x, start ≤ x ∧ x < start + size ∧ m.attrOf x ≠ none)
  querySpan : ∀ start size, start + size ≤ UINT64_MAX →
    ((m.querySpan start size).isSome ↔
      size ≠ 0 ∧ ∀ x, start ≤ x → x < start + size → m.attrOf x ≠ none)
  querySpan_parts : ∀ start size parts, start + size ≤ UINT64_MAX →
    m.querySpan start size = some parts → VirtualRanges.TilesSpan start (start + size) parts ∧
      ∀ part ∈ parts, ∀ x, Covers part x → m.attrOf x = some (part.attr x)
  clampRangeSize : ∀ addr size, addr + size ≤ UINT64_MAX →
    m.clampRangeSize addr size ≤ size ∧
    (∀ x, addr ≤ x → x < addr + m.clampRangeSize addr size →
      VirtualRanges.Committed m.attrOf x) ∧
    (m.clampRangeSize addr size < size →
      ¬ VirtualRanges.Committed m.attrOf (addr + m.clampRangeSize addr size))

theorem VirtualRanges.Wf.answers {m : VirtualRanges} (h : m.Wf) : m.Answers where
  query := by
    intro addr r
    rw [query_spec h]
    simp
  query_next := by
    intro addr r
    rw [query_spec h]
    simp only [true_and]
    rfl
  range := fun _ hr _ hx => h.apart.view_of_mem hr hx
  hasOverlap := fun _ _ hspan => hasOverlap_spec h hspan
  querySpan := fun _ _ hspan => (querySpan_spec h hspan).1
  querySpan_parts := fun _ _ parts hspan => (querySpan_spec h hspan).2 parts
  clampRangeSize := fun _ _ hspan => clampRangeSize_spec h hspan

/-- **The table of virtual ranges is a partial function.** After any run from the
empty table, the ranges are in order, disjoint, non-empty and merged as far as
their keys allow; each further operation acts on the function as the abstract
machine says, without effect when it returns `false`; and the queries answer for
the function. -/
theorem virtualRanges_refine (ops : List VrOp) (hops : ∀ op ∈ ops, op.NoWrap) :
    (VrOp.run [] ops).Wf ∧
    (∀ op : VrOp, op.NoWrap →
      op.Effect (VrOp.run [] ops).attrOf (VrOp.step (VrOp.run [] ops) op).1
          (VrOp.step (VrOp.run [] ops) op).2.attrOf ∧
      ((VrOp.step (VrOp.run [] ops) op).1 = false →
        (VrOp.step (VrOp.run [] ops) op).2.attrOf = (VrOp.run [] ops).attrOf)) ∧
    (VrOp.run [] ops).Answers := by
  have hwf : (VrOp.run [] ops).Wf := VrOp.wf_run VirtualRanges.wf_nil hops
  exact ⟨hwf, fun op hop => (VrOp.step_spec hwf hop).2, hwf.answers⟩

/-- Reserving, mapping direct memory next to it, and renaming across the border. -/
theorem virtualRanges_refine_run :
    (VrOp.run [] [.add 4096 8192 0 0 0 .reserved none false,
      .add 12288 8192 65536 3 0 .direct none false,
      .rename 8192 8192 (some [97])]).Wf :=
  (virtualRanges_refine [.add 4096 8192 0 0 0 .reserved none false,
    .add 12288 8192 65536 3 0 .direct none false,
    .rename 8192 8192 (some [97])] (by decide)).1

/-- At the top of the address space ends saturate: a range that ends at `2^64` and
does not wrap past it is not seen by the overlap test, so a second one on the same
address is accepted. And `QuerySpan` rejects an empty span, of which every address
is mapped. -/
theorem virtualRanges_saturate :
    (¬ Apart (VrOp.run [] [.add UINT64_MAX 1 0 0 0 .reserved none true,
      .add UINT64_MAX 1 0 0 0 .reserved none true])) ∧
    ((VirtualRanges.querySpan (VrOp.run [] []) 4096 0).isSome = false ∧
      ∀ x, 4096 ≤ x → x < 4096 + 0 → (VrOp.run [] []).attrOf x ≠ none) := by
  refine ⟨?_, rfl, fun x h1 h2 => by omega⟩
  have hrun : VrOp.run [] [.add UINT64_MAX 1 0 0 0 .reserved none true,
      .add UINT64_MAX 1 0 0 0 .reserved none true] =
      [⟨UINT64_MAX, 1, 0, 0, 0, .reserved, true, []⟩,
        ⟨UINT64_MAX, 1, 0, 0, 0, .reserved, true, []⟩] := by decide
  rw [hrun]
  intro hapart
  have h := (apart_cons.mp hapart).1 _ List.mem_cons_self
  revert h
  decide

end MagnusPS5.Kernel
