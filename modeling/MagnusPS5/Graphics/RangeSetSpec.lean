/-
`RangeSet` (`rangeSet.h`) is a set of bytes.

`meaning` is the set that a sequence of operations stands for. Every operation keeps the ranges
the longest intervals of that set, and so one look at the range before an address is enough to
answer `Contains`, and a walk over the ranges gives the longest intervals of the set and a query.
-/
import MagnusPS5.Graphics.RangeSet

namespace MagnusPS5.Graphics.RangeSet

open Lib
open Spanned (lo hi)
open Option List

def contains (address size : ℕ) (s : RangeSet) : Option Bool :=
  (end? address size).map fun last =>
    match (s.m_ranges.takeWhile fun r => r.start ≤ address).getLast? with
    | none => false
    | some r => r.start ≤ address ∧ last ≤ r.start + r.size

/-- A set without ranges, as it is constructed. -/
def empty : RangeSet := { m_ranges := [] }

/-- What can be done to a set; it is cleared by a new one that takes its place. -/
inductive Op
  | add (address size : ℕ)
  | subtract (address size : ℕ)
  | clear
  deriving DecidableEq

def step (s : RangeSet) : Op → Option RangeSet
  | .add address size => s.add address size
  | .subtract address size => s.subtract address size
  | .clear => some empty

/-- The bytes of an interval. -/
def interval (address size : ℕ) : Set ℕ := {x | address ≤ x ∧ x < address + size}

/-- The set that an operation makes of a set. -/
def apply (S : Set ℕ) : Op → Set ℕ
  | .add address size => S ∪ interval address size
  | .subtract address size => S \ interval address size
  | .clear => ∅

/-- The set that operations stand for. -/
def meaning (ops : List Op) : Set ℕ := ops.foldl apply ∅

/-- An interval that the set takes: it does not wrap, and is none of those that stop the process. -/
def Valid (address size : ℕ) : Prop := address ≠ 0 ∧ size ≠ 0 ∧ size ≤ 2 ^ 64 - 1 - address

def Op.Valid : Op → Prop
  | .add address size => RangeSet.Valid address size
  | .subtract address size => RangeSet.Valid address size
  | .clear => True

variable {s s' : RangeSet} {address size last : ℕ}

theorem end?_isSome : (end? address size).isSome ↔ Valid address size := by
  unfold end? Valid
  split_ifs with hbad
  · simp only [isSome_none, Bool.false_eq_true, false_iff]
    omega
  · simp only [isSome_some, true_iff]
    omega

/-! ## Operations -/

theorem step_isSome (s : RangeSet) (op : Op) : (s.step op).isSome ↔ op.Valid := by
  cases op with
  | add address size =>
    rw [step, add, isSome_map]
    exact end?_isSome
  | subtract address size =>
    rw [step, subtract, isSome_map]
    exact end?_isSome
  | clear => exact iff_of_true rfl trivial

theorem step_spec {S : Set ℕ} {op : Op} (hs : s.Wf) (hmeaning : ∀ x, s.Has x ↔ x ∈ S)
    (h : s.step op = some s') : s'.Wf ∧ ∀ x, s'.Has x ↔ x ∈ apply S op := by
  cases op with
  | add address size =>
    obtain ⟨hwf, hhas⟩ := add_spec hs h
    refine ⟨hwf, fun x => ?_⟩
    rw [hhas, hmeaning]
    rfl
  | subtract address size =>
    obtain ⟨hwf, hhas⟩ := subtract_spec hs h
    refine ⟨hwf, fun x => ?_⟩
    rw [hhas, hmeaning]
    rfl
  | clear =>
    cases h
    exact ⟨canonical_nil, fun x => iff_of_false (occupied_nil x) (Set.notMem_empty x)⟩

theorem run_spec (ops : List Op) {S : Set ℕ} (hs : s.Wf) (hmeaning : ∀ x, s.Has x ↔ x ∈ S)
    (h : ops.foldlM step s = some s') : s'.Wf ∧ ∀ x, s'.Has x ↔ x ∈ ops.foldl apply S := by
  induction ops generalizing s S with
  | nil =>
    cases h
    exact ⟨hs, hmeaning⟩
  | cons op ops ih =>
    rw [foldlM_cons] at h
    obtain ⟨t, hstep, hrest⟩ := bind_eq_some_iff.mp h
    obtain ⟨ht, hmeaning'⟩ := step_spec hs hmeaning hstep
    exact ih ht hmeaning' hrest

theorem run_isSome (ops : List Op) (s : RangeSet) :
    (ops.foldlM step s).isSome ↔ ∀ op ∈ ops, op.Valid := by
  induction ops generalizing s with
  | nil => simp
  | cons op ops ih =>
    rw [foldlM_cons, forall_mem_cons, ← step_isSome s op]
    cases hstep : s.step op with
    | none => simp
    | some t => simpa using ih t

/-! ## Queries -/

theorem contains_spec (hs : s.Wf) {answer : Bool} (h : contains address size s = some answer) :
    answer = true ↔ ∀ x ∈ interval address size, s.Has x := by
  obtain ⟨last, hend, rfl⟩ := map_eq_some_iff.mp h
  obtain ⟨rfl, hsize⟩ := end?_eq_some hend
  have hs' : Canonical s.m_ranges := hs
  constructor
  · intro htrue x hx
    split at htrue
    · exact nomatch htrue
    · next r hlast =>
      have hle := of_decide_eq_true htrue
      have hmem := (mem_of_floor? (l := s.m_ranges) hlast).1
      exact occupied_of_inside (s := address) (e := address + size) hmem hle.1 hle.2 hx.1 hx.2
  · intro hall
    obtain ⟨b, hb, hb1, hb2⟩ := hs'.exists_block (s := address) (e := address + size) (by omega)
      fun x h1 h2 => hall x ⟨h1, h2⟩
    have hfloor : (s.m_ranges.takeWhile fun r => r.start ≤ address).getLast? = some b :=
      hs'.ordered.floor?_of_covers hs'.proper hb ⟨hb1, by omega⟩
    rw [hfloor]
    exact decide_eq_true ⟨hb1, hb2⟩

theorem intersectionsLoop_spec {l : List Run} (h : Canonical l) :
    Canonical (intersectionsLoop address last l) ∧
      ∀ x, Occupied (intersectionsLoop address last l) x ↔
        Occupied l x ∧ address ≤ x ∧ x < last := by
  induction l with
  | nil =>
    refine ⟨canonical_nil, fun x => ?_⟩
    exact iff_of_false (occupied_nil x) fun hx => occupied_nil x hx.1
  | cons r rest ih =>
    obtain ⟨hgap, hproper, hrest⟩ := canonical_cons.mp h
    obtain ⟨ih1, ih2⟩ := ih hrest
    have hcovers : ∀ x, Covers r x ↔ r.start ≤ x ∧ x < r.start + r.size := fun x => .rfl
    unfold intersectionsLoop
    by_cases hstart : r.start < last
    · rw [if_pos hstart]
      by_cases hlt : max address r.start < min last (r.start + r.size)
      · simp only [hlt, if_true, singleton_append]
        refine ⟨canonical_cons.mpr ⟨fun q hq => ?_, ?_, ih1⟩, fun x => ?_⟩
        · -- the rest of the walk stays inside the ranges behind this one
          obtain ⟨_, _, _, q', hq', hlo, _⟩ := mem_intersectionsLoop hq
          have hbehind : r.start + r.size < lo q' := hgap q' hq'
          show max address r.start + (min last (r.start + r.size) - max address r.start) < lo q
          omega
        · show max address r.start <
            max address r.start + (min last (r.start + r.size) - max address r.start)
          omega
        · have hnew : Covers (⟨max address r.start,
              min last (r.start + r.size) - max address r.start⟩ : Run) x ↔
              max address r.start ≤ x ∧
                x < max address r.start + (min last (r.start + r.size) - max address r.start) :=
            .rfl
          rw [occupied_cons, occupied_cons, ih2 x, hnew, hcovers]
          by_cases hx : Occupied rest x <;>
            simp only [hx, true_and, false_and, or_true, or_false] <;> omega
      · simp only [hlt, if_false, nil_append]
        refine ⟨ih1, fun x => ?_⟩
        rw [occupied_cons, ih2 x, hcovers]
        refine and_congr_left fun hx => ⟨Or.inr, fun hocc => hocc.resolve_left ?_⟩
        omega
    · rw [if_neg hstart]
      refine ⟨canonical_nil, fun x => iff_of_false (occupied_nil x) ?_⟩
      rintro ⟨⟨q, hq, hq1, _⟩, _, hx⟩
      -- every range starts at `last` or behind it
      rcases mem_cons.mp hq with heq | hq
      · rw [heq] at hq1
        have hlo : r.start ≤ x := hq1
        omega
      · have hbehind : r.start + r.size < lo q := hgap q hq
        omega

/-- **`ForEachIntersection`** goes over the longest intervals of the set and the query. -/
theorem intersections_exact (hs : s.Wf) {ranges : List Run}
    (h : intersections address size s = some ranges) :
    Canonical ranges ∧
      ∀ x, Occupied ranges x ↔ s.Has x ∧ x ∈ interval address size := by
  obtain ⟨last, hend, rfl⟩ := map_eq_some_iff.mp h
  obtain ⟨rfl, -⟩ := end?_eq_some hend
  have hs' : Canonical s.m_ranges := hs
  have hsplit : s.m_ranges.takeWhile (fun r => decide (r.start ≤ address)) ++
      s.m_ranges.dropWhile (fun r => decide (r.start ≤ address)) = s.m_ranges :=
    takeWhile_append_dropWhile
  -- the ranges before the first one that is looked at end before the query
  have hfrom : ∀ front from_ : List Run, front ++ from_ = s.m_ranges →
      (∀ r ∈ front, hi r ≤ address) → Canonical (intersectionsLoop address (address + size) from_) ∧
      ∀ x, Occupied (intersectionsLoop address (address + size) from_) x ↔
        s.Has x ∧ x ∈ interval address size := by
    intro front from_ heq hfront
    obtain ⟨_, hcanonical, _⟩ := canonical_append.mp (heq ▸ hs')
    obtain ⟨h1, h2⟩ := @intersectionsLoop_spec address (address + size) _ hcanonical
    refine ⟨h1, fun x => ?_⟩
    rw [h2 x, Has, ← heq, occupied_append]
    refine and_congr_left fun hx => ⟨Or.inr, fun hocc => hocc.resolve_left ?_⟩
    rintro ⟨r, hr, _, hr2⟩
    have hend := hfront r hr
    omega
  dsimp only
  cases hprevious : (s.m_ranges.takeWhile fun r => decide (r.start ≤ address)).getLast? with
  | none =>
    refine hfrom [] _ ?_ (forall_mem_nil _)
    rw [getLast?_eq_none_iff.mp hprevious] at hsplit
    exact hsplit
  | some previous =>
    obtain ⟨front, hfront⟩ := getLast?_eq_some_iff.mp hprevious
    have heq : front ++ (previous :: s.m_ranges.dropWhile fun r => decide (r.start ≤ address)) =
        s.m_ranges := by
      rw [← singleton_append, ← append_assoc, ← hfront]
      exact hsplit
    refine hfrom front _ heq fun r hr => ?_
    have hstart : previous.start ≤ address := (mem_of_floor? (l := s.m_ranges) hprevious).2
    have hgap := (canonical_append.mp (heq ▸ hs')).2.2 r hr previous mem_cons_self
    exact (le_of_lt hgap).trans hstart

/-- What holds of a set that stands for `S`. -/
structure Refines (S : Set ℕ) (s : RangeSet) : Prop where
  /-- The ranges are sorted, and no two overlap or touch. -/
  sorted : s.m_ranges.Pairwise fun a b => a.start + a.size < b.start
  nonempty : ∀ r ∈ s.m_ranges, 0 < r.size
  /-- The bytes in the ranges are those of the set. -/
  member : ∀ x, s.Has x ↔ x ∈ S
  contains : ∀ address size answer, contains address size s = some answer →
    (answer = true ↔ interval address size ⊆ S)
  /-- `ForEachIntersection` goes in order over the longest intervals of the set and the query. -/
  visits : ∀ address size ranges, intersections address size s = some ranges →
    (ranges.Pairwise fun a b => a.start + a.size < b.start) ∧
      ∀ r, r ∈ ranges ↔ MaximalRun (· ∈ S ∩ interval address size) r
  /-- A valid query is answered. -/
  answers : ∀ address size, Valid address size →
    (RangeSet.contains address size s).isSome ∧ (intersections address size s).isSome

theorem refines_of_wf {S : Set ℕ} (hs : s.Wf) (hmember : ∀ x, s.Has x ↔ x ∈ S) : Refines S s where
  sorted := hs.gaps
  nonempty r hr := by
    have hproper : r.start < r.start + r.size := hs.proper r hr
    omega
  member := hmember
  contains address size answer h := by
    rw [contains_spec hs h]
    exact forall₂_congr fun x _ => hmember x
  visits address size ranges h := by
    obtain ⟨hcanonical, hocc⟩ := intersections_exact hs h
    refine ⟨hcanonical.gaps, fun r => ?_⟩
    have hiff : Occupied ranges = (· ∈ S ∩ interval address size) := by
      funext x
      exact propext ((hocc x).trans (and_congr_left fun _ => hmember x))
    rw [hcanonical.mem_iff_maximal, hiff]
  answers address size h := by
    rw [RangeSet.contains, intersections, isSome_map, isSome_map]
    exact ⟨end?_isSome.mpr h, end?_isSome.mpr h⟩

/-- **A `RangeSet` is the set that its operations stand for.** -/
theorem rangeSet_refines (ops : List Op) :
    ((ops.foldlM step empty).isSome ↔ ∀ op ∈ ops, op.Valid) ∧
      ∀ s, ops.foldlM step empty = some s → Refines (meaning ops) s := by
  refine ⟨run_isSome ops empty, fun s h => ?_⟩
  have hempty : ∀ x, empty.Has x ↔ x ∈ (∅ : Set ℕ) := fun x =>
    iff_of_false (occupied_nil x) (Set.notMem_empty x)
  obtain ⟨hwf, hmember⟩ := run_spec ops canonical_nil hempty h
  exact refines_of_wf hwf hmember

/-- Two ranges that touch are joined, and split again. -/
theorem rangeSet_refines_split :
    Refines (meaning [.add 16 8, .add 24 8, .subtract 20 2]) ⟨[⟨16, 4⟩, ⟨22, 10⟩]⟩ :=
  (rangeSet_refines [.add 16 8, .add 24 8, .subtract 20 2]).2 _ (by decide)

end MagnusPS5.Graphics.RangeSet
