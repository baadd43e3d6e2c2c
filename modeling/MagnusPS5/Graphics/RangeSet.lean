/-
`RangeSet` (`rangeSet.h`): a set of bytes, kept as a map from the start of a range to its
end. The map is a list in the order of the starts, of ranges with their sizes.

An operation first looks for the range where its interval starts, and then goes from range
to range. The three `_spec` lemmas say what that means for the bytes in the set.
-/
import MagnusPS5.Lib.Runs

namespace MagnusPS5.Graphics

open Lib
open Spanned (lo hi)
open Option List

structure RangeSet where
  m_ranges : List Run
  deriving DecidableEq

namespace RangeSet

/-- `End`, nothing where it stops the process. -/
def end? (address size : ℕ) : Option ℕ :=
  if address = 0 ∨ size = 0 ∨ size > 2 ^ 64 - 1 - address then none else some (address + size)

def add (address size : ℕ) (s : RangeSet) : Option RangeSet :=
  (end? address size).map fun _ => { m_ranges := addRun s.m_ranges address size }

/-- The loop of `Subtract`. -/
def subtractLoop (address last : ℕ) : List Run → List Run
  | [] => []
  | r :: rest =>
    if r.start < last then
      (if r.start < address then [⟨r.start, address - r.start⟩] else []) ++
        if last < r.start + r.size then ⟨last, r.start + r.size - last⟩ :: rest
        else subtractLoop address last rest
    else r :: rest

/-- The search of `Subtract` for the first range, and its loop from there on. -/
def subtractRanges (address last : ℕ) (ranges : List Run) : List Run :=
  let before := ranges.takeWhile fun r => r.start < address
  let next := ranges.dropWhile fun r => r.start < address
  match before.getLast? with
  | some previous =>
    if address < previous.start + previous.size then
      before.dropLast ++ subtractLoop address last (previous :: next)
    else before ++ subtractLoop address last next
  | none => before ++ subtractLoop address last next

def subtract (address size : ℕ) (s : RangeSet) : Option RangeSet :=
  (end? address size).map fun last => { m_ranges := subtractRanges address last s.m_ranges }

/-- The loop of `ForEachIntersection`. -/
def intersectionsLoop (address last : ℕ) : List Run → List Run
  | [] => []
  | r :: rest =>
    if r.start < last then
      let begin_ := max address r.start
      let end_ := min last (r.start + r.size)
      (if begin_ < end_ then [⟨begin_, end_ - begin_⟩] else []) ++
        intersectionsLoop address last rest
    else []

def intersections (address size : ℕ) (s : RangeSet) : Option (List Run) :=
  (end? address size).map fun last =>
    let before := s.m_ranges.takeWhile fun r => r.start ≤ address
    let next := s.m_ranges.dropWhile fun r => r.start ≤ address
    intersectionsLoop address last (before.getLast?.toList ++ next)

/-- The bytes in the set. -/
def Has (s : RangeSet) (x : ℕ) : Prop := Occupied s.m_ranges x

instance (s : RangeSet) : DecidablePred s.Has :=
  fun x => inferInstanceAs (Decidable (Occupied s.m_ranges x))

/-- The ranges lie in order, with gaps between them. -/
def Wf (s : RangeSet) : Prop := Canonical s.m_ranges

variable {s s' : RangeSet} {address size last : ℕ}

theorem end?_eq_some (h : end? address size = some last) : last = address + size ∧ 0 < size := by
  unfold end? at h
  split_ifs at h with hbad
  have := some.inj h
  omega

/-- **`Add`** -/
theorem add_spec (hs : s.Wf) (h : add address size s = some s') :
    s'.Wf ∧ ∀ x, s'.Has x ↔ s.Has x ∨ (address ≤ x ∧ x < address + size) := by
  obtain ⟨last, hend, rfl⟩ := map_eq_some_iff.mp h
  exact addRun_spec hs address (end?_eq_some hend).2

/-- The loop of `Subtract`, on ranges that all reach behind the start of the interval. Every
range that is left is a part of one that was there. -/
theorem subtractLoop_spec {l : List Run} (h : Canonical l) (hlast : address < last)
    (hreach : ∀ r ∈ l, address < hi r) :
    Canonical (subtractLoop address last l) ∧
    (∀ r ∈ subtractLoop address last l, ∃ r' ∈ l, lo r' ≤ lo r) ∧
    ∀ x, Occupied (subtractLoop address last l) x ↔
      Occupied l x ∧ ¬ (address ≤ x ∧ x < last) := by
  induction l with
  | nil =>
    refine ⟨canonical_nil, (fun r hr => nomatch hr), fun x => ?_⟩
    exact iff_of_false (occupied_nil x) fun hx => occupied_nil x hx.1
  | cons r rest ih =>
    obtain ⟨hgap, hproper, hrest⟩ := canonical_cons.mp h
    obtain ⟨ih1, ih2, ih3⟩ := ih hrest fun r' hr' => hreach r' (.tail _ hr')
    have hr : address < r.start + r.size := hreach r mem_cons_self
    have hcovers : ∀ x, Covers r x ↔ r.start ≤ x ∧ x < r.start + r.size := fun x => .rfl
    unfold subtractLoop
    by_cases hstart : r.start < last
    · rw [if_pos hstart]
      -- what is left of the range behind the interval, and the ranges after it
      have hright : ∃ right, right = (if last < r.start + r.size then
            ⟨last, r.start + r.size - last⟩ :: rest else subtractLoop address last rest) ∧
          Canonical right ∧ (∀ q ∈ right, r.start ≤ lo q ∧ address < lo q) ∧
          ∀ x, Occupied right x ↔
            (last ≤ x ∧ Covers r x) ∨ Occupied rest x ∧ ¬ (address ≤ x ∧ x < last) := by
        refine ⟨_, rfl, ?_⟩
        split_ifs with hend
        · refine ⟨canonical_cons.mpr ⟨fun q hq => ?_, ?_, hrest⟩, fun q hq => ?_, fun x => ?_⟩
          · have hq' : r.start + r.size < lo q := hgap q hq
            show last + (r.start + r.size - last) < lo q
            omega
          · show last < last + (r.start + r.size - last)
            omega
          · rcases mem_cons.mp hq with rfl | hq
            · show r.start ≤ last ∧ address < last
              omega
            · have hq' : r.start + r.size < lo q := hgap q hq
              omega
          · have hnew : Covers (⟨last, r.start + r.size - last⟩ : Run) x ↔
                last ≤ x ∧ x < last + (r.start + r.size - last) := .rfl
            rw [occupied_cons, hnew, hcovers]
            constructor
            · rintro (h1 | hx)
              · left
                omega
              · obtain ⟨q, hq, hqx⟩ := hx
                have hq' : r.start + r.size < lo q := hgap q hq
                have hqlo : lo q ≤ x := hqx.1
                exact .inr ⟨⟨q, hq, hqx⟩, by omega⟩
            · rintro (h1 | ⟨hx, -⟩)
              · left
                omega
              · exact .inr hx
        · refine ⟨ih1, fun q hq => ?_, fun x => ?_⟩
          · obtain ⟨q', hq', hle⟩ := ih2 q hq
            have := hgap q' hq'
            have hhi : hi r = r.start + r.size := rfl
            omega
          · rw [ih3 x, hcovers]
            constructor
            · exact .inr
            · rintro (h1 | hx)
              · omega
              · exact hx
      obtain ⟨right, hdef, hcanonical, hbounds, hright⟩ := hright
      rw [← hdef]
      split_ifs with hleft
      · refine ⟨?_, fun q hq => ⟨r, .head _, ?_⟩, fun x => ?_⟩
        · refine canonical_cons.mpr ⟨fun q hq => ?_, ?_, hcanonical⟩
          · have := (hbounds q hq).2
            show r.start + (address - r.start) < lo q
            omega
          · show r.start < r.start + (address - r.start)
            omega
        · rcases mem_cons.mp hq with rfl | hq
          · exact le_rfl
          · exact (hbounds q hq).1
        · have hnew : Covers (⟨r.start, address - r.start⟩ : Run) x ↔
              r.start ≤ x ∧ x < r.start + (address - r.start) := .rfl
          rw [singleton_append, occupied_cons, hnew, hright x, occupied_cons, hcovers]
          by_cases hx : Occupied rest x <;> simp only [hx, true_and, false_and, or_true,
            or_false] <;> omega
      · refine ⟨hcanonical, fun q hq => ⟨r, .head _, (hbounds q hq).1⟩, fun x => ?_⟩
        rw [nil_append, hright x, occupied_cons, hcovers]
        by_cases hx : Occupied rest x <;> simp only [hx, true_and, false_and, or_true,
          or_false] <;> omega
    · rw [if_neg hstart]
      refine ⟨h, fun q hq => ⟨q, hq, le_rfl⟩, fun x => ?_⟩
      refine iff_self_and.mpr fun hx => ?_
      obtain ⟨q, hq, hqx⟩ := hx
      have hqlo : lo q ≤ x := hqx.1
      rcases mem_cons.mp hq with rfl | hq
      · have : q.start ≤ x := hqlo
        omega
      · have hq' : r.start + r.size < lo q := hgap q hq
        omega

theorem subtract_spec (hs : s.Wf) (h : subtract address size s = some s') :
    s'.Wf ∧ ∀ x, s'.Has x ↔ s.Has x ∧ ¬ (address ≤ x ∧ x < address + size) := by
  obtain ⟨last, hend, rfl⟩ := map_eq_some_iff.mp h
  obtain ⟨rfl, hsize⟩ := end?_eq_some hend
  have hlast : address < address + size := by omega
  have hsplit : s.m_ranges.takeWhile (fun r => decide (r.start < address)) ++
      s.m_ranges.dropWhile (fun r => decide (r.start < address)) = s.m_ranges :=
    takeWhile_append_dropWhile
  have hs' : Canonical s.m_ranges := hs
  have hnext : ∀ r ∈ s.m_ranges.dropWhile (fun r => decide (r.start < address)),
      address < hi r := by
    intro r hr
    have hle : address ≤ lo r := hs'.ordered.le_lo_of_mem_dropWhile hs'.proper hr
    have hproper := hs'.proper r (hsplit ▸ mem_append_right _ hr)
    omega
  -- the ranges before the position end before the interval
  have key : ∀ before next : List Run, before ++ next = s.m_ranges →
      (∀ r ∈ before, hi r ≤ address) → (∀ r ∈ next, address < hi r) →
      Canonical (before ++ subtractLoop address (address + size) next) ∧
      ∀ x, Occupied (before ++ subtractLoop address (address + size) next) x ↔
        Occupied s.m_ranges x ∧ ¬ (address ≤ x ∧ x < address + size) := by
    intro before next heq hbefore hnext
    obtain ⟨hb, hn, hcross⟩ := canonical_append.mp (heq ▸ hs')
    obtain ⟨h1, h2, h3⟩ := subtractLoop_spec hn hlast hnext
    refine ⟨canonical_append.mpr ⟨hb, h1, fun a ha b hb => ?_⟩, fun x => ?_⟩
    · obtain ⟨b', hb', hle⟩ := h2 b hb
      have := hcross a ha b' hb'
      omega
    · rw [← heq, occupied_append, occupied_append, h3 x]
      by_cases hx : Occupied before x
      · obtain ⟨r, hr, hrx⟩ := hx
        have hend := hbefore r hr
        have hxr : x < hi r := hrx.2
        exact iff_of_true (.inl ⟨r, hr, hrx⟩) ⟨.inl ⟨r, hr, hrx⟩, by omega⟩
      · simp only [hx, false_or]
  unfold subtractRanges
  dsimp only
  cases hprevious : (s.m_ranges.takeWhile fun r => decide (r.start < address)).getLast? with
  | none =>
    have hnil := getLast?_eq_none_iff.mp hprevious
    refine key _ _ hsplit ?_ hnext
    rw [hnil]
    exact fun r hr => nomatch hr
  | some previous =>
    obtain ⟨front, hfront⟩ := getLast?_eq_some_iff.mp hprevious
    have hordered : Ordered (front ++ [previous]) := by
      have := hs'.ordered
      rw [← hsplit, hfront] at this
      exact (ordered_append.mp this).1
    have hlo : previous.start < address := by
      have hmem : previous ∈ s.m_ranges.takeWhile fun r => decide (r.start < address) :=
        mem_of_getLast? hprevious
      simpa using mem_takeWhile_imp hmem
    have hends : ∀ r ∈ front, hi r ≤ previous.start := fun r hr =>
      (ordered_append.mp hordered).2.2 r hr previous mem_cons_self
    dsimp only
    split_ifs with hreach
    · -- the range before the position reaches into the interval
      rw [hfront, dropLast_concat]
      refine key _ _ ?_ (fun r hr => le_trans (hends r hr) hlo.le) ?_
      · rw [← singleton_append, ← append_assoc, ← hfront]
        exact hsplit
      · intro r hr
        rcases mem_cons.mp hr with rfl | hr
        · exact hreach
        · exact hnext r hr
    · refine key _ _ hsplit ?_ hnext
      rw [hfront]
      intro r hr
      rcases mem_append.mp hr with hr | hr
      · exact le_trans (hends r hr) hlo.le
      · rw [mem_singleton.mp hr]
        exact Nat.le_of_not_lt hreach

/-- **`Intersections`** is the part of the set that lies in the interval: each range of it
is not empty and lies in the interval and in a range of the set. -/
theorem mem_intersectionsLoop {l : List Run} {r : Run} (h : r ∈ intersectionsLoop address last l) :
    0 < r.size ∧ address ≤ lo r ∧ hi r ≤ last ∧ ∃ r' ∈ l, lo r' ≤ lo r ∧ hi r ≤ hi r' := by
  induction l with
  | nil => nomatch h
  | cons q rest ih =>
    unfold intersectionsLoop at h
    split_ifs at h with hstart
    · rcases mem_append.mp h with h | h
      · split_ifs at h with hlt
        · obtain rfl := mem_singleton.mp h
          refine ⟨?_, ?_, ?_, q, .head _, ?_, ?_⟩
          · show 0 < min last (q.start + q.size) - max address q.start
            omega
          · exact Nat.le_max_left _ _
          · show max address q.start + (min last (q.start + q.size) - max address q.start) ≤ last
            omega
          · exact Nat.le_max_right _ _
          · show max address q.start + (min last (q.start + q.size) - max address q.start) ≤
              q.start + q.size
            omega
        · nomatch h
      · obtain ⟨h1, h2, h3, r', hr', h4⟩ := ih h
        exact ⟨h1, h2, h3, r', .tail _ hr', h4⟩
    · nomatch h

theorem intersections_spec {ranges : List Run} (h : intersections address size s = some ranges) :
    ∀ r ∈ ranges, 0 < r.size ∧ address ≤ r.start ∧ r.start + r.size ≤ address + size ∧
      ∀ x, r.start ≤ x → x < r.start + r.size → s.Has x := by
  obtain ⟨last, hend, rfl⟩ := map_eq_some_iff.mp h
  obtain ⟨rfl, -⟩ := end?_eq_some hend
  intro r hr
  obtain ⟨h1, h2, h3, r', hr', h4, h5⟩ := mem_intersectionsLoop hr
  refine ⟨h1, h2, h3, fun x hx1 hx2 => ⟨r', ?_, le_trans h4 hx1, lt_of_lt_of_le hx2 h5⟩⟩
  rcases mem_append.mp hr' with hr' | hr'
  · exact (takeWhile_sublist _).subset (mem_of_getLast? (mem_toList.mp hr'))
  · exact (dropWhile_sublist _).subset hr'

end RangeSet

end MagnusPS5.Graphics
