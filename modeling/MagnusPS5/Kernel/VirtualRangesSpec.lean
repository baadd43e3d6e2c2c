/-
What the table of virtual ranges means: a partial function from addresses to
attributes, and each operation of the class as an edit of that function.

`Wf` is the invariant: ranges in order, apart, non-empty, below `2^64`, and no two
touching neighbours with the same merge key. Under it the source's shortcuts are
right: the sort in `MergeUnlocked` has nothing to do, the merge around one index
is a merge of the whole table, and the two neighbours of a position are the only
ranges an interval that starts there can meet. Each operation then has one lemma
that says what it does to `Wf` and to the function read off by `attrOf`.
-/
import MagnusPS5.Kernel.VirtualRanges
import Mathlib

namespace MagnusPS5.Kernel

open Lib
open Spanned (lo hi)
open List List.Pairwise Range Nat Option List.IsChain

/-- A range that starts above zero and whose end is a 64-bit address. -/
def Range.Fits (r : Range) : Prop := 0 < r.start ∧ r.start + r.size ≤ UINT64_MAX

namespace VirtualRanges

/-- The invariant of the table. -/
structure Wf (m : VirtualRanges) : Prop where
  fits : ∀ r ∈ m, r.Fits
  ordered : Ordered m
  proper : Proper m
  merged : Unmergeable canMerge m

theorem wf_nil : Wf [] :=
  ⟨fun _ h => absurd h not_mem_nil, nil,
    fun _ h => absurd h not_mem_nil, isChain_nil⟩

variable {m : VirtualRanges} {r : Range} {before after : List Range} {start size : ℕ}

theorem Wf.apart (h : Wf m) : Apart m := h.ordered.apart

theorem rangeEnd_of_fits (h : r.Fits) : rangeEnd r = r.start + r.size :=
  endOf_of_le h.2

/-! ## Merging -/

theorem sameMergeKey_iff {a b : Range} :
    sameMergeKey a b = true ↔
      (a.disallow_merge = false ∧ b.disallow_merge = false ∧ a.type ≠ .direct ∧
        b.type ≠ .direct) ∧
      a.type = b.type ∧ a.protection = b.protection ∧ a.memory_type = b.memory_type ∧
        a.name = b.name := by
  unfold sameMergeKey
  by_cases hkind : a.disallow_merge || b.disallow_merge || a.type = .direct || b.type = .direct
  · rw [if_pos hkind]
    simp only [Bool.or_eq_true, decide_eq_true_eq] at hkind
    constructor
    · intro h
      nomatch h
    · rintro ⟨⟨h1, h2, h3, h4⟩, -⟩
      rcases hkind with ((h | h) | h) | h
      · rw [h] at h1
        nomatch h1
      · rw [h] at h2
        nomatch h2
      · exact absurd h h3
      · exact absurd h h4
  · rw [if_neg hkind]
    simp only [Bool.or_eq_true, decide_eq_true_eq, not_or, Bool.not_eq_true] at hkind
    simp only [Bool.and_eq_true, decide_eq_true_eq]
    constructor
    · rintro ⟨⟨⟨h1, h2⟩, h3⟩, h4⟩
      exact ⟨⟨hkind.1.1.1, hkind.1.1.2, hkind.1.2, hkind.2⟩, h1, h2, h3, h4⟩
    · rintro ⟨-, h1, h2, h3, h4⟩
      exact ⟨⟨⟨h1, h2⟩, h3⟩, h4⟩

/-- Merging two ranges with the same key loses nothing: the source's test and join
are lawful on ranges that fit. -/
theorem lawfulJoin : LawfulJoin attr Range.Fits canMerge absorb where
  touch := by
    intro a b ha _ hab
    show a.start + a.size = b.start
    rw [← rangeEnd_of_fits ha]
    exact hab.1
  ok_join := by
    intro a b ha hb hab
    have htouch := hab.1
    rw [rangeEnd_of_fits ha] at htouch
    obtain ⟨-, hb2⟩ := hb
    refine ⟨ha.1, ?_⟩
    show a.start + (a.size + b.size) ≤ UINT64_MAX
    omega
  lo_join := fun _ _ _ => rfl
  hi_join := by
    intro a b ha _ hab
    have htouch := hab.1
    rw [rangeEnd_of_fits ha] at htouch
    show a.start + (a.size + b.size) = b.start + b.size
    omega
  attr_left := fun _ _ _ _ _ => rfl
  attr_right := by
    intro a b x _ _ hab _
    obtain ⟨⟨h1, h2, h3, h4⟩, h5, h6, h7, h8⟩ := sameMergeKey_iff.mp hab.2
    simp only [attr, absorb, if_neg h4, h1, h2, h5, h6, h7, h8]
  fits_left := fun _ _ _ => .rfl
  fits_right := by
    intro a b c ha hb hab
    have htouch := hab.1
    rw [rangeEnd_of_fits ha] at htouch
    obtain ⟨⟨h1, h2, h3, h4⟩, h5, h6, h7, h8⟩ := sameMergeKey_iff.mp hab.2
    have hend : rangeEnd (absorb a b) = rangeEnd b := by
      show endOf a.start (a.size + b.size) = endOf b.start b.size
      rw [endOf_of_le hb.2, endOf_of_le (by have := hb.2; omega)]
      omega
    have hkey : sameMergeKey (absorb a b) c = sameMergeKey b c := by
      simp only [sameMergeKey, absorb, h1, h2, h5, h6, h7, h8]
    show _ ∧ _ ↔ _ ∧ _
    rw [hend, hkey]

theorem insertionSort_of_ordered {l : VirtualRanges} (ho : Ordered l) :
    l.insertionSort (fun a b => a.start ≤ b.start) = l := by
  apply insertionSort_eq
  refine imp ?_ ho
  intro a b hab
  have h1 : a.start + a.size ≤ b.start := hab
  omega

theorem mergeUnlocked_spec {l : VirtualRanges} (hfits : ∀ r ∈ l, r.Fits) (ho : Ordered l)
    (hp : Proper l) : Wf (mergeUnlocked l) ∧ ∀ x, attrOf (mergeUnlocked l) x = attrOf l x := by
  unfold mergeUnlocked
  by_cases hlen : l.length < 2
  · rw [if_pos hlen]
    refine ⟨⟨hfits, ho, hp, ?_⟩, fun _ => rfl⟩
    match l, hlen with
    | [], _ => exact isChain_nil
    | [r], _ => exact isChain_singleton r
  · rw [if_neg hlen]
    rw [insertionSort_of_ordered ho]
    obtain ⟨h1, h2, h3, h4, h5⟩ := mergeAll_spec lawfulJoin hfits ho hp
    exact ⟨⟨h1, h2, h3, h4⟩, h5⟩

section

variable (hbefore : Unmergeable canMerge before) (hafter : Unmergeable canMerge after)

include hbefore hafter

/-- Merging around the one range that is new is merging the whole table, when the
ranges before it and after it are merged already. -/
theorem mergeAroundUnlocked_eq :
    mergeAroundUnlocked before r after = mergeAll canMerge absorb (before ++ r :: after) := by
  unfold mergeAroundUnlocked
  cases hlast : before.getLast? with
  | none =>
    obtain rfl := getLast?_eq_none_iff.mp hlast
    exact mergeWhile_eq_mergeFrom r after hafter
  | some previous =>
    obtain ⟨front, rfl⟩ := getLast?_eq_some_iff.mp hlast
    have hlist : front ++ [previous] ++ r :: after = front ++ previous :: r :: after := by
      rw [append_assoc, singleton_append]
    rw [hlist, mergeAll_append front previous _ hbefore]
    by_cases hfit : canMerge previous r
    · simp only [if_pos hfit, dropLast_concat, mergeFrom]
      rw [mergeWhile_eq_mergeFrom _ after hafter]
    · simp only [if_neg hfit, mergeFrom]
      rw [mergeWhile_eq_mergeFrom _ after hafter, append_assoc, singleton_append]

theorem mergeAroundUnlocked_spec
    (hfits : ∀ c ∈ before ++ r :: after, c.Fits) (ho : Ordered (before ++ r :: after))
    (hp : Proper (before ++ r :: after)) :
    Wf (mergeAroundUnlocked before r after) ∧
      ∀ x, attrOf (mergeAroundUnlocked before r after) x = attrOf (before ++ r :: after) x := by
  rw [mergeAroundUnlocked_eq hbefore hafter]
  obtain ⟨h1, h2, h3, h4, h5⟩ := mergeAll_spec lawfulJoin hfits ho hp
  exact ⟨⟨h1, h2, h3, h4⟩, h5⟩

end

/-! ## Cutting -/

/-- Editing a partial function on the addresses of one interval. -/
def onSpan (start size : ℕ) (g : ℕ → Option Attr → Option Attr) (f : ℕ → Option Attr) (x : ℕ) :
    Option Attr :=
  if start ≤ x ∧ x < start + size then g x (f x) else f x

theorem onSpan_zero (start : ℕ) (g : ℕ → Option Attr → Option Attr) (f : ℕ → Option Attr) :
    onSpan start 0 g f = f := by
  funext x
  unfold onSpan
  rw [if_neg (by omega)]

/-- What the bodies of `EditUnlocked` and `RemoveUnlocked` do with one range is a
cut; they differ in what becomes of the part inside. -/
theorem body_eq_cut (f : Range → List Range)
    (hspan : start + size ≤ UINT64_MAX) (hsize : 0 < size) (hr : r.Fits) (hpos : 0 < r.size) :
    (if virtualRangesOverlap start size r.start r.size then
        addPiece r r.start (max start r.start) ++
          f (subRange r (max start r.start) (min (endOf start size) (rangeEnd r))) ++
          addPiece r (min (endOf start size) (rangeEnd r)) (rangeEnd r)
      else [r]) = cut start (start + size) f r := by
  rw [endOf_of_le hspan, rangeEnd_of_fits hr]
  have hmeet : virtualRangesOverlap start size r.start r.size = true ↔
      lo r < start + size ∧ start < hi r := by
    rw [virtualRangesOverlap_iff hspan hr.2]
    show 0 < size ∧ 0 < r.size ∧ start < r.start + r.size ∧ r.start < start + size ↔
      r.start < start + size ∧ start < r.start + r.size
    omega
  unfold cut
  by_cases hc : lo r < start + size ∧ start < hi r
  · rw [if_pos hc, if_pos (hmeet.mpr hc)]
    rfl
  · rw [if_neg hc, if_neg (mt hmeet.mp hc)]

/-- A cut of the whole table: the ranges still fit and are in order, and the
function is edited on the interval. -/
theorem flatMap_cut_spec (h : Wf m) (start : ℕ) (hsize : 0 < size)
    {f : Range → List Range} {g : Attr → Option Attr}
    (hin : ∀ d : Range, ∀ c ∈ f d, lo d ≤ lo c ∧ hi c ≤ hi d)
    (hord : ∀ d : Range, Ordered (f d)) (hprop : ∀ d : Range, lo d < hi d → Proper (f d))
    (hview : ∀ c x, view attr (f c) x = if Covers c x then g (c.attr x) else none) :
    let l := m.flatMap (cut start (start + size) f)
    (∀ r ∈ l, r.Fits) ∧ Ordered l ∧ Proper l ∧
      attrOf l = onSpan start size (fun _ a => a.bind g) (attrOf m) := by
  intro l
  have hse : start < start + size := by omega
  have hinside : ∀ b ∈ m, ∀ c ∈ cut start (start + size) f b, lo b ≤ lo c ∧ hi c ≤ hi b :=
    fun b hb c hc => inside_cut hin hse (h.proper b hb) hc
  refine ⟨?_, h.ordered.flatMap _ hinside fun b _ => ordered_cut hin hord hse, ?_, ?_⟩
  · intro r hr
    obtain ⟨b, hb, hrb⟩ := mem_flatMap.mp hr
    have h1 : b.start ≤ r.start ∧ r.start + r.size ≤ b.start + b.size := hinside b hb r hrb
    have h2 := h.fits b hb
    exact ⟨lt_of_lt_of_le h2.1 h1.1, h1.2.trans h2.2⟩
  · intro r hr
    obtain ⟨b, hb, hrb⟩ := mem_flatMap.mp hr
    exact proper_cut hprop hse (h.proper b hb) r hrb
  · funext x
    exact h.apart.view_cut h.proper hview hse x

theorem editUnlocked_spec (h : Wf m)
    (hspan : start + size ≤ UINT64_MAX) (edit : Range → Range) {g : Attr → Attr}
    (hedit : ∀ r, (edit r).start = r.start ∧ (edit r).size = r.size)
    (hattr : ∀ r x, (edit r).attr x = g (r.attr x)) :
    Wf (editUnlocked m start size edit) ∧
      attrOf (editUnlocked m start size edit) =
        onSpan start size (fun _ a => a.map g) (attrOf m) := by
  unfold editUnlocked
  by_cases hsize : size = 0
  · rw [if_pos hsize]
    subst hsize
    exact ⟨h, (onSpan_zero _ _ _).symm⟩
  · rw [if_neg hsize]
    have hbody : m.flatMap (fun r =>
        if virtualRangesOverlap start size r.start r.size then
          addPiece r r.start (max start r.start) ++
            [edit (subRange r (max start r.start) (min (endOf start size) (rangeEnd r)))] ++
            addPiece r (min (endOf start size) (rangeEnd r)) (rangeEnd r)
        else [r]) = m.flatMap (cut start (start + size) fun c => [edit c]) := by
      refine flatMap_congr fun r hr => ?_
      have hpos : r.start < r.start + r.size := h.proper r hr
      exact body_eq_cut (fun c => [edit c]) hspan (by omega) (h.fits r hr) (by omega)
    have hlo : ∀ d, lo (edit d) = lo d ∧ hi (edit d) = hi d := by
      intro d
      obtain ⟨h1, h2⟩ := hedit d
      refine ⟨h1, ?_⟩
      show (edit d).start + (edit d).size = d.start + d.size
      rw [h1, h2]
    obtain ⟨h1, h2, h3, h4⟩ := flatMap_cut_spec h start (pos_of_ne_zero hsize)
      (f := fun c => [edit c]) (g := fun a => some (g a))
      (by
        intro d c hc
        rw [mem_singleton.mp hc, (hlo d).1, (hlo d).2]
        exact ⟨le_refl _, le_refl _⟩)
      (fun d => pairwise_singleton _ _)
      (by
        intro d hd c hc
        rw [mem_singleton.mp hc, (hlo d).1, (hlo d).2]
        exact hd)
      (by
        intro c x
        have hcovers : Covers (edit c) x ↔ Covers c x := by
          unfold Covers
          rw [(hlo c).1, (hlo c).2]
        rw [view_singleton, hattr]
        exact if_congr hcovers rfl rfl)
    obtain ⟨hwf, hmerge⟩ := mergeUnlocked_spec h1 h2 h3
    simp only [hbody]
    refine ⟨hwf, ?_⟩
    funext x
    rw [hmerge x, h4]
    simp only [onSpan, map_eq_bind]
    rfl

theorem meets_iff_mapped (h : Proper m) (hsize : 0 < size) :
    (∃ r ∈ m, lo r < start + size ∧ start < hi r) ↔
      ∃ x, start ≤ x ∧ x < start + size ∧ attrOf m x ≠ none := by
  simp only [attrOf, view_ne_none_iff, Occupied]
  constructor
  · rintro ⟨r, hr, h1, h2⟩
    have h3 := h r hr
    exact ⟨max start (lo r), by omega, by omega, r, hr, by omega, by omega⟩
  · rintro ⟨x, hx1, hx2, r, hr, h1, h2⟩
    exact ⟨r, hr, by omega, by omega⟩

section

variable (h : Wf m) (hspan : start + size ≤ UINT64_MAX)

include h hspan

theorem Wf.overlap_iff (hsize : 0 < size)
    (hr : r ∈ m) : virtualRangesOverlap start size r.start r.size = true ↔
      lo r < start + size ∧ start < hi r := by
  have hpos : r.start < r.start + r.size := h.proper r hr
  rw [virtualRangesOverlap_iff hspan (h.fits r hr).2]
  show 0 < size ∧ 0 < r.size ∧ start < r.start + r.size ∧ r.start < start + size ↔
    r.start < start + size ∧ start < r.start + r.size
  omega

/-- `RemoveUnlocked`: the addresses of the interval are unmapped, and the result
says whether one of them was mapped. The table it leaves is in order. -/
theorem removeUnlocked_spec : ((removeUnlocked m start size).1 = true ↔
      ∃ x, start ≤ x ∧ x < start + size ∧ attrOf m x ≠ none) ∧
    (∀ r ∈ (removeUnlocked m start size).2, r.Fits) ∧
    Ordered (removeUnlocked m start size).2 ∧ Proper (removeUnlocked m start size).2 ∧
    attrOf (removeUnlocked m start size).2 = onSpan start size (fun _ _ => none) (attrOf m) := by
  unfold removeUnlocked
  by_cases hsize : size = 0
  · rw [if_pos hsize]
    subst hsize
    refine ⟨?_, h.fits, h.ordered, h.proper, (onSpan_zero _ _ _).symm⟩
    constructor
    · intro hfalse
      nomatch hfalse
    · rintro ⟨x, h1, h2, -⟩
      omega
  · rw [if_neg hsize]
    have hbody : m.flatMap (fun r =>
        if virtualRangesOverlap start size r.start r.size then
          addPiece r r.start (max start r.start) ++
            addPiece r (min (endOf start size) (rangeEnd r)) (rangeEnd r)
        else [r]) = m.flatMap (cut start (start + size) fun _ => []) := by
      refine flatMap_congr fun r hr => ?_
      have hpos : r.start < r.start + r.size := h.proper r hr
      rw [← body_eq_cut (fun _ => []) hspan (by omega) (h.fits r hr) (by omega), append_nil]
    obtain ⟨h1, h2, h3, h4⟩ := flatMap_cut_spec h start (pos_of_ne_zero hsize)
      (f := fun _ => []) (g := fun _ => none)
      (fun _ c hc => nomatch hc) (fun _ => nil)
      (fun _ _ c hc => nomatch hc)
      (by
        intro c x
        rw [view_nil]
        split <;> rfl)
    simp only [hbody]
    refine ⟨?_, h1, h2, h3, ?_⟩
    · rw [← meets_iff_mapped h.proper (by omega)]
      simp only [List.any_eq_true]
      exact exists_congr fun r => and_congr_right fun hr => h.overlap_iff hspan (by omega) hr
    · rw [h4]
      funext x
      simp only [onSpan, bind_fun_none]

theorem mergeUnlocked_removeUnlocked_spec : Wf (mergeUnlocked (removeUnlocked m start size).2) ∧
      attrOf (mergeUnlocked (removeUnlocked m start size).2) =
        onSpan start size (fun _ _ => none) (attrOf m) := by
  obtain ⟨-, h1, h2, h3, h4⟩ := removeUnlocked_spec h hspan
  obtain ⟨hwf, hmerge⟩ := mergeUnlocked_spec h1 h2 h3
  exact ⟨hwf, (funext hmerge).trans h4⟩

end

/-! ## Looking at the neighbours of a position -/

theorem lowerBound_append (m : VirtualRanges) (start : ℕ) :
    (lowerBound m start).1 ++ (lowerBound m start).2 = m :=
  takeWhile_append_dropWhile

section

variable (h : Wf m) (hspan : start + size ≤ UINT64_MAX)

include h hspan

/-- **The neighbour test of `Add` and `FindOverlap` is complete.** Looking at the
range at the lower bound and at the one before it finds every overlap. -/
theorem neighbours_iff (hsize : 0 < size) : (∃ r, (lowerBound m start).2.head? = some r ∧
        virtualRangesOverlap start size r.start r.size = true) ∨
      (∃ r, (lowerBound m start).1.getLast? = some r ∧
        virtualRangesOverlap start size r.start r.size = true) ↔
      ∃ x, start ≤ x ∧ x < start + size ∧ attrOf m x ≠ none := by
  have hmem1 : ∀ r, (lowerBound m start).2.head? = some r → r ∈ m := fun r hr =>
    lowerBound_append m start ▸ mem_append_right _ (mem_of_mem_head? hr)
  have hmem2 : ∀ r, (lowerBound m start).1.getLast? = some r → r ∈ m := fun r hr =>
    lowerBound_append m start ▸ mem_append_left _ (mem_of_getLast? hr)
  rw [← meets_iff_mapped h.proper hsize, h.ordered.meets_iff h.proper (by omega)]
  refine or_congr ?_ ?_
  · refine exists_congr fun r => and_congr_right fun hr => ?_
    exact h.overlap_iff hspan hsize (hmem1 r hr)
  · refine exists_congr fun r => and_congr_right fun hr => ?_
    exact h.overlap_iff hspan hsize (hmem2 r hr)

theorem findOverlap_isSome_iff : (findOverlap m start size).isSome ↔
      ∃ x, start ≤ x ∧ x < start + size ∧ attrOf m x ≠ none := by
  by_cases hsize : size = 0
  · subst hsize
    have hnone : ∀ o : Option Range,
        o.filter (fun r => virtualRangesOverlap start 0 r.start r.size) = none := by
      intro o
      rw [filter_eq_none_iff]
      intro r _
      simp [virtualRangesOverlap]
    simp only [findOverlap, hnone]
    constructor
    · intro hfalse
      nomatch hfalse
    · rintro ⟨x, h1, h2, -⟩
      omega
  · rw [← neighbours_iff h hspan (by omega)]
    simp only [findOverlap, isSome_or, Bool.or_eq_true, isSome_iff_exists, filter_eq_some_iff]

theorem findOverlap_mem (hr : findOverlap m start size = some r) :
    r ∈ m ∧ r.start < start + size ∧ start < r.start + r.size := by
  simp only [findOverlap, or_eq_some_iff, filter_eq_some_iff] at hr
  have hmem : r ∈ m ∧ virtualRangesOverlap start size r.start r.size = true := by
    rcases hr with ⟨hhead, hov⟩ | ⟨-, hlast, hov⟩
    · exact ⟨lowerBound_append m start ▸ mem_append_right _ (mem_of_mem_head? hhead), hov⟩
    · exact ⟨lowerBound_append m start ▸ mem_append_left _ (mem_of_getLast? hlast), hov⟩
  obtain ⟨-, -, h1, h2⟩ := (virtualRangesOverlap_iff hspan (h.fits r hmem.1).2).mp hmem.2
  exact ⟨hmem.1, h2, h1⟩

end

/-! ## The operations -/

/-- The attribute `Add` gives to an address of the new range. -/
def addedAttr (start offset : ℕ) (protection : Flags) (memory_type : ℤ)
    (type : VirtualRangeType) (name : Option CString) (disallow_merge : Bool) (x : ℕ) : Attr :=
  { type
    protection
    memory_type
    name := copyVirtualRangeName name
    disallow_merge
    backing := if type = .direct then some (addU64 offset (x - start)) else none }

/-- Inserting a range between two parts of the table that leave room for it, and
merging around it, maps its addresses and no others. -/
theorem insert_spec (before after : List Range) (r : Range) (h : Wf (before ++ after))
    (hr : r.Fits) (hpos : 0 < r.size) (hleft : ∀ b ∈ before, hi b ≤ lo r)
    (hright : ∀ b ∈ after, hi r ≤ lo b) :
    Wf (mergeAroundUnlocked before r after) ∧
      attrOf (mergeAroundUnlocked before r after) =
        onSpan r.start r.size (fun x _ => some (r.attr x)) (attrOf (before ++ after)) := by
  obtain ⟨ho1, ho2, ho3⟩ := ordered_append.mp h.ordered
  obtain ⟨hp1, hp2⟩ := proper_append.mp h.proper
  have hord : Ordered (before ++ r :: after) := by
    refine ordered_append.mpr ⟨ho1, ordered_cons.mpr ⟨hright, ho2⟩, ?_⟩
    intro a ha b hb
    rcases mem_cons.mp hb with rfl | hb
    · exact hleft a ha
    · exact ho3 a ha b hb
  have hprop : Proper (before ++ r :: after) := by
    refine proper_append.mpr ⟨hp1, proper_cons.mpr ⟨?_, hp2⟩⟩
    show r.start < r.start + r.size
    omega
  have hfits : ∀ c ∈ before ++ r :: after, c.Fits := by
    intro c hc
    rcases mem_append.mp hc with hc | hc
    · exact h.fits c (mem_append_left _ hc)
    · rcases mem_cons.mp hc with rfl | hc
      · exact hr
      · exact h.fits c (mem_append_right _ hc)
  obtain ⟨hwf, hview⟩ := mergeAroundUnlocked_spec (left_of_append h.merged)
    (right_of_append h.merged) hfits hord hprop
  refine ⟨hwf, ?_⟩
  funext x
  rw [hview x]
  unfold onSpan
  by_cases hx : r.start ≤ x ∧ x < r.start + r.size
  · rw [if_pos hx]
    exact hord.apart.view_of_mem (mem_append_right _ mem_cons_self) hx
  · have herase : attrOf (before ++ after) x =
        if Covers r x then none else attrOf (before ++ r :: after) x :=
      hord.apart.view_erase x
    rw [if_neg hx]
    rw [if_neg (show ¬ Covers r x from hx)] at herase
    exact herase.symm

/-- **`Add`** succeeds exactly on a non-empty interval above zero with no mapped
address, and then maps it; otherwise the table stays as it is. -/
theorem add_spec (h : Wf m) (offset : ℕ)
    (protection : Flags) (memory_type : ℤ) (type : VirtualRangeType) (name : Option CString)
    (disallow_merge : Bool) (hspan : start + size ≤ UINT64_MAX) :
    let out := add m start size offset protection memory_type type name disallow_merge
    Wf out.2 ∧
    (out.1 = true ↔ start ≠ 0 ∧ size ≠ 0 ∧
      ∀ x, start ≤ x → x < start + size → attrOf m x = none) ∧
    (out.1 = true → attrOf out.2 = onSpan start size
      (fun x _ => some (addedAttr start offset protection memory_type type name
        disallow_merge x)) (attrOf m)) ∧
    (out.1 = false → out.2 = m) := by
  intro out
  by_cases hzero : start = 0 ∨ size = 0
  · have hout : out = (false, m) := if_pos hzero
    rw [hout]
    refine ⟨h, ⟨fun hf => absurd hf (by simp), fun hf => ?_⟩, fun hf => absurd hf (by simp),
      fun _ => rfl⟩
    rcases hzero with hz | hz
    · exact absurd hz hf.1
    · exact absurd hz hf.2.1
  · obtain ⟨hstart, hsize⟩ := not_or.mp hzero
    have hnb := neighbours_iff h hspan (pos_of_ne_zero hsize)
    have hm : (lowerBound m start).1 ++ (lowerBound m start).2 = m := lowerBound_append m start
    have htest : (((lowerBound m start).2.head?.any
          fun r => virtualRangesOverlap start size r.start r.size) ||
          (lowerBound m start).1.getLast?.any
            fun r => virtualRangesOverlap start size r.start r.size) = true ↔
        ∃ x, start ≤ x ∧ x < start + size ∧ attrOf m x ≠ none := by
      rw [← hnb, Bool.or_eq_true, Option.any_eq_true, Option.any_eq_true]
    by_cases hmapped : ∃ x, start ≤ x ∧ x < start + size ∧ attrOf m x ≠ none
    · have hout : out = (false, m) := (if_neg hzero).trans (if_pos (htest.mpr hmapped))
      rw [hout]
      refine ⟨h, ⟨fun hf => absurd hf (by simp), ?_⟩, fun hf => absurd hf (by simp), fun _ => rfl⟩
      rintro ⟨-, -, hfree⟩
      obtain ⟨x, h1, h2, h3⟩ := hmapped
      exact absurd (hfree x h1 h2) h3
    · have hout : out = (true, mergeAroundUnlocked (lowerBound m start).1
          { start, size, offset, protection, memory_type, type, disallow_merge,
            name := copyVirtualRangeName name } (lowerBound m start).2) :=
        (if_neg hzero).trans (if_neg (mt htest.mp hmapped))
      -- no range of the table meets the interval, so the new one fits at the position
      have hclear : ∀ b ∈ m, ¬ (lo b < start + size ∧ start < hi b) := by
        intro b hb hmeet
        exact hmapped ((meets_iff_mapped h.proper (pos_of_ne_zero hsize)).mp ⟨b, hb, hmeet⟩)
      obtain ⟨hwf, hview⟩ := insert_spec (lowerBound m start).1 (lowerBound m start).2
        { start, size, offset, protection, memory_type, type, disallow_merge,
          name := copyVirtualRangeName name }
        (hm.symm ▸ h) ⟨pos_of_ne_zero hstart, hspan⟩ (pos_of_ne_zero hsize)
        (by
          intro b hb
          have h1 : lo b < start := lo_lt_of_mem_takeWhile hb
          have h2 := hclear b (hm ▸ mem_append_left _ hb)
          show hi b ≤ start
          omega)
        (by
          intro b hb
          have h1 : start ≤ lo b := h.ordered.le_lo_of_mem_dropWhile h.proper hb
          have h2 := hclear b (hm ▸ mem_append_right _ hb)
          have h3 := h.proper b (hm ▸ mem_append_right _ hb)
          show start + size ≤ lo b
          omega)
      rw [hm] at hview
      rw [hout]
      refine ⟨hwf, ⟨fun _ => ⟨hstart, hsize, ?_⟩, fun _ => rfl⟩, fun _ => hview, nofun⟩
      intro x h1 h2
      by_contra hne
      exact hmapped ⟨x, h1, h2, hne⟩

/-- Taking one range out of the table: nothing else changes, and its neighbours do
not touch, since the range lay between them. -/
theorem erase_spec (h : Wf (before ++ r :: after)) : Wf (before ++ after) ∧
      attrOf (before ++ after) =
        onSpan r.start r.size (fun _ _ => none) (attrOf (before ++ r :: after)) := by
  have hsub : (before ++ after).Sublist (before ++ r :: after) :=
    (sublist_cons_self r after).append_left before
  obtain ⟨-, ho2, ho3⟩ := ordered_append.mp h.ordered
  obtain ⟨hr, -⟩ := ordered_cons.mp ho2
  have hpos : lo r < hi r := h.proper r (mem_append_right _ mem_cons_self)
  refine ⟨⟨fun c hc => h.fits c (hsub.subset hc), h.ordered.sublist hsub,
    fun c hc => h.proper c (hsub.subset hc), ?_⟩, ?_⟩
  · refine isChain_append.mpr ⟨left_of_append h.merged, (right_of_append h.merged).tail, ?_⟩
    intro a ha b hb hfit
    have ha' : a ∈ before := mem_of_getLast? ha
    have hb' : b ∈ after := mem_of_mem_head? hb
    have h1 : hi a ≤ lo r := ho3 a ha' r mem_cons_self
    have h2 : hi r ≤ lo b := hr b hb'
    have h3 : hi a = lo b := lawfulJoin.touch
      (h.fits a (mem_append_left _ ha'))
      (h.fits b (mem_append_right _ (.tail _ hb'))) hfit
    omega
  · funext x
    exact h.apart.view_erase x

/-- **`Remove`** unmaps the interval, and says whether one of its addresses was
mapped. The shortcut for an exact match is no exception. -/
theorem remove_spec (h : Wf m) (hspan : start + size ≤ UINT64_MAX) : Wf (remove m start size).2 ∧
    ((remove m start size).1 = true ↔
      ∃ x, start ≤ x ∧ x < start + size ∧ attrOf m x ≠ none) ∧
    attrOf (remove m start size).2 = onSpan start size (fun _ _ => none) (attrOf m) := by
  obtain ⟨hremoved, -⟩ := removeUnlocked_spec h hspan
  obtain ⟨hwf, hview⟩ := mergeUnlocked_removeUnlocked_spec h hspan
  have hm := lowerBound_append m start
  unfold remove
  generalize lowerBound m start = bound at hm ⊢
  obtain ⟨before, position⟩ := bound
  cases position with
  | nil => exact ⟨hwf, hremoved, hview⟩
  | cons r after =>
    by_cases hexact : r.start = start ∧ r.size = size
    · obtain ⟨hwf', hview'⟩ := erase_spec (hm.symm ▸ h)
      rw [show before ++ r :: after = m from hm, hexact.1, hexact.2] at hview'
      have hr : r ∈ m := hm ▸ mem_append_right _ mem_cons_self
      have hlt : r.start < r.start + r.size := h.proper r hr
      have hmapped : ∃ x, start ≤ x ∧ x < start + size ∧ attrOf m x ≠ none := by
        refine ⟨start, le_refl _, by omega, ?_⟩
        exact view_ne_none_iff.mpr ⟨r, hr, hexact.1.le, by show start < r.start + r.size; omega⟩
      simp only [if_pos hexact]
      exact ⟨hwf', iff_of_true trivial hmapped, hview'⟩
    · simp only [if_neg hexact]
      exact ⟨hwf, hremoved, hview⟩

theorem remove_false (h : Wf m)
    (hspan : start + size ≤ UINT64_MAX) (hfalse : (remove m start size).1 = false) :
    attrOf (remove m start size).2 = attrOf m := by
  obtain ⟨-, hiff, hview⟩ := remove_spec h hspan
  rw [hview]
  funext x
  unfold onSpan
  by_cases hx : start ≤ x ∧ x < start + size
  · rw [if_pos hx]
    by_contra hne
    have htrue := hiff.mpr ⟨x, hx.1, hx.2, Ne.symm hne⟩
    rw [hfalse] at htrue
    nomatch htrue
  · rw [if_neg hx]

/-- The ranges whose type is `type`, for the question whether a whole interval has
that type. -/
theorem type_of_mem (h : Wf m) (hr : r ∈ m) {x : ℕ}
    (hx : Covers r x) : (attrOf m x).map Attr.type = some r.type := by
  have hview : attrOf m x = some (r.attr x) := h.apart.view_of_mem hr hx
  rw [hview]
  rfl

/-- **`ConsumeReserved`** succeeds exactly when one range of the type holds the
whole interval, and then unmaps it; otherwise the table stays as it is. -/
theorem consumeReserved_spec (h : Wf m)
    (type : VirtualRangeType) (hspan : start + size ≤ UINT64_MAX) :
    let out := consumeReserved m start size type
    Wf out.2 ∧
    (out.1 = true ↔ ∃ r ∈ m, r.type = type ∧ lo r ≤ start ∧ start + size ≤ hi r) ∧
    (out.1 = true → attrOf out.2 = onSpan start size (fun _ _ => none) (attrOf m)) ∧
    (out.1 = false → out.2 = m) := by
  intro out
  have htest : (m.any fun r => r.type = type ∧ r.start ≤ start ∧
        endOf start size ≤ rangeEnd r) = true ↔
      ∃ r ∈ m, r.type = type ∧ lo r ≤ start ∧ start + size ≤ hi r := by
    simp only [List.any_eq_true, decide_eq_true_eq]
    refine exists_congr fun r => and_congr_right fun hr => ?_
    rw [endOf_of_le hspan, rangeEnd_of_fits (h.fits r hr)]
    rfl
  by_cases hc : ∃ r ∈ m, r.type = type ∧ lo r ≤ start ∧ start + size ≤ hi r
  · have hout : out = (true, mergeUnlocked (removeUnlocked m start size).2) :=
      if_pos (htest.mpr hc)
    obtain ⟨hwf, hview⟩ := mergeUnlocked_removeUnlocked_spec h hspan
    rw [hout]
    exact ⟨hwf, ⟨fun _ => hc, fun _ => rfl⟩, fun _ => hview, nofun⟩
  · have hout : out = (false, m) := if_neg (mt htest.mp hc)
    rw [hout]
    exact ⟨h, ⟨fun hf => absurd hf (by simp), fun hf => absurd hf hc⟩,
      fun hf => absurd hf (by simp), fun _ => rfl⟩

/-- The lookup of `ConsumeReservedSpan`: a range of the type at the address. -/
def candidate (m : VirtualRanges) (type : VirtualRangeType) (current : ℕ) : Option Range :=
  m.find? fun r => r.type = type ∧ r.start ≤ current ∧ current < rangeEnd r

section

variable (h : Wf m) (type : VirtualRangeType)

include h type

theorem candidate_isSome_iff (x : ℕ) :
    (candidate m type x).isSome ↔ (attrOf m x).map Attr.type = some type := by
  unfold candidate
  simp only [find?_isSome, decide_eq_true_eq]
  constructor
  · rintro ⟨r, hr, htype, h1, h2⟩
    rw [rangeEnd_of_fits (h.fits r hr)] at h2
    rw [type_of_mem h hr ⟨h1, h2⟩, htype]
  · intro hx
    obtain ⟨a, ha, htype⟩ := map_eq_some_iff.mp hx
    obtain ⟨r, hr, hcov, rfl⟩ := h.apart.view_eq_some_iff.mp ha
    refine ⟨r, hr, htype, hcov.1, ?_⟩
    rw [rangeEnd_of_fits (h.fits r hr)]
    exact hcov.2

theorem candidate_sound : Sound m (candidate m type) := by
  intro x r hr
  have hmem := mem_of_find?_eq_some hr
  have hprop : r.type = type ∧ r.start ≤ x ∧ x < rangeEnd r := by
    simpa using find?_some hr
  rw [rangeEnd_of_fits (h.fits r hmem)] at hprop
  exact ⟨hmem, hprop.2⟩

/-- **`ConsumeReservedSpan`** succeeds exactly on a non-empty interval all of whose
addresses have the type, and then unmaps it. -/
theorem consumeReservedSpan_spec (hspan : start + size ≤ UINT64_MAX) :
    let out := consumeReservedSpan m start size type
    Wf out.2 ∧
    (out.1.isSome = true ↔ size ≠ 0 ∧
      ∀ x, start ≤ x → x < start + size → (attrOf m x).map Attr.type = some type) ∧
    (out.1.isSome = true → attrOf out.2 = onSpan start size (fun _ _ => none) (attrOf m)) ∧
    (out.1.isSome = false → out.2 = m) := by
  intro out
  by_cases hsize : size = 0
  · have hout : out = (none, m) := if_pos hsize
    rw [hout]
    exact ⟨h, ⟨fun hf => absurd hf (by simp), fun hf => absurd hsize hf.1⟩,
      fun hf => absurd hf (by simp), fun _ => rfl⟩
  · have hstable : ∀ b x y, candidate m type x = some b → x ≤ y → y < hi b →
        (candidate m type y).isSome := by
      intro r x y hr hxy hy
      obtain ⟨hmem, hcov⟩ := candidate_sound h type x r hr
      have htype : r.type = type := by
        have hprop := find?_some hr
        simp only [decide_eq_true_eq] at hprop
        exact hprop.1
      rw [candidate_isSome_iff h, type_of_mem h hmem ⟨hcov.1.trans hxy, hy⟩, htype]
    have hwalk := walk_isSome_iff (candidate_sound h type) hstable (s := start) (e := start + size)
    simp only [candidate_isSome_iff h] at hwalk
    have hend := endOf_of_le hspan
    cases hparts : walk (candidate m type) m.length start (start + size) with
    | none =>
      have hout : out = (none, m) := by
        have hparts' := hparts
        unfold candidate at hparts'
        simp only [out, consumeReservedSpan, if_neg hsize, hend, hparts']
      rw [hparts] at hwalk
      rw [hout]
      refine ⟨h, ⟨fun hf => absurd hf (by simp), fun hf => ?_⟩,
        fun hf => absurd hf (by simp), fun _ => rfl⟩
      nomatch (hwalk.mpr hf.2)
    | some parts =>
      have hout : out = (parts.head?.map fun part => part.1,
          mergeUnlocked (removeUnlocked m start size).2) := by
        have hparts' := hparts
        unfold candidate at hparts'
        simp only [out, consumeReservedSpan, if_neg hsize, hend, hparts']
      rw [hparts] at hwalk
      obtain ⟨hwf, hview⟩ := mergeUnlocked_removeUnlocked_spec h hspan
      -- the interval is not empty, so the walk has a first part
      have hhead : (parts.head?.map fun part => part.1).isSome = true := by
        have htiles := walk_tiles (candidate_sound h type) hparts
        cases parts with
        | nil =>
          have hle : start + size ≤ start := htiles
          exact absurd hle (by have := pos_of_ne_zero hsize; omega)
        | cons part parts => rfl
      rw [hout]
      exact ⟨hwf, ⟨fun _ => ⟨hsize, hwalk.mp rfl⟩, fun _ => hhead⟩, fun _ => hview,
        fun hf => nomatch (hhead.symm.trans hf)⟩

end

/-- Replacing one range by one at the same place, and merging around it, edits its
addresses and no others. -/
theorem replace_spec (r' : Range) {g : Attr → Attr}
    (h : Wf (before ++ r :: after)) (hstart : r'.start = r.start) (hsize : r'.size = r.size)
    (hattr : ∀ x, r'.attr x = g (r.attr x)) :
    Wf (mergeAroundUnlocked before r' after) ∧
      attrOf (mergeAroundUnlocked before r' after) =
        onSpan r.start r.size (fun _ a => a.map g) (attrOf (before ++ r :: after)) := by
  have hr : r ∈ before ++ r :: after := mem_append_right _ mem_cons_self
  have hlo : lo r' = lo r := hstart
  have hhi : hi r' = hi r := congrArg₂ (· + ·) hstart hsize
  have hfit : r'.Fits := by
    unfold Range.Fits
    rw [hstart, hsize]
    exact h.fits r hr
  have hpos : 0 < r'.size := by
    have hproper : r.start < r.start + r.size := h.proper r hr
    omega
  obtain ⟨-, ho2, ho3⟩ := ordered_append.mp h.ordered
  -- the range is taken out, and the other one put in
  obtain ⟨hwf, hnone⟩ := erase_spec h
  obtain ⟨hwf', hview⟩ := insert_spec before after r' hwf hfit hpos
    (fun b hb => hlo ▸ ho3 b hb r mem_cons_self) (fun b hb => hhi ▸ (ordered_cons.mp ho2).1 b hb)
  refine ⟨hwf', ?_⟩
  rw [hview, hnone, hstart, hsize]
  funext x
  unfold onSpan
  split_ifs with hx
  · have hold : attrOf (before ++ r :: after) x = some (r.attr x) := h.apart.view_of_mem hr hx
    show some (r'.attr x) = (attrOf (before ++ r :: after) x).map g
    rw [hold, hattr]
    rfl
  · rfl

/-- **`Rename`** names the mapped addresses of the interval, whichever of its two
paths it takes. -/
theorem rename_spec (h : Wf m) (name : Option CString) (hspan : start + size ≤ UINT64_MAX) :
    Wf (rename m start size name) ∧
      attrOf (rename m start size name) = onSpan start size
        (fun _ a => a.map fun a => { a with name := copyVirtualRangeName name })
        (attrOf m) := by
  have hslow := editUnlocked_spec h hspan
    (fun r => { r with name := copyVirtualRangeName name })
    (g := fun a => { a with name := copyVirtualRangeName name })
    (fun _ => ⟨rfl, rfl⟩) (fun _ _ => rfl)
  have hm := lowerBound_append m start
  unfold rename
  generalize lowerBound m start = bound at hm ⊢
  obtain ⟨before, position⟩ := bound
  cases position with
  | nil => exact hslow
  | cons r after =>
    by_cases hexact : r.start = start ∧ r.size = size
    · simp only [if_pos hexact]
      have hwfm : Wf (before ++ r :: after) := hm.symm ▸ h
      obtain ⟨hwf, hview⟩ := replace_spec { r with name := copyVirtualRangeName name }
        (g := fun a => { a with name := copyVirtualRangeName name }) hwfm rfl rfl
        (fun _ => rfl)
      obtain ⟨rfl, rfl⟩ := hexact
      rw [show before ++ r :: after = m from hm] at hview
      exact ⟨hwf, hview⟩
    · simp only [if_neg hexact]
      exact hslow

/-- **`Protect`** sets the protection of the mapped addresses of the interval. -/
theorem protect_spec (h : Wf m) (protection : Flags) (hspan : start + size ≤ UINT64_MAX) :
    Wf (protect m start size protection) ∧
      attrOf (protect m start size protection) =
        onSpan start size (fun _ a => a.map fun a => { a with protection }) (attrOf m) :=
  editUnlocked_spec h hspan _ (fun _ => ⟨rfl, rfl⟩) (fun _ _ => rfl)

/-- **`SetMemoryType`** sets the memory type of the mapped addresses of the interval. -/
theorem setMemoryType_spec (h : Wf m) (memory_type : ℤ) (hspan : start + size ≤ UINT64_MAX) :
    Wf (setMemoryType m start size memory_type) ∧
      attrOf (setMemoryType m start size memory_type) =
        onSpan start size (fun _ a => a.map fun a => { a with memory_type }) (attrOf m) :=
  editUnlocked_spec h hspan _ (fun _ => ⟨rfl, rfl⟩) (fun _ _ => rfl)

end VirtualRanges

end MagnusPS5.Kernel
