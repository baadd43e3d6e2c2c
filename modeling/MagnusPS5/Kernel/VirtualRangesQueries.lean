/-
The queries of the table of virtual ranges, answered by the partial function the
table stands for: `Query`, `HasOverlap`, `QuerySpan` and `ClampRangeSize`.

The two loops are proved by induction on the ranges that are still to come, with
the invariant `Wf` of the rest of the table: past the end of a range only later
ranges have something to say of an address.
-/
import MagnusPS5.Kernel.VirtualRangesSpec

namespace MagnusPS5.Kernel.VirtualRanges

open Lib
open Spanned (lo hi)
open Option List

/-! ## One range -/

theorem upperBound_eq_lowerBound (m : VirtualRanges) (value : ℕ) :
    upperBound m value = lowerBound m (value + 1) := by
  simp only [upperBound, lowerBound, Nat.lt_succ_iff]

variable {m : VirtualRanges}

/-- The range at or before an address, if it reaches the address, is the one that
covers it. -/
theorem upperBound_filter (h : Wf m) (addr : ℕ) :
    ((upperBound m addr).1.getLast?.filter fun current => addr < rangeEnd current) =
      at? m addr := by
  rw [h.ordered.at?_eq_getLast h.proper addr, upperBound_eq_lowerBound]
  cases hr : (lowerBound m (addr + 1)).1.getLast? with
  | none =>
    have hr' : (m.takeWhile fun c => decide (lo c < addr + 1)).getLast? = none := hr
    rw [hr', filter_none, filter_none]
  | some r =>
    have hr' : (m.takeWhile fun c => decide (lo c < addr + 1)).getLast? = some r := hr
    have hmem : r ∈ m :=
      lowerBound_append m (addr + 1) ▸ mem_append_left _ (mem_of_getLast? hr)
    rw [hr', filter_some, filter_some, rangeEnd_of_fits (h.fits r hmem)]
    rfl

/-- **`Query`** answers with the range that covers the address; with flag 1, when no
range does, with the first one above it. -/
theorem query_spec (h : Wf m) (addr : ℕ) (flags : ℤ) (r : Range) : query m addr flags = some r ↔
      (r ∈ m ∧ Covers r addr) ∨
      (flags = 1 ∧ attrOf m addr = none ∧ r ∈ m ∧ addr < lo r ∧
        ∀ c ∈ m, addr < lo c → lo r ≤ lo c) := by
  have hquery : query m addr flags =
      (at? m addr).or (if flags ≠ 1 then none else (upperBound m addr).2.head?) := by
    rw [← upperBound_filter h addr]
    cases hlast : (upperBound m addr).1.getLast?.filter fun current => addr < rangeEnd current with
    | none => simp only [query, hlast, none_or]
    | some current => simp only [query, hlast, some_or]
  rw [hquery]
  cases hat : at? m addr with
  | some current =>
    rw [some_or]
    obtain ⟨hcur, hcov⟩ := h.apart.at?_eq_some_iff.mp hat
    constructor
    · intro heq
      obtain rfl : current = r := by simpa using heq
      exact .inl ⟨hcur, hcov⟩
    · rintro (⟨hr, hrcov⟩ | ⟨-, hnone, -⟩)
      · rw [h.apart.eq_of_covers hcur hr hcov hrcov]
      · rw [view_eq_none_iff] at hnone
        exact absurd ⟨current, hcur, hcov⟩ hnone
  | none =>
    rw [none_or]
    have hfree : ¬ Occupied m addr := at?_eq_none_iff.mp hat
    have hm := lowerBound_append m (addr + 1)
    rw [upperBound_eq_lowerBound]
    obtain ⟨-, ho2, -⟩ := ordered_append.mp (hm.symm ▸ h.ordered)
    obtain ⟨-, hp2⟩ := proper_append.mp (hm.symm ▸ h.proper)
    have habove : ∀ c ∈ m, addr < lo c → c ∈ (lowerBound m (addr + 1)).2 := by
      intro c hc hlt
      rw [← hm] at hc
      rcases mem_append.mp hc with hc | hc
      · have h1 : lo c < addr + 1 := lo_lt_of_mem_takeWhile hc
        omega
      · exact hc
    by_cases hflags : flags = 1
    · simp only [if_neg (not_not.mpr hflags)]
      constructor
      · intro hhead
        have hmem := mem_of_mem_head? hhead
        have h1 : addr + 1 ≤ lo r := h.ordered.le_lo_of_mem_dropWhile h.proper hmem
        refine .inr ⟨hflags, view_eq_none_iff.mpr hfree, hm ▸ mem_append_right _ hmem, h1, ?_⟩
        intro c hc hlt
        exact ho2.head_lo_le hp2 hhead (habove c hc hlt)
      · rintro (⟨hr, hrcov⟩ | ⟨-, -, hr, hlt, hleast⟩)
        · exact absurd ⟨r, hr, hrcov⟩ hfree
        · have hr' := habove r hr hlt
          obtain ⟨a, ha⟩ := ne_none_iff_exists'.mp (mt head?_eq_none_iff.mp (ne_nil_of_mem hr'))
          have ha' := mem_of_mem_head? ha
          have ham : a ∈ m := hm ▸ mem_append_right _ ha'
          have h1 : addr + 1 ≤ lo a := h.ordered.le_lo_of_mem_dropWhile h.proper ha'
          -- both start at the least start above the address, and neither is empty
          have h2 := ho2.head_lo_le hp2 ha hr'
          have h3 := hleast a ham h1
          have h4 := h.proper a ham
          have h5 := h.proper r hr
          rw [ha, h.apart.eq_of_covers ham hr (x := lo a) ⟨le_refl _, h4⟩ ⟨h3, by omega⟩]
    · simp only [if_pos hflags]
      constructor
      · intro hf
        nomatch hf
      · rintro (⟨hr, hrcov⟩ | ⟨hf, -⟩)
        · exact absurd ⟨r, hr, hrcov⟩ hfree
        · exact absurd hf hflags

variable {start size end_ current x : ℕ}

/-- **`HasOverlap`** asks whether an address of the interval is mapped. -/
theorem hasOverlap_spec (h : Wf m) (hspan : start + size ≤ UINT64_MAX) :
    hasOverlap m start size = true ↔
      ∃ x, start ≤ x ∧ x < start + size ∧ attrOf m x ≠ none :=
  findOverlap_isSome_iff h hspan

/-! ## Spans -/

/-- Parts that lie end to end from `s` to `e`, none of them empty. -/
def TilesSpan : ℕ → ℕ → List Range → Prop
  | s, e, [] => s = e
  | s, e, part :: parts => part.start = s ∧ 0 < part.size ∧ TilesSpan (s + part.size) e parts

/-- The loop of `QuerySpan`, started at an address below which nothing of the list
is left to see: it succeeds exactly when all addresses up to the end are mapped. -/
theorem querySpanLoop_isSome_iff (h : Wf m) (hlt : current < end_) :
    (querySpanLoop end_ current m).isSome ↔
      ∀ x, current ≤ x → x < end_ → attrOf m x ≠ none := by
  induction m generalizing current with
  | nil =>
    constructor
    · intro hf
      exact absurd hf (by simp [querySpanLoop])
    · intro hall
      exact absurd rfl (hall current le_rfl hlt)
  | cons r m ih =>
    obtain ⟨hr, ho⟩ := ordered_cons.mp h.ordered
    obtain ⟨hpos, hp⟩ := proper_cons.mp h.proper
    have hwf : Wf m :=
      ⟨fun c hc => h.fits c (.tail _ hc), ho, hp, h.merged.tail⟩
    -- past the end of `r` only the rest of the list has something to say
    have hrest : ∀ x, r.start + r.size ≤ x → attrOf (r :: m) x = attrOf m x := by
      intro x hx
      rw [attrOf, view_cons]
      exact if_neg fun hcov : r.start ≤ x ∧ x < r.start + r.size => by omega
    have hin : ∀ x, r.start ≤ x → x < r.start + r.size → attrOf (r :: m) x ≠ none := by
      intro x h1 h2
      exact view_ne_none_iff.mpr ⟨r, .head _, h1, h2⟩
    unfold querySpanLoop
    rw [rangeEnd_of_fits (h.fits r mem_cons_self)]
    by_cases hpassed : r.start + r.size ≤ current
    · simp only [if_pos hpassed]
      rw [ih hwf hlt]
      refine forall_congr' fun x => forall_congr' fun hx => ?_
      rw [hrest x (by omega)]
    · simp only [if_neg hpassed]
      by_cases hgap : current < r.start
      · simp only [if_pos hgap]
        constructor
        · intro hf
          nomatch hf
        · intro hall
          -- `current` lies below every range of the list
          refine absurd ?_ (hall current le_rfl hlt)
          rw [view_eq_none_iff]
          rintro ⟨c, hc, hc1, -⟩
          rcases mem_cons.mp hc with rfl | hc
          · have h1 : c.start ≤ current := hc1
            omega
          · have h1 : r.start + r.size ≤ lo c := hr c hc
            omega
      · simp only [if_neg hgap]
        by_cases hend : min end_ (r.start + r.size) = end_
        · simp only [if_pos hend]
          constructor
          · intro _ x h1 h2
            exact hin x (by omega) (by omega)
          · intro _
            rfl
        · simp only [if_neg hend, isSome_map]
          rw [ih hwf (by omega)]
          constructor
          · intro hall x h1 h2
            by_cases hx : x < r.start + r.size
            · exact hin x (by omega) hx
            · rw [hrest x (by omega)]
              exact hall x (by omega) h2
          · intro hall x h1 h2
            rw [← hrest x (by omega)]
            exact hall x (by omega) h2

/-- The parts it returns lie end to end, and each says of its addresses what the
table says. -/
theorem querySpanLoop_parts (h : Wf m) (hlt : current < end_) {parts : List Range}
    (hparts : querySpanLoop end_ current m = some parts) :
    TilesSpan current end_ parts ∧
      ∀ part ∈ parts, ∀ x, Covers part x → attrOf m x = some (part.attr x) := by
  induction m generalizing current parts with
  | nil => exact absurd hparts (by simp [querySpanLoop])
  | cons r m ih =>
    obtain ⟨hr, ho⟩ := ordered_cons.mp h.ordered
    obtain ⟨hpos, hp⟩ := proper_cons.mp h.proper
    have hwf : Wf m :=
      ⟨fun c hc => h.fits c (.tail _ hc), ho, hp, h.merged.tail⟩
    -- what a later range says of an address, the whole table says
    have hlater : ∀ x a, attrOf m x = some a → attrOf (r :: m) x = some a := by
      intro x a hx
      obtain ⟨c, hc, hcov, rfl⟩ := hwf.apart.view_eq_some_iff.mp hx
      exact h.apart.view_of_mem (.tail _ hc) hcov
    unfold querySpanLoop at hparts
    rw [rangeEnd_of_fits (h.fits r mem_cons_self)] at hparts
    by_cases hpassed : r.start + r.size ≤ current
    · simp only [if_pos hpassed] at hparts
      obtain ⟨h1, h2⟩ := ih hwf hlt hparts
      exact ⟨h1, fun part hpart x hx => hlater x _ (h2 part hpart x hx)⟩
    · simp only [if_neg hpassed] at hparts
      by_cases hgap : current < r.start
      · simp only [if_pos hgap] at hparts
        exact absurd hparts (by simp)
      · simp only [if_neg hgap] at hparts
        have hfirst : ∀ x, Covers (subRange r current (min end_ (r.start + r.size))) x →
            attrOf (r :: m) x =
              some ((subRange r current (min end_ (r.start + r.size))).attr x) := by
          intro x hx
          obtain ⟨hx1, hx2⟩ := (covers_slice r (by omega) x).mp hx
          have hcov : Covers r x := ⟨by show r.start ≤ x; omega, by
            show x < r.start + r.size; omega⟩
          refine (h.apart.view_of_mem mem_cons_self hcov).trans ?_
          exact congrArg some
            (Sliced.attr_slice r current _ x (by show r.start ≤ current; omega) hx1).symm
        by_cases hend : min end_ (r.start + r.size) = end_
        · simp only [if_pos hend] at hparts
          cases hparts
          refine ⟨⟨rfl, ?_, ?_⟩, ?_⟩
          · show 0 < min end_ (r.start + r.size) - current
            omega
          · show current + (min end_ (r.start + r.size) - current) = end_
            omega
          · intro part hpart
            rw [mem_singleton.mp hpart]
            exact hfirst
        · simp only [if_neg hend] at hparts
          obtain ⟨rest, hrest, rfl⟩ := map_eq_some_iff.mp hparts
          obtain ⟨h1, h2⟩ := ih hwf (by omega) hrest
          refine ⟨⟨rfl, ?_, ?_⟩, ?_⟩
          · show 0 < min end_ (r.start + r.size) - current
            omega
          · have hsum : current + (min end_ (r.start + r.size) - current) =
                min end_ (r.start + r.size) := by omega
            show TilesSpan (current + (min end_ (r.start + r.size) - current)) end_ rest
            rw [hsum]
            exact h1
          · intro part hpart
            rcases mem_cons.mp hpart with rfl | hpart
            · exact hfirst
            · exact fun x hx => hlater x _ (h2 part hpart x hx)

/-- **`QuerySpan`** succeeds exactly on a non-empty span that is mapped throughout,
and its parts tile the span in order. -/
theorem querySpan_spec (h : Wf m) (hspan : start + size ≤ UINT64_MAX) :
    ((querySpan m start size).isSome ↔
      size ≠ 0 ∧ ∀ x, start ≤ x → x < start + size → attrOf m x ≠ none) ∧
    ∀ parts, querySpan m start size = some parts → TilesSpan start (start + size) parts ∧
      ∀ part ∈ parts, ∀ x, Covers part x → attrOf m x = some (part.attr x) := by
  unfold querySpan
  by_cases hbad : start = 0 ∨ size = 0 ∨ UINT64_MAX - start < size
  · rw [if_pos hbad]
    refine ⟨⟨fun hf => absurd hf (by simp), ?_⟩, fun _ hf => absurd hf (by simp)⟩
    rintro ⟨hsize, hall⟩
    -- the address zero is never mapped
    obtain ⟨r, hr, hr1, -⟩ := view_ne_none_iff.mp (hall start le_rfl (by omega))
    have h1 := (h.fits r hr).1
    have h2 : r.start ≤ start := hr1
    omega
  · rw [if_neg hbad]
    have hlt : start < start + size := by omega
    refine ⟨?_, fun parts hparts => querySpanLoop_parts h hlt hparts⟩
    rw [querySpanLoop_isSome_iff h hlt]
    exact ⟨fun hall => ⟨by omega, hall⟩, fun hall => hall.2⟩

/-! ## Committed prefixes -/

/-- The address is mapped with a committed type. -/
def Committed (f : ℕ → Option Attr) (x : ℕ) : Prop :=
  ∃ a, f x = some a ∧ isCommittedRangeType a.type = true

theorem committed_of_mem (h : Wf m) {r : Range} (hr : r ∈ m)
    (hx : Covers r x) : Committed (attrOf m) x ↔ isCommittedRangeType r.type = true := by
  have hview : attrOf m x = some (r.attr x) := h.apart.view_of_mem hr hx
  unfold Committed
  rw [hview]
  constructor
  · rintro ⟨a, ha, hc⟩
    cases ha
    exact hc
  · intro hc
    exact ⟨_, rfl, hc⟩

theorem not_committed_of_none {f : ℕ → Option Attr} (h : f x = none) : ¬ Committed f x := by
  rintro ⟨a, ha, -⟩
  rw [h] at ha
  nomatch ha

theorem clampLoop_full (size expected : ℕ) (m : VirtualRanges) :
    clampLoop size size expected m = size := by
  cases m with
  | nil => rfl
  | cons c m =>
    unfold clampLoop
    rw [if_neg fun hf => absurd hf.2.2 (lt_irrefl size)]

/-- The loop of `ClampRangeSize` goes on for exactly as long as the following
addresses are committed and the size is not reached. -/
theorem clampLoop_spec (h : Wf m) (size clamped_size expected : ℕ)
    (hle : clamped_size ≤ size) (hfrom : ∀ r ∈ m, expected ≤ lo r) :
    ∃ k, clampLoop size clamped_size expected m = clamped_size + k ∧ clamped_size + k ≤ size ∧
      (∀ x, expected ≤ x → x < expected + k → Committed (attrOf m) x) ∧
      (clamped_size + k < size → ¬ Committed (attrOf m) (expected + k)) := by
  induction m generalizing clamped_size expected with
  | nil => exact ⟨0, rfl, hle, fun x _ _ => by omega, fun _ => not_committed_of_none rfl⟩
  | cons vma m ih =>
    obtain ⟨hnext, ho⟩ := ordered_cons.mp h.ordered
    obtain ⟨hpos, hp⟩ := proper_cons.mp h.proper
    have hpos' : vma.start < vma.start + vma.size := hpos
    have hwf : Wf m :=
      ⟨fun c hc => h.fits c (.tail _ hc), ho, hp, h.merged.tail⟩
    have hfirst : expected ≤ vma.start := hfrom vma mem_cons_self
    have hin : ∀ x, vma.start ≤ x → x < vma.start + vma.size →
        (Committed (attrOf (vma :: m)) x ↔ isCommittedRangeType vma.type = true) :=
      fun x h1 h2 => committed_of_mem h mem_cons_self ⟨h1, h2⟩
    unfold clampLoop
    by_cases hgo : vma.start = expected ∧ isCommittedRangeType vma.type ∧ clamped_size < size
    · rw [if_pos hgo]
      obtain ⟨rfl, hcommitted, hlt⟩ := hgo
      by_cases hwhole : vma.size ≤ size - clamped_size
      · -- the whole range is taken and the loop goes on behind it
        have hchunk : min (size - clamped_size) vma.size = vma.size := by omega
        simp only [hchunk]
        obtain ⟨k, h1, h2, h3, h4⟩ := ih hwf (clamped_size + vma.size)
          (vma.start + vma.size) (by omega) hnext
        have hrest : ∀ x, vma.start + vma.size ≤ x → attrOf (vma :: m) x = attrOf m x := by
          intro x hx
          rw [attrOf, view_cons]
          exact if_neg fun hcov : vma.start ≤ x ∧ x < vma.start + vma.size => by omega
        refine ⟨vma.size + k, by omega, by omega, ?_, ?_⟩
        · intro x hx1 hx2
          by_cases hx : x < vma.start + vma.size
          · exact (hin x hx1 hx).mpr hcommitted
          · unfold Committed
            rw [hrest x (by omega)]
            exact h3 x (by omega) (by omega)
        · intro hshort
          have hstop := h4 (by omega)
          unfold Committed at hstop ⊢
          rw [hrest _ (by omega), ← Nat.add_assoc]
          exact hstop
      · -- the size is reached inside this range
        have hchunk : min (size - clamped_size) vma.size = size - clamped_size := by omega
        simp only [hchunk]
        have hfull : clamped_size + (size - clamped_size) = size := by omega
        rw [hfull, clampLoop_full]
        refine ⟨size - clamped_size, hfull.symm, hfull.le, ?_, fun hf => by omega⟩
        intro x hx1 hx2
        exact (hin x hx1 (by omega)).mpr hcommitted
    · rw [if_neg hgo]
      refine ⟨0, rfl, hle, fun x _ _ => by omega, fun hlt => ?_⟩
      rw [Nat.add_zero] at hlt ⊢
      by_cases hstart : vma.start = expected
      · have hnot : ¬ isCommittedRangeType vma.type = true :=
          fun hc => hgo ⟨hstart, hc, hlt⟩
        exact mt (hin expected hstart.le (by omega)).mp hnot
      · -- a gap: the next range starts further up
        refine not_committed_of_none (view_eq_none_iff.mpr ?_)
        rintro ⟨c, hc, hc1, -⟩
        rcases mem_cons.mp hc with rfl | hc
        · have h1 : c.start ≤ expected := hc1
          omega
        · have h1 : vma.start + vma.size ≤ lo c := hnext c hc
          omega

/-- **`ClampRangeSize`** is the length of the longest prefix of the span whose
addresses are all committed. -/
theorem clampRangeSize_spec (h : Wf m) {virtual_addr : ℕ}
    (hspan : virtual_addr + size ≤ UINT64_MAX) :
    clampRangeSize m virtual_addr size ≤ size ∧
    (∀ x, virtual_addr ≤ x → x < virtual_addr + clampRangeSize m virtual_addr size →
      Committed (attrOf m) x) ∧
    (clampRangeSize m virtual_addr size < size →
      ¬ Committed (attrOf m) (virtual_addr + clampRangeSize m virtual_addr size)) := by
  -- a result of zero is right as soon as the first address is not committed
  have hzero : (0 < size → ¬ Committed (attrOf m) virtual_addr) →
      0 ≤ size ∧ (∀ x, virtual_addr ≤ x → x < virtual_addr + 0 → Committed (attrOf m) x) ∧
        (0 < size → ¬ Committed (attrOf m) (virtual_addr + 0)) :=
    fun hnot => ⟨Nat.zero_le _, fun x _ _ => by omega, hnot⟩
  unfold clampRangeSize
  by_cases hbad : virtual_addr = 0 ∨ size = 0 ∨ UINT64_MAX - virtual_addr < size
  · simp only [if_pos hbad]
    refine hzero fun hsize => not_committed_of_none (view_eq_none_iff.mpr ?_)
    rintro ⟨r, hr, hr1, -⟩
    have h1 := (h.fits r hr).1
    have h2 : r.start ≤ virtual_addr := hr1
    omega
  · simp only [if_neg hbad]
    have hm := lowerBound_append m (virtual_addr + 1)
    have hat := upperBound_filter h virtual_addr
    rw [upperBound_eq_lowerBound] at hat ⊢
    cases hlast : (lowerBound m (virtual_addr + 1)).1.getLast? with
    | none =>
      rw [hlast, filter_none] at hat
      exact hzero fun _ => not_committed_of_none
        (view_eq_none_iff.mpr (at?_eq_none_iff.mp hat.symm))
    | some vma =>
      have hmem1 := mem_of_getLast? hlast
      have hmem : vma ∈ m := hm ▸ mem_append_left _ hmem1
      have hstart : vma.start < virtual_addr + 1 := lo_lt_of_mem_takeWhile hmem1
      rw [hlast, filter_some, rangeEnd_of_fits (h.fits vma hmem)] at hat
      simp only [rangeEnd_of_fits (h.fits vma hmem)]
      by_cases hend : virtual_addr < vma.start + vma.size
      · have hcov : Covers vma virtual_addr := ⟨by show vma.start ≤ virtual_addr; omega, hend⟩
        by_cases htype : isCommittedRangeType vma.type = true
        · rw [if_neg (by rw [htype]; simp; omega)]
          -- what follows the range in the table lies behind it
          obtain ⟨ho1, ho2, ho3⟩ := ordered_append.mp (hm.symm ▸ h.ordered)
          obtain ⟨-, hp2⟩ := proper_append.mp (hm.symm ▸ h.proper)
          have hwf : Wf (lowerBound m (virtual_addr + 1)).2 :=
            ⟨fun c hc => h.fits c (hm ▸ mem_append_right _ hc), ho2, hp2,
              .right_of_append (hm.symm ▸ h.merged)⟩
          have hafter : ∀ c ∈ (lowerBound m (virtual_addr + 1)).2,
              vma.start + vma.size ≤ lo c := fun c hc => ho3 vma hmem1 c hc
          have hrest : ∀ x, vma.start + vma.size ≤ x →
              attrOf m x = attrOf (lowerBound m (virtual_addr + 1)).2 x := by
            intro x hx
            have hnone : attrOf (lowerBound m (virtual_addr + 1)).1 x = none := by
              rw [view_eq_none_iff]
              rintro ⟨c, hc, -, hc2⟩
              have hp1 := (proper_append.mp (hm.symm ▸ h.proper)).1
              have h1 : hi c ≤ vma.start + vma.size := (ho1.hi_le_getLast hp1 hlast hc).2
              omega
            calc attrOf m x
                = attrOf ((lowerBound m (virtual_addr + 1)).1 ++
                    (lowerBound m (virtual_addr + 1)).2) x := by rw [hm]
              _ = (attrOf (lowerBound m (virtual_addr + 1)).1 x).or
                    (attrOf (lowerBound m (virtual_addr + 1)).2 x) := view_append _ _ _
              _ = attrOf (lowerBound m (virtual_addr + 1)).2 x := by
                    rw [hnone, none_or]
          have hfirst : ∀ x, virtual_addr ≤ x → x < vma.start + vma.size →
              Committed (attrOf m) x := by
            intro x h1 h2
            exact (committed_of_mem h hmem ⟨by show vma.start ≤ x; omega, h2⟩).mpr htype
          by_cases hinside : size ≤ vma.start + vma.size - virtual_addr
          · have hmin : min size (vma.start + vma.size - virtual_addr) = size := by omega
            rw [hmin, clampLoop_full]
            exact ⟨le_refl _, fun x h1 h2 => hfirst x h1 (by omega), fun hf => by omega⟩
          · have hmin : min size (vma.start + vma.size - virtual_addr) =
                vma.start + vma.size - virtual_addr := by omega
            have hexp : virtual_addr + (vma.start + vma.size - virtual_addr) =
                vma.start + vma.size := by omega
            rw [hmin, hexp]
            obtain ⟨k, h1, h2, h3, h4⟩ := clampLoop_spec hwf size
              (vma.start + vma.size - virtual_addr) (vma.start + vma.size) (by omega) hafter
            rw [h1]
            refine ⟨h2, ?_, ?_⟩
            · intro x hx1 hx2
              by_cases hx : x < vma.start + vma.size
              · exact hfirst x hx1 hx
              · unfold Committed
                rw [hrest x (by omega)]
                exact h3 x (by omega) (by omega)
            · intro hshort
              have hstop := h4 hshort
              unfold Committed at hstop ⊢
              rw [hrest _ (by omega)]
              have hsum : virtual_addr + (vma.start + vma.size - virtual_addr + k) =
                  vma.start + vma.size + k := by omega
              rw [hsum]
              exact hstop
        · rw [if_pos (by simp [htype])]
          exact hzero fun _ => mt (committed_of_mem h hmem hcov).mp htype
      · rw [if_pos (by omega)]
        rw [decide_eq_false hend] at hat
        exact hzero fun _ => not_committed_of_none
          (view_eq_none_iff.mpr (at?_eq_none_iff.mp hat.symm))

end MagnusPS5.Kernel.VirtualRanges
