/-
The direct-memory allocator keeps its books: free and allocated blocks partition
the physical memory, in every state it can reach.

`Inv` is that invariant. `Fits` says, without reference to any search, when an
address can be allocated; `Alloc` finds the least such address and `Available` the
largest size for which there is one, although the two compute the part of a block
inside the window separately.
-/
import MagnusPS5.Kernel.PhysicalMemory

namespace MagnusPS5.Kernel

open Lib
open Spanned (lo hi)

namespace PhysicalMemory

open List hiding after
open Nat

/-- The invariant: the free list is canonical, the allocated blocks are in order,
and every address below the size is in exactly one of them. -/
structure Inv (flexible_memory_size : ℕ) (m : PhysicalMemory) : Prop where
  canonical : Canonical m.m_free
  ordered : Ordered m.m_physical
  proper : Proper m.m_physical
  cover : ∀ x, x < Size flexible_memory_size ↔
    Occupied m.m_free x ∨ Occupied m.m_physical x
  disjoint : ∀ x, Occupied m.m_free x → ¬ Occupied m.m_physical x

variable {flexible_memory_size len search_start alignment a start : ℕ} {b : Run}
  {left : List AllocatedBlock}

theorem size_pos (h : flexible_memory_size < TotalSize) : 0 < Size flexible_memory_size := by
  unfold Size
  omega

theorem size_le (flexible_memory_size : ℕ) : Size flexible_memory_size ≤ UINT64_MAX := by
  unfold Size TotalSize UINT64_MAX
  omega

theorem inv_init (h : flexible_memory_size < TotalSize) :
    Inv flexible_memory_size (init flexible_memory_size) where
  canonical := canonical_singleton (size_pos h)
  ordered := .nil
  proper := nofun
  cover := by
    intro x
    show _ ↔ Occupied [(⟨0, Size flexible_memory_size⟩ : Run)] x ∨ Occupied [] x
    rw [or_iff_left (occupied_nil x), occupied_cons, or_iff_left (occupied_nil x)]
    show _ ↔ 0 ≤ x ∧ x < 0 + Size flexible_memory_size
    omega
  disjoint := fun x _ => occupied_nil x

/-! ## Which addresses can be allocated -/

/-- The address is aligned and `len` bytes from it lie in the block and in the window. -/
def FitsBlock (search_start search_end len alignment : ℕ) (b : Run) (a : ℕ) : Prop :=
  Aligned alignment a ∧ max b.start search_start ≤ a ∧
    a + len ≤ min (b.start + b.size) search_end

/-- The address can be allocated: it fits some free block, the window being cut off
at the end of the physical memory. -/
def Fits (flexible_memory_size : ℕ) (m : PhysicalMemory)
    (search_start search_end len alignment a : ℕ) : Prop :=
  ∃ b ∈ m.m_free,
    FitsBlock search_start (min search_end (Size flexible_memory_size)) len alignment b a

variable {search_end : ℕ} {m : PhysicalMemory}

/-- What the aligned start of the clipped block decides about one block: either
nothing fits it, or the aligned start is the least address that does. -/
theorem block_decided (search_start alignment : ℕ) (b : Run)
    (hend : search_end ≤ UINT64_MAX) (hlen : 0 < len) :
    match getAlignedPos (max b.start search_start) alignment with
    | none => ∀ a, ¬ FitsBlock search_start search_end len alignment b a
    | some pos => max b.start search_start ≤ pos ∧
        (pos + len ≤ min (b.start + b.size) search_end →
          FitsBlock search_start search_end len alignment b pos) ∧
        ∀ a, FitsBlock search_start search_end len alignment b a → pos ≤ a := by
  cases hpos : getAlignedPos (max b.start search_start) alignment with
  | none =>
    rintro a ⟨hal, hfrom, hto⟩
    have := getAlignedPos_none hpos hfrom hal
    omega
  | some pos =>
    obtain ⟨h1, h2, h3⟩ := getAlignedPos_some hpos
    exact ⟨h1, fun hto => ⟨h2, h1, hto⟩, fun a ha => h3 a ha.2.1 ha.1⟩

theorem not_fitsBlock_of_le (hlen : 0 < len) (h : search_end ≤ b.start) :
    ¬ FitsBlock search_start search_end len alignment b a := by
  rintro ⟨-, hfrom, hto⟩
  omega

theorem not_fitsBlock_of_hi_le (hlen : 0 < len) (h : b.start + b.size ≤ search_start) :
    ¬ FitsBlock search_start search_end len alignment b a := by
  rintro ⟨-, hfrom, hto⟩
  omega

/-! ## `Alloc` -/

/-- The loop of `Alloc` stops at the first block that holds the length, and returns
the least address that fits any block from the iterator on. -/
theorem allocLoop_spec (search_start alignment : ℕ) {ahead : List Run}
    (hcanon : Canonical ahead) (hend : search_end ≤ UINT64_MAX) (hlen : 0 < len)
    (before : List Run) :
    match allocLoop search_start search_end len alignment before ahead with
    | none => ∀ b ∈ ahead, ∀ a, ¬ FitsBlock search_start search_end len alignment b a
    | some (before', range, after, pos) =>
      before' ++ range :: after = before ++ ahead ∧
      FitsBlock search_start search_end len alignment range pos ∧
      ∀ b ∈ ahead, ∀ a, FitsBlock search_start search_end len alignment b a → pos ≤ a := by
  induction ahead generalizing before with
  | nil => exact fun b hb => nomatch hb
  | cons range after ih =>
    obtain ⟨hgap, -, hafter⟩ := canonical_cons.mp hcanon
    have hskip : (∀ a, ¬ FitsBlock search_start search_end len alignment range a) →
        match allocLoop search_start search_end len alignment (before ++ [range]) after with
        | none => ∀ b ∈ range :: after, ∀ a,
            ¬ FitsBlock search_start search_end len alignment b a
        | some (before', range', after', pos) =>
          before' ++ range' :: after' = before ++ range :: after ∧
          FitsBlock search_start search_end len alignment range' pos ∧
          ∀ b ∈ range :: after, ∀ a,
            FitsBlock search_start search_end len alignment b a → pos ≤ a := by
      intro hno
      have hrest := ih hafter (before ++ [range])
      cases hloop : allocLoop search_start search_end len alignment (before ++ [range]) after with
      | none =>
        rw [hloop] at hrest
        exact forall_mem_cons.mpr ⟨hno, hrest⟩
      | some found =>
        rw [hloop] at hrest
        obtain ⟨h1, h2, h3⟩ := hrest
        refine ⟨by rw [h1, append_assoc, singleton_append], h2,
          forall_mem_cons.mpr ⟨fun a ha => absurd ha (hno a), h3⟩⟩
    have hdec := block_decided search_start alignment range hend hlen
    unfold allocLoop
    by_cases hbreak : search_end ≤ range.start
    · rw [if_pos hbreak]
      -- this block and all behind it start past the window
      refine forall_mem_cons.mpr ⟨fun a => not_fitsBlock_of_le hlen hbreak, ?_⟩
      intro b hb a
      have hb' : range.start + range.size < b.start := hgap b hb
      exact not_fitsBlock_of_le hlen (by omega)
    · rw [if_neg hbreak]
      cases hpos : getAlignedPos (max range.start search_start) alignment with
      | none =>
        rw [hpos] at hdec
        simp only [hpos]
        exact hskip hdec
      | some pos =>
        rw [hpos] at hdec
        obtain ⟨h1, h2, h3⟩ := hdec
        simp only [hpos]
        by_cases hbad : pos < max range.start search_start ∨
            min (range.start + range.size) search_end < pos ∨
            min (range.start + range.size) search_end - pos < len
        · rw [if_pos hbad]
          refine hskip fun a ha => ?_
          have hle := h3 a ha
          obtain ⟨-, -, hto⟩ := ha
          omega
        · rw [if_neg hbad]
          refine ⟨rfl, h2 (by omega), forall_mem_cons.mpr ⟨h3, ?_⟩⟩
          intro b hb a ha
          have hb' : range.start + range.size < b.start := hgap b hb
          have hfrom := ha.2.1
          omega

/-- The block `Alloc` enters into the books. -/
def allocatedBlock (start_addr size : ℕ) (memory_type : ℤ) (pool_expansion : Bool) :
    AllocatedBlock :=
  { start_addr, size, map_vaddr := 0, map_size := 0, host_vaddr := 0, host_size := 0, prot := 0,
    mode := .noAccess, gpu_mode := .noAccess, memory_type, pool_expansion, name := [] }

/-- The search of `Alloc` over the whole free list: blocks before the iterator end
before the window, so leaving them out loses nothing. -/
theorem allocSearch_spec {m_free : List Run} (hcanon : Canonical m_free)
    (search_start alignment : ℕ) (hend : search_end ≤ UINT64_MAX) (hlen : 0 < len) :
    match allocSearch m_free search_start search_end len alignment with
    | none => ∀ b ∈ m_free, ∀ a, ¬ FitsBlock search_start search_end len alignment b a
    | some (before, range, after, pos) =>
      before ++ range :: after = m_free ∧
      FitsBlock search_start search_end len alignment range pos ∧
      ∀ b ∈ m_free, ∀ a, FitsBlock search_start search_end len alignment b a → pos ≤ a := by
  have hsplit : (m_free.takeWhile fun r => decide (r.start ≤ search_start)) ++
      (m_free.dropWhile fun r => decide (r.start ≤ search_start)) = m_free :=
    takeWhile_append_dropWhile
  have hstarts : ∀ b ∈ m_free.takeWhile fun r => decide (r.start ≤ search_start),
      b.start ≤ search_start := fun b hb => by simpa using mem_takeWhile_imp hb
  unfold allocSearch
  generalize (m_free.takeWhile fun r => decide (r.start ≤ search_start)) = passed at *
  generalize (m_free.dropWhile fun r => decide (r.start ≤ search_start)) = ahead at *
  subst hsplit
  cases hlast : passed.getLast? with
  | none =>
    obtain rfl := getLast?_eq_none_iff.mp hlast
    exact allocLoop_spec search_start alignment hcanon hend hlen []
  | some range =>
    obtain ⟨front, rfl⟩ := getLast?_eq_some_iff.mp hlast
    have hlist : front ++ [range] ++ ahead = front ++ range :: ahead := by
      rw [append_assoc, singleton_append]
    rw [hlist] at hcanon ⊢
    obtain ⟨-, hcanon', hcross⟩ := canonical_append.mp hcanon
    have hfront : ∀ b ∈ front, ∀ a, ¬ FitsBlock search_start search_end len alignment b a := by
      intro b hb a
      have hgap : b.start + b.size < range.start := hcross b hb range mem_cons_self
      have hrange := hstarts range (mem_append_right _ (mem_singleton_self _))
      exact not_fitsBlock_of_hi_le hlen (by omega)
    have hloop := allocLoop_spec search_start alignment hcanon' hend hlen front
    simp only [hlast, dropLast_concat]
    cases hfound : allocLoop search_start search_end len alignment front (range :: ahead) with
    | none =>
      rw [hfound] at hloop
      exact forall_mem_append.mpr ⟨hfront, hloop⟩
    | some found =>
      rw [hfound] at hloop
      exact ⟨hloop.1, hloop.2.1, forall_mem_append.mpr
        ⟨fun b hb a ha => absurd ha (hfront b hb a), hloop.2.2⟩⟩

/-- **`Alloc`** never runs into its abort; it succeeds exactly when an address can be
allocated, with the least such address, and moves the block from the free list to
the allocated ones. -/
theorem alloc_spec (h : Inv flexible_memory_size m)
    (search_start search_end : ℕ) (alignment : ℕ) (memory_type : ℤ)
    (pool_expansion : Bool) (hlen : 0 < len) :
    ∃ r m', alloc flexible_memory_size m search_start search_end len alignment memory_type
        pool_expansion = some (r, m') ∧ Inv flexible_memory_size m' ∧
      (r = none → m' = m ∧
        ∀ a, ¬ Fits flexible_memory_size m search_start search_end len alignment a) ∧
      ∀ a, r = some a →
        (Fits flexible_memory_size m search_start search_end len alignment a ∧
          ∀ a', Fits flexible_memory_size m search_start search_end len alignment a' → a ≤ a') ∧
        (∀ x, Occupied m'.m_free x ↔ Occupied m.m_free x ∧ ¬ (a ≤ x ∧ x < a + len)) ∧
        m'.m_physical = place (allocatedBlock a len memory_type pool_expansion) m.m_physical ∧
        m'.m_mappings = m.m_mappings := by
  unfold alloc
  by_cases hempty : min search_end (Size flexible_memory_size) ≤ search_start
  · refine ⟨none, m, if_pos hempty, h, fun _ => ⟨rfl, ?_⟩, fun a ha => nomatch ha⟩
    rintro a ⟨b, -, -, hfrom, hto⟩
    omega
  · have hend : min search_end (Size flexible_memory_size) ≤ UINT64_MAX :=
      (min_le_right _ _).trans (size_le flexible_memory_size)
    have hsearch := allocSearch_spec h.canonical search_start alignment hend hlen
    simp only [if_neg hempty]
    generalize allocSearch m.m_free search_start (min search_end (Size flexible_memory_size)) len
      alignment = found at hsearch ⊢
    rcases found with _ | ⟨before, range, after, pos⟩
    · refine ⟨none, m, rfl, h, fun _ => ⟨rfl, ?_⟩, fun a ha => nomatch ha⟩
      rintro a ⟨b, hb, hfit⟩
      exact hsearch b hb a hfit
    · obtain ⟨hlist, hfit, hleast⟩ := hsearch
      obtain ⟨hal, hfrom, hto⟩ := hfit
      have hcanon : Canonical (before ++ range :: after) := hlist.symm ▸ h.canonical
      have hrange : range ∈ m.m_free := hlist ▸ mem_append_right _ mem_cons_self
      -- the whole interval is free, so no allocated block meets it
      have hfree : ∀ x, pos ≤ x → x < pos + len → Occupied m.m_free x := fun x h1 h2 =>
        ⟨range, hrange, by show range.start ≤ x; omega, by show x < range.start + range.size; omega⟩
      have hclear : ∀ c ∈ m.m_physical, pos + len ≤ lo c ∨ hi c ≤ pos := by
        intro c hc
        have hp := h.proper c hc
        by_contra hmeet
        exact h.disjoint (max pos (lo c)) (hfree _ (by omega) (by omega))
          ⟨c, hc, by omega, by omega⟩
      have hkey : m.m_physical.any (fun c => decide (c.start_addr = pos)) = false := by
        simp only [any_eq_false, decide_eq_true_eq]
        intro c hc heq
        have hp : c.start_addr < c.start_addr + c.size := h.proper c hc
        have hcl : pos + len ≤ c.start_addr ∨ c.start_addr + c.size ≤ pos := hclear c hc
        omega
      have hocc : ∀ x, Occupied (consumeFreeRange before range after pos len) x ↔
          Occupied m.m_free x ∧ ¬ (pos ≤ x ∧ x < pos + len) := by
        intro x
        rw [← hlist]
        exact occupied_takeRun hcanon (by omega) (by omega) x
      have hphys : ∀ x, Occupied (place (allocatedBlock pos len memory_type pool_expansion)
          m.m_physical) x ↔ (pos ≤ x ∧ x < pos + len) ∨ Occupied m.m_physical x :=
        fun x => occupied_place
      refine ⟨some pos, _, by simp only [hkey]; rfl, ?_, fun hf => absurd hf (by simp), ?_⟩
      · refine ⟨canonical_takeRun hcanon (by omega) (by omega) hlen,
          h.ordered.place h.proper (by show pos < pos + len; omega) hclear,
          proper_place (by show pos < pos + len; omega) h.proper, ?_, ?_⟩
        · intro x
          rw [h.cover x, hocc x]
          refine .trans ?_ (or_congr_right (hphys x).symm)
          tauto
        · intro x hx hx'
          rcases (hphys x).mp hx' with h1 | h1
          · exact ((hocc x).mp hx).2 h1
          · exact h.disjoint x ((hocc x).mp hx).1 h1
      · rintro a ha
        cases ha
        refine ⟨⟨⟨range, hrange, hal, hfrom, hto⟩, ?_⟩, hocc, rfl, rfl⟩
        rintro a' ⟨b, hb, hfit'⟩
        exact hleast b hb a' hfit'

/-! ## `Available` -/

theorem availableLoop_spec (search_start alignment : ℕ) {l : List Run}
    (hcanon : Canonical l) (hend : search_end ≤ UINT64_MAX) (best_addr best_size : ℕ) :
    let best := availableLoop search_start search_end alignment best_addr best_size l
    best_size ≤ best.2 ∧
    (∀ b ∈ l, ∀ len a, 0 < len →
      FitsBlock search_start search_end len alignment b a → len ≤ best.2) ∧
    (best = (best_addr, best_size) ∨
      ∃ b ∈ l, FitsBlock search_start search_end best.2 alignment b best.1) := by
  induction l generalizing best_addr best_size with
  | nil => exact ⟨le_refl _, fun b hb => absurd hb not_mem_nil, .inl rfl⟩
  | cons range l ih =>
    obtain ⟨hgap, -, hl⟩ := canonical_cons.mp hcanon
    -- a block nothing of which counts leaves the best as it was
    have hskip : (∀ len a, 0 < len →
          FitsBlock search_start search_end len alignment range a → len ≤ best_size) →
        let best := availableLoop search_start search_end alignment best_addr best_size l
        best_size ≤ best.2 ∧
        (∀ b ∈ range :: l, ∀ len a, 0 < len →
          FitsBlock search_start search_end len alignment b a → len ≤ best.2) ∧
        (best = (best_addr, best_size) ∨
          ∃ b ∈ range :: l, FitsBlock search_start search_end best.2 alignment b best.1) := by
      intro hno best
      obtain ⟨h1, h2, h3⟩ := ih hl best_addr best_size
      refine ⟨h1, forall_mem_cons.mpr ⟨?_, h2⟩, ?_⟩
      · intro len a hlen ha
        exact (hno len a hlen ha).trans h1
      · rcases h3 with h3 | ⟨b, hb, hfit⟩
        · exact .inl h3
        · exact .inr ⟨b, .tail _ hb, hfit⟩
    unfold availableLoop
    by_cases hbreak : search_end ≤ range.start
    · rw [if_pos hbreak]
      refine ⟨le_refl _, forall_mem_cons.mpr ⟨?_, ?_⟩, .inl rfl⟩
      · intro len a hlen ha
        exact absurd ha (not_fitsBlock_of_le hlen hbreak)
      · intro b hb len a hlen ha
        have hb' : range.start + range.size < b.start := hgap b hb
        exact absurd ha (not_fitsBlock_of_le hlen (by omega))
    · rw [if_neg hbreak]
      cases hpos : getAlignedPos (max range.start search_start) alignment with
      | none =>
        simp only [hpos]
        refine hskip fun len a hlen ha => ?_
        have hover := getAlignedPos_none hpos ha.2.1 ha.1
        have hto := ha.2.2
        omega
      | some pos =>
        obtain ⟨h1, h2, h3⟩ := getAlignedPos_some hpos
        simp only [hpos]
        by_cases hbetter : max range.start search_start ≤ pos ∧
            pos < min (range.start + range.size) search_end ∧
            best_size < min (range.start + range.size) search_end - pos
        · rw [if_pos hbetter]
          obtain ⟨g1, g2, g3⟩ :=
            ih hl pos (min (range.start + range.size) search_end - pos)
          refine ⟨by omega, forall_mem_cons.mpr ⟨?_, g2⟩, .inr ?_⟩
          · intro len a hlen ha
            have hle := h3 a ha.2.1 ha.1
            have hto := ha.2.2
            omega
          · rcases g3 with g3 | ⟨b, hb, hfit⟩
            · rw [g3]
              exact ⟨range, .head _, h2, h1, by omega⟩
            · exact ⟨b, .tail _ hb, hfit⟩
        · rw [if_neg hbetter]
          refine hskip fun len a hlen ha => ?_
          have hle := h3 a ha.2.1 ha.1
          have hto := ha.2.2
          omega

/-- **`Available`** reports the largest length that can be allocated in the window,
with an address for it, and nothing when no length can. -/
theorem available_spec (h : Inv flexible_memory_size m) (search_start search_end alignment : ℕ) :
    match available flexible_memory_size m search_start search_end alignment with
    | none => ∀ len a, 0 < len →
        ¬ Fits flexible_memory_size m search_start search_end len alignment a
    | some (addr, size) => 0 < size ∧
        Fits flexible_memory_size m search_start search_end size alignment addr ∧
        ∀ len a, 0 < len →
          Fits flexible_memory_size m search_start search_end len alignment a → len ≤ size := by
  unfold available
  by_cases hempty : min search_end (Size flexible_memory_size) ≤ search_start
  · simp only [if_pos hempty]
    rintro len a hlen ⟨b, -, -, hfrom, hto⟩
    omega
  · simp only [if_neg hempty]
    obtain ⟨h1, h2, h3⟩ := availableLoop_spec search_start alignment h.canonical
      ((min_le_right search_end _).trans (size_le flexible_memory_size)) 0 0
    generalize availableLoop search_start (min search_end (Size flexible_memory_size)) alignment
      0 0 m.m_free = best at h1 h2 h3 ⊢
    obtain ⟨addr, size⟩ := best
    by_cases hzero : size = 0
    · simp only [if_pos hzero]
      rintro len a hlen ⟨b, hb, hfit⟩
      have hle : len ≤ size := h2 b hb len a hlen hfit
      omega
    · simp only [if_neg hzero]
      refine ⟨pos_of_ne_zero hzero, ?_, ?_⟩
      · rcases h3 with h3 | ⟨b, hb, hfit⟩
        · exact absurd (Prod.mk.inj h3).2 hzero
        · exact ⟨b, hb, hfit⟩
      · rintro len a hlen ⟨b, hb, hfit⟩
        exact h2 b hb len a hlen hfit

/-! ## `Release` and `ReleasePoolExpansion` -/

/-- Whatever the allocated blocks become, if they lose exactly an interval of
allocated addresses and that interval is added to the free list, the books are kept. -/
theorem inv_released (h : Inv flexible_memory_size m)
    (hlen : 0 < len) (hin : ∀ x, start ≤ x → x < start + len → Occupied m.m_physical x)
    {m_physical : List AllocatedBlock} (hord : Ordered m_physical) (hprop : Proper m_physical)
    (hocc : ∀ x, Occupied m_physical x ↔
      Occupied m.m_physical x ∧ ¬ (start ≤ x ∧ x < start + len)) :
    Inv flexible_memory_size
      { m with m_physical, m_free := addFreeRange m.m_free start len } := by
  obtain ⟨hcanon, hfree⟩ := addRun_spec h.canonical start hlen
  refine ⟨hcanon, hord, hprop, ?_, ?_⟩
  · intro x
    show _ ↔ Occupied (addRun m.m_free start len) x ∨ Occupied m_physical x
    rw [hfree x, hocc x, h.cover x]
    tauto
  · intro x hx hx'
    have hphys := (hocc x).mp hx'
    rcases (hfree x).mp hx with h1 | h1
    · exact h.disjoint x h1 hphys.1
    · exact hphys.2 h1

theorem emplacePhysical_of_apart {b : AllocatedBlock} {l : List AllocatedBlock}
    (hp : Proper l) (hb : lo b < hi b) (hapart : ∀ c ∈ l, hi b ≤ lo c ∨ hi c ≤ lo b) :
    emplacePhysical b l = place b l := by
  refine if_neg ?_
  simp only [any_eq_true, decide_eq_true_eq, not_exists, not_and]
  intro c hc heq
  have hpc := hp c hc
  have heq' : lo c = lo b := heq
  rcases hapart c hc with h' | h' <;> omega

theorem leftOf_bounds (b : AllocatedBlock) (start : ℕ) :
    (leftOf b start).start_addr = b.start_addr ∧ (leftOf b start).size = start - b.start_addr := by
  unfold leftOf
  dsimp only
  split <;> exact ⟨rfl, rfl⟩

theorem rightOf_bounds (b : AllocatedBlock) (start len : ℕ) :
    (rightOf b start len).start_addr = start + len ∧
      (rightOf b start len).size = b.start_addr + b.size - (start + len) := by
  unfold rightOf
  dsimp only
  split <;> exact ⟨rfl, rfl⟩

theorem remainingOf_bounds (b : AllocatedBlock) (len : ℕ) :
    (remainingOf b len).start_addr = b.start_addr + len ∧
      (remainingOf b len).size = b.size - len := by
  unfold remainingOf
  dsimp only
  split <;> exact ⟨rfl, rfl⟩

/-- The blocks that are left when `b` is replaced by a piece `left` of it that ends at
`start`, or by nothing, and perhaps a piece `right` of it is entered on its own. -/
structure Leaves (rest : List AllocatedBlock) (b : AllocatedBlock) (after : List AllocatedBlock)
    (start len : ℕ) (l : List AllocatedBlock) : Prop where
  ordered : Ordered l
  proper : Proper l
  occupied : ∀ x, Occupied l x ↔
    Occupied (rest ++ b :: after) x ∧ ¬ (start ≤ x ∧ x < start + len)

section Split

variable {rest after : List AllocatedBlock} {b : AllocatedBlock}

section

variable (ho : Ordered (rest ++ b :: after)) (hp : Proper (rest ++ b :: after))

include ho hp

theorem leaves_left (hone : left.length ≤ 1)
    (hleft : ∀ c ∈ left, lo b ≤ lo c ∧ hi c ≤ hi b ∧ lo c < hi c)
    (hocc : ∀ x, Occupied left x ↔ Covers b x ∧ ¬ (start ≤ x ∧ x < start + len))
    (hin : ∀ x, start ≤ x → x < start + len → Covers b x) :
    Leaves rest b after start len (rest ++ left ++ after) where
  ordered := by
    have hleftord : Ordered left := by
      match left, hone with
      | [], _ => exact .nil
      | [c], _ => exact pairwise_singleton _ _
    exact ho.splice hleftord fun c hc => ⟨(hleft c hc).1, (hleft c hc).2.1⟩
  proper := by
    obtain ⟨hp1, hp2⟩ := proper_append.mp hp
    obtain ⟨-, hp3⟩ := proper_cons.mp hp2
    exact proper_append.mpr ⟨proper_append.mpr ⟨hp1, fun c hc => (hleft c hc).2.2⟩, hp3⟩
  occupied := by
    intro x
    have hmem : Covers b x → Occupied (rest ++ b :: after) x :=
      fun hx => ⟨b, mem_append_right _ mem_cons_self, hx⟩
    rw [ho.apart.occupied_splice left x, hocc x]
    tauto

/-- What stays on the right is entered as a block of its own, behind what stays on
the left. -/
theorem leaves_right {right : AllocatedBlock} (hone : left.length ≤ 1)
    (hleft : ∀ c ∈ left, lo c = lo b ∧ hi c = start ∧ lo c < hi c)
    (hocc : ∀ x, Occupied left x ↔ lo b ≤ x ∧ x < start) (hstart : lo b ≤ start) (hlen : 0 < len)
    (hlo : lo right = start + len) (hhi : hi right = hi b) (hpos : start + len < hi b) :
    Leaves rest b after start len (emplacePhysical right (rest ++ left ++ after)) := by
  obtain ⟨h1, h2, h3⟩ := ordered_append.mp ho
  obtain ⟨h4, h5⟩ := ordered_cons.mp h2
  have hb : ∀ x, Covers b x ↔ lo b ≤ x ∧ x < hi b := fun _ => .rfl
  -- first everything from `start` on is cut off, then the piece on the right comes back
  have hcut : Leaves rest b after start (hi b - start) (rest ++ left ++ after) := by
    refine leaves_left ho hp hone ?_ ?_ ?_
    · intro c hc
      have := hleft c hc
      omega
    · intro x
      rw [hocc x, hb x]
      omega
    · intro x hx1 hx2
      exact (hb x).mpr (by omega)
  have hapart : ∀ c ∈ rest ++ left ++ after, hi right ≤ lo c ∨ hi c ≤ lo right := by
    intro c hc
    rcases mem_append.mp hc with hc | hc
    · right
      rcases mem_append.mp hc with hc | hc
      · have := h3 c hc b mem_cons_self
        omega
      · have := hleft c hc
        omega
    · left
      have := h4 c hc
      omega
  have hposr : lo right < hi right := by omega
  rw [emplacePhysical_of_apart hcut.proper hposr hapart]
  refine ⟨hcut.ordered.place hcut.proper hposr hapart, proper_place hposr hcut.proper, fun x => ?_⟩
  have hmem : Covers b x → Occupied (rest ++ b :: after) x :=
    fun hx => ⟨b, mem_append_right _ mem_cons_self, hx⟩
  have hr : Covers right x ↔ lo right ≤ x ∧ x < hi right := .rfl
  rw [occupied_place, hcut.occupied x, hr, hlo, hhi]
  constructor
  · rintro (hx | ⟨hx, hnot⟩)
    · exact ⟨hmem ((hb x).mpr (by omega)), by omega⟩
    · exact ⟨hx, fun hmid => hnot (by omega)⟩
  · rintro ⟨hx, hnot⟩
    by_cases hright : start + len ≤ x ∧ x < hi b
    · exact .inl hright
    · exact .inr ⟨hx, fun hmid => by omega⟩

/-- **The four branches of `Release`** cover every non-empty part of a block, and
each leaves the blocks without that part. -/
theorem releaseBlock_spec
    (hlen : 0 < len) (hge : b.start_addr ≤ start) (hle : start + len ≤ b.start_addr + b.size) :
    ∃ out l, releaseBlock rest b after start len = some (out, l) ∧
      Leaves rest b after start len l := by
  have hb : ∀ x, Covers b x ↔ b.start_addr ≤ x ∧ x < b.start_addr + b.size := fun _ => .rfl
  have hlob : lo b = b.start_addr := rfl
  have hhib : hi b = b.start_addr + b.size := rfl
  -- the piece that stays on the left when the part does not begin at the start
  obtain ⟨hl1, hl2⟩ := leftOf_bounds b start
  have hleft : b.start_addr < start → ∀ c ∈ [leftOf b start],
      lo c = lo b ∧ hi c = start ∧ lo c < hi c := by
    intro hlt c hc
    rw [mem_singleton.mp hc]
    show (leftOf b start).start_addr = b.start_addr ∧
      (leftOf b start).start_addr + (leftOf b start).size = start ∧
      (leftOf b start).start_addr < (leftOf b start).start_addr + (leftOf b start).size
    omega
  have hleftocc : ∀ x, Occupied [leftOf b start] x ↔ lo b ≤ x ∧ x < start := by
    intro x
    rw [occupied_cons, or_iff_left (occupied_nil x)]
    show (leftOf b start).start_addr ≤ x ∧
      x < (leftOf b start).start_addr + (leftOf b start).size ↔ b.start_addr ≤ x ∧ x < start
    omega
  have hlist : rest ++ [leftOf b start] ++ after = rest ++ leftOf b start :: after := by
    rw [append_assoc, singleton_append]
  have hlist' : rest ++ [] ++ after = rest ++ after := by rw [append_nil]
  unfold releaseBlock
  by_cases hwhole : start = b.start_addr ∧ len = b.size
  · refine ⟨_, _, if_pos hwhole, ?_⟩
    rw [← hlist']
    refine leaves_left ho hp (zero_le _) (fun c hc => nomatch hc) ?_ ?_
    · intro x
      refine iff_of_false (occupied_nil x) ?_
      rw [hb x]
      omega
    · intro x h1 h2
      rw [hb x]
      omega
  · rw [if_neg hwhole]
    by_cases hmiddle : b.start_addr < start ∧ start + len < b.start_addr + b.size
    · refine ⟨_, _, if_pos hmiddle, ?_⟩
      obtain ⟨hr1, hr2⟩ := rightOf_bounds b start len
      rw [← hlist]
      refine leaves_right ho hp le_rfl (hleft hmiddle.1) hleftocc hge hlen hr1 ?_ hmiddle.2
      show (rightOf b start len).start_addr + (rightOf b start len).size = b.start_addr + b.size
      omega
    · rw [if_neg hmiddle]
      by_cases hfront : start = b.start_addr ∧ len < b.size
      · refine ⟨_, _, if_pos hfront, ?_⟩
        obtain ⟨hr1, hr2⟩ := remainingOf_bounds b len
        rw [← hlist']
        refine leaves_right ho hp (zero_le _) (fun c hc => nomatch hc) ?_ hge hlen ?_ ?_ ?_
        · intro x
          exact iff_of_false (occupied_nil x) (by omega)
        · show (remainingOf b len).start_addr = start + len
          omega
        · show (remainingOf b len).start_addr + (remainingOf b len).size = b.start_addr + b.size
          omega
        · show start + len < b.start_addr + b.size
          omega
      · rw [if_neg hfront]
        have hend : b.start_addr < start ∧ start + len = b.start_addr + b.size := by omega
        refine ⟨_, _, if_pos hend, ?_⟩
        rw [← hlist]
        refine leaves_left ho hp le_rfl ?_ ?_ ?_
        · intro c hc
          have := hleft hend.1 c hc
          omega
        · intro x
          rw [hleftocc x, hb x]
          omega
        · intro x h1 h2
          rw [hb x]
          omega

end

end Split

/-- What a successful release means: the part was allocated, and now it is free. -/
structure Released (flexible_memory_size : ℕ) (m : PhysicalMemory) (start len : ℕ)
    (m' : PhysicalMemory) : Prop where
  inv : Inv flexible_memory_size m'
  allocated : ∀ x, start ≤ x → x < start + len → Occupied m.m_physical x
  free : ∀ x, Occupied m'.m_free x ↔ Occupied m.m_free x ∨ (start ≤ x ∧ x < start + len)
  mappings : m'.m_mappings = m.m_mappings

/-- **`Release`** of a non-empty range keeps the books, whichever of its four ways of
splitting a block it takes; a failed one changes nothing. -/
theorem release_spec (h : Inv flexible_memory_size m) (start : ℕ) (hlen : 0 < len) :
    (release m start len).2 = m ∧ (release m start len).1 = none ∨
      Released flexible_memory_size m start len (release m start len).2 := by
  have hsplit : (m.m_physical.takeWhile fun b => decide (b.start_addr ≤ start)) ++
      (m.m_physical.dropWhile fun b => decide (b.start_addr ≤ start)) = m.m_physical :=
    takeWhile_append_dropWhile
  unfold release
  generalize (m.m_physical.takeWhile fun b => decide (b.start_addr ≤ start)) = before at *
  generalize (m.m_physical.dropWhile fun b => decide (b.start_addr ≤ start)) = after at *
  cases hlast : before.getLast? with
  | none =>
    simp only [hlast]
    exact .inl ⟨trivial, trivial⟩
  | some b =>
    obtain ⟨rest, rfl⟩ := getLast?_eq_some_iff.mp hlast
    have hlist : rest ++ b :: after = m.m_physical := by
      rw [← hsplit, append_assoc, singleton_append]
    simp only [hlast, dropLast_concat]
    by_cases hreject : b.pool_expansion ∨ start < b.start_addr ∨
        b.start_addr + b.size ≤ start ∨ b.start_addr + b.size - start < len
    · rw [if_pos hreject]
      exact .inl ⟨rfl, rfl⟩
    · rw [if_neg hreject]
      have hge : b.start_addr ≤ start := by
        by_contra hlt
        exact hreject (.inr (.inl (by omega)))
      have hle : start + len ≤ b.start_addr + b.size := by
        by_contra hlt
        by_cases hout : b.start_addr + b.size ≤ start
        · exact hreject (.inr (.inr (.inl hout)))
        · exact hreject (.inr (.inr (.inr (by omega))))
      obtain ⟨out, l, hblock, hleaves⟩ := releaseBlock_spec (hlist.symm ▸ h.ordered)
        (hlist.symm ▸ h.proper) hlen hge hle
      rw [hblock]
      right
      have hin : ∀ x, start ≤ x → x < start + len → Occupied m.m_physical x := by
        intro x h1 h2
        rw [← hlist]
        exact ⟨b, mem_append_right _ mem_cons_self,
          by show b.start_addr ≤ x; omega, by show x < b.start_addr + b.size; omega⟩
      have hocc := hleaves.occupied
      rw [hlist] at hocc
      exact ⟨inv_released h hlen hin hleaves.ordered hleaves.proper hocc, hin,
        (addRun_spec h.canonical start hlen).2, rfl⟩

/-- **`ReleasePoolExpansion`** gives back one whole block that was allocated for the
pool; a failed one changes nothing. -/
theorem releasePoolExpansion_spec (h : Inv flexible_memory_size m) (phys_addr len : ℕ) :
    (releasePoolExpansion m phys_addr len).2 = m ∧
        (releasePoolExpansion m phys_addr len).1 = false ∨
      Released flexible_memory_size m phys_addr len (releasePoolExpansion m phys_addr len).2 := by
  unfold releasePoolExpansion
  cases hfind : m.m_physical.find? fun b => decide (b.start_addr = phys_addr) with
  | none => exact .inl ⟨rfl, rfl⟩
  | some b =>
    by_cases hreject : b.pool_expansion = false ∨ b.size ≠ len
    · simp only [if_pos hreject]
      exact .inl ⟨trivial, trivial⟩
    · simp only [if_neg hreject]
      right
      have hb : b ∈ m.m_physical := mem_of_find?_eq_some hfind
      have hstart : b.start_addr = phys_addr := by simpa using find?_some hfind
      have hsize : b.size = len := by
        by_contra hne
        exact hreject (.inr hne)
      subst hstart
      subst hsize
      have hpos : b.start_addr < b.start_addr + b.size := h.proper b hb
      have hin : ∀ x, b.start_addr ≤ x → x < b.start_addr + b.size →
          Occupied m.m_physical x := fun x h1 h2 => ⟨b, hb, h1, h2⟩
      -- the block is the only one with its key
      have hother : ∀ c ∈ m.m_physical, c.start_addr = b.start_addr → c = b := by
        intro c hc heq
        have hpc : c.start_addr < c.start_addr + c.size := h.proper c hc
        exact h.ordered.apart.eq_of_covers hc hb (x := b.start_addr)
          ⟨heq.le, by show b.start_addr < c.start_addr + c.size; omega⟩ ⟨le_refl _, hpos⟩
      have hocc : ∀ x, Occupied
          (m.m_physical.filter fun c => decide (c.start_addr ≠ b.start_addr)) x ↔
          Occupied m.m_physical x ∧ ¬ (b.start_addr ≤ x ∧ x < b.start_addr + b.size) := by
        intro x
        constructor
        · rintro ⟨c, hc, hcov⟩
          obtain ⟨hc, hne⟩ := mem_filter.mp hc
          refine ⟨⟨c, hc, hcov⟩, fun hx => ?_⟩
          have hcb := h.ordered.apart.eq_of_covers hc hb hcov hx
          exact absurd (congrArg AllocatedBlock.start_addr hcb) (by simpa using hne)
        · rintro ⟨⟨c, hc, hcov⟩, hnot⟩
          refine ⟨c, mem_filter.mpr ⟨hc, ?_⟩, hcov⟩
          rw [decide_eq_true_eq]
          intro heq
          rw [hother c hc heq] at hcov
          exact hnot hcov
      exact ⟨inv_released h (by omega) hin (h.ordered.sublist filter_sublist)
        (fun c hc => h.proper c (mem_of_mem_filter hc)) hocc, hin,
        (addRun_spec h.canonical _ (by omega)).2, rfl⟩

/-! ## Runs -/

/-- An operation on the allocator. A pool expansion is an allocation with its flag set. -/
inductive Op
  | alloc (search_start search_end len alignment : ℕ) (memory_type : ℤ) (pool_expansion : Bool)
  | release (start len : ℕ)
  | releasePoolExpansion (phys_addr len : ℕ)

/-- What the kernel's entry points check before they call: no empty length. -/
def Op.Valid : Op → Prop
  | .alloc _ _ len _ _ _ => 0 < len
  | .release _ len => 0 < len
  | .releasePoolExpansion _ _ => True

instance : DecidablePred Op.Valid := fun op => by
  cases op <;> unfold Op.Valid <;> infer_instance

/-- The state after an operation, unless it aborts. -/
def step (flexible_memory_size : ℕ) (m : PhysicalMemory) : Op → Option PhysicalMemory
  | .alloc search_start search_end len alignment memory_type pool_expansion =>
    (alloc flexible_memory_size m search_start search_end len alignment memory_type
      pool_expansion).map Prod.snd
  | .release start len => some (release m start len).2
  | .releasePoolExpansion phys_addr len => some (releasePoolExpansion m phys_addr len).2

/-- The state after a sequence of operations from the initial one. -/
def run (flexible_memory_size : ℕ) (ops : List Op) : Option PhysicalMemory :=
  ops.foldlM (step flexible_memory_size) (init flexible_memory_size)

theorem step_spec (h : Inv flexible_memory_size m) {op : Op} (hop : op.Valid) :
    ∃ m', step flexible_memory_size m op = some m' ∧ Inv flexible_memory_size m' := by
  cases op with
  | alloc search_start search_end len alignment memory_type pool_expansion =>
    obtain ⟨r, m', halloc, hinv, -⟩ :=
      alloc_spec h search_start search_end alignment memory_type pool_expansion hop
    exact ⟨m', by simp only [step, halloc, Option.map_some], hinv⟩
  | release start len =>
    refine ⟨_, rfl, ?_⟩
    rcases release_spec h start hop with ⟨hsame, -⟩ | hreleased
    · rw [hsame]
      exact h
    · exact hreleased.inv
  | releasePoolExpansion phys_addr len =>
    refine ⟨_, rfl, ?_⟩
    rcases releasePoolExpansion_spec h phys_addr len with ⟨hsame, -⟩ | hreleased
    · rw [hsame]
      exact h
    · exact hreleased.inv

theorem run_spec (h : Inv flexible_memory_size m) {ops : List Op} (hops : ∀ op ∈ ops, op.Valid) :
    ∃ m', ops.foldlM (step flexible_memory_size) m = some m' ∧ Inv flexible_memory_size m' := by
  induction ops generalizing m with
  | nil => exact ⟨m, rfl, h⟩
  | cons op ops ih =>
    obtain ⟨hop, hrest⟩ := forall_mem_cons.mp hops
    obtain ⟨m', hstep, hinv⟩ := step_spec h hop
    obtain ⟨m'', hrun, hinv'⟩ := ih hinv hrest
    exact ⟨m'', by rw [foldlM_cons, hstep]; exact hrun, hinv'⟩

/-- The address an allocation would return, if any. -/
def allocAddr (flexible_memory_size : ℕ) (m : PhysicalMemory)
    (search_start search_end len alignment : ℕ) (memory_type : ℤ) (pool_expansion : Bool) :
    Option ℕ :=
  (alloc flexible_memory_size m search_start search_end len alignment memory_type
    pool_expansion).bind Prod.fst

theorem allocAddr_spec (h : Inv flexible_memory_size m)
    (search_start search_end : ℕ) (alignment : ℕ) (memory_type : ℤ)
    (pool_expansion : Bool) (hlen : 0 < len) :
    ((allocAddr flexible_memory_size m search_start search_end len alignment memory_type
        pool_expansion).isSome ↔
      ∃ a, Fits flexible_memory_size m search_start search_end len alignment a) ∧
    ∀ a, allocAddr flexible_memory_size m search_start search_end len alignment memory_type
        pool_expansion = some a →
      Fits flexible_memory_size m search_start search_end len alignment a ∧
        ∀ a', Fits flexible_memory_size m search_start search_end len alignment a' → a ≤ a' := by
  obtain ⟨r, m', halloc, -, hnone, hsome⟩ :=
    alloc_spec h search_start search_end alignment memory_type pool_expansion hlen
  have haddr : allocAddr flexible_memory_size m search_start search_end len alignment
      memory_type pool_expansion = r := by
    unfold allocAddr
    rw [halloc]
    rfl
  rw [haddr]
  refine ⟨?_, fun a ha => (hsome a ha).1⟩
  cases r with
  | none =>
    refine ⟨fun hf => absurd hf (by simp), ?_⟩
    rintro ⟨a, ha⟩
    exact absurd ha ((hnone rfl).2 a)
  | some a => exact ⟨fun _ => ⟨a, (hsome a rfl).1.1⟩, fun _ => rfl⟩

end PhysicalMemory

open PhysicalMemory in
/-- **The physical memory is partitioned.** No sequence of allocations and releases
runs into an abort; after it, free and allocated blocks partition `[0, Size())`, the
free list is canonical, `Alloc` finds the least address in the window that can be
allocated, and `Available` reports exactly the lengths for which it succeeds. -/
theorem physicalMemory_partition {flexible_memory_size : ℕ}
    (hsize : flexible_memory_size < TotalSize) (ops : List Op) (hops : ∀ op ∈ ops, op.Valid) :
    ∃ m, run flexible_memory_size ops = some m ∧ Inv flexible_memory_size m ∧
      ∀ search_start search_end alignment memory_type pool_expansion,
        (∀ len, 0 < len →
          ((allocAddr flexible_memory_size m search_start search_end len alignment memory_type
              pool_expansion).isSome ↔
            ∃ a, Fits flexible_memory_size m search_start search_end len alignment a) ∧
          ∀ a, allocAddr flexible_memory_size m search_start search_end len alignment memory_type
              pool_expansion = some a →
            Fits flexible_memory_size m search_start search_end len alignment a ∧
              ∀ a', Fits flexible_memory_size m search_start search_end len alignment a' →
                a ≤ a') ∧
        match available flexible_memory_size m search_start search_end alignment with
        | none => ∀ len, 0 < len →
            allocAddr flexible_memory_size m search_start search_end len alignment memory_type
              pool_expansion = none
        | some (_, size) =>
          (allocAddr flexible_memory_size m search_start search_end size alignment memory_type
            pool_expansion).isSome ∧
          ∀ len, size < len →
            allocAddr flexible_memory_size m search_start search_end len alignment memory_type
              pool_expansion = none := by
  obtain ⟨m, hrun, hinv⟩ := run_spec (inv_init hsize) hops
  refine ⟨m, hrun, hinv, ?_⟩
  intro search_start search_end alignment memory_type pool_expansion
  have halloc := fun {len : ℕ} (hlen : 0 < len) =>
    allocAddr_spec hinv search_start search_end alignment memory_type pool_expansion hlen
  refine ⟨fun len hlen => halloc hlen, ?_⟩
  have havail := available_spec hinv search_start search_end alignment
  have hfail : ∀ len, 0 < len →
      (∀ a, ¬ Fits flexible_memory_size m search_start search_end len alignment a) →
      allocAddr flexible_memory_size m search_start search_end len alignment memory_type
        pool_expansion = none := by
    intro len hlen hno
    rw [← Option.not_isSome_iff_eq_none, (halloc hlen).1]
    rintro ⟨a, ha⟩
    exact hno a ha
  split at havail
  · exact fun len hlen => hfail len hlen fun a => havail len a hlen
  next addr size hsome =>
    obtain ⟨hpos, hfits, hmost⟩ := havail
    refine ⟨(halloc hpos).1.mpr ⟨addr, hfits⟩, fun len hlen => ?_⟩
    refine hfail len (by omega) fun a ha => ?_
    have hle := hmost len a (by omega) ha
    omega

/-- An allocation, a release of its middle and an expansion of the pool. -/
theorem physicalMemory_partition_run :
    ∃ m, PhysicalMemory.run 0x1c000000 [.alloc 0 0x100000 0x40000 0x4000 3 false,
        .release 0x10000 0x10000, .alloc 0 0x100000 0x10000 0x10000 0 true] = some m ∧
      PhysicalMemory.Inv 0x1c000000 m := by
  obtain ⟨m, hrun, hinv, -⟩ := physicalMemory_partition
    (show 0x1c000000 < TotalSize by decide) [.alloc 0 0x100000 0x40000 0x4000 3 false,
      .release 0x10000 0x10000, .alloc 0 0x100000 0x10000 0x10000 0 true] (by decide)
  exact ⟨m, hrun, hinv⟩

end MagnusPS5.Kernel
