/-
What the operations of the buffer cache do to the buffers and to the ranges that the GPU
has modified, as long as every such byte has a buffer and nothing is deferred (`Owned`).
-/
import MagnusPS5.Graphics.BufferCache
import MagnusPS5.Graphics.MemoryTrackerRanges

namespace MagnusPS5.Graphics.BufferCache

open Lib
open Spanned (lo hi)
open List CachedBuffer MemoryTracker RangeSet

/-- No other user of the page manager has watchers. -/
abbrev noOthers : ℕ → ℕ → ℕ := fun _ _ => 0

theorem noOthers_lt (k i : ℕ) : noOthers k i < 0x7f := Nat.zero_lt_succ _

/-- What holds of the cache at any time. -/
structure Inv (s : BufferCache) : Prop where
  ordered : Ordered s.m_buffers
  proper : Proper s.m_buffers
  pages : ∀ b ∈ s.m_buffers, b.vaddr % CACHING_PAGE_SIZE = 0 ∧ b.size % CACHING_PAGE_SIZE = 0
  ranges : s.m_gpu_modified_ranges.Wf
  tracker : MemoryTracker.Coherent noOthers s.m_memory_tracker

/-- Each byte that the GPU has modified is in a buffer, and no download is deferred. -/
structure Owned (s : BufferCache) : Prop extends Inv s where
  owned : ∀ x, s.m_gpu_modified_ranges.Has x → Occupied s.m_buffers x
  settled : s.m_pending_operations = []

/-- The aborts that are not about the owner of a byte that is read back. -/
def Stops (e : CacheAbort) : Prop := e ≠ .noBufferOwner ∧ e ≠ .outsideBufferOwner

/-! ## Rules -/

variable {α : Type} {x size vaddr : ℕ} {P : α → Prop}
  {E : Abort → Prop} {t : MemoryTracker} {buffers : List CachedBuffer} {b : CachedBuffer}

theorem yields_lift {x : Except Abort α} (h : Yields E x P) : Yields Stops (lift .tracker x) P := by
  cases x with
  | ok a => exact h
  | error e => exact ⟨nofun, nofun⟩

theorem yields_lift_eq {x : Except Abort α}
    (h : Yields E x P) : Yields Stops (lift .tracker x) fun a => x = .ok a ∧ P a := by
  cases x with
  | ok a => exact ⟨rfl, h⟩
  | error e => exact ⟨nofun, nofun⟩

theorem yields_orInvalidRange {x : Option α}
    (h : ∀ a, x = some a → P a) : Yields Stops (orInvalidRange x) P := by
  cases x with
  | some a => exact h a rfl
  | none => exact ⟨nofun, nofun⟩

theorem yields_foldlM_true {σ : Type} {f : σ → α → Except CacheAbort σ} {l : List α} {s : σ}
    (h : ∀ a s, Yields Stops (f s a) fun _ => True) : Yields Stops (l.foldlM f s) fun _ => True :=
  let I : List α → σ → Prop := fun _ _ => True
  yields_foldlM (show I l s from trivial) fun a _ s _ => h a s

variable {s : BufferCache}

theorem Inv.setTracker (h : Inv s) (ht : MemoryTracker.Coherent noOthers t) :
    Inv { s with m_memory_tracker := t } := ⟨h.ordered, h.proper, h.pages, h.ranges, ht⟩

theorem Owned.setTracker (h : Owned s)
    (ht : MemoryTracker.Coherent noOthers t) : Owned { s with m_memory_tracker := t } :=
  ⟨h.toInv.setTracker ht, h.owned, h.settled⟩

theorem runPending_settled (h : s.m_pending_operations = []) (count : ℕ) :
    runPending count s = .ok s := by
  cases count with
  | zero => rfl
  | succ count =>
    unfold runPending
    rw [h]

/-! ## Changing an entry -/

section Modify

variable (address : ℕ) {f : CachedBuffer → CachedBuffer}
  (hvaddr : ∀ b, (f b).vaddr = b.vaddr) (hsize : ∀ b, (f b).size = b.size)

include hvaddr hsize

theorem modified_span (b : CachedBuffer) :
    (if b.vaddr = address then f b else b).vaddr = b.vaddr ∧
      (if b.vaddr = address then f b else b).size = b.size := by
  split_ifs
  · exact ⟨hvaddr b, hsize b⟩
  · exact ⟨rfl, rfl⟩

theorem ordered_modifyBuffer (h : Ordered buffers) : Ordered (modifyBuffer address f buffers) := by
  refine pairwise_map.mpr (h.imp fun {a b} hab => ?_)
  obtain ⟨ha1, ha2⟩ := modified_span address hvaddr hsize a
  obtain ⟨hb, -⟩ := modified_span address hvaddr hsize b
  show _ + _ ≤ vaddr _
  rw [ha1, ha2, hb]
  exact hab

theorem mem_modifyBuffer (h : b ∈ modifyBuffer address f buffers) :
    ∃ old ∈ buffers, b.vaddr = old.vaddr ∧ b.size = old.size := by
  obtain ⟨old, hold, rfl⟩ := mem_map.mp h
  exact ⟨old, hold, modified_span address hvaddr hsize old⟩

theorem occupied_modifyBuffer (h : Occupied buffers x) :
    Occupied (modifyBuffer address f buffers) x := by
  obtain ⟨b, hb, h1, h2⟩ := h
  obtain ⟨hv, hs⟩ := modified_span address hvaddr hsize b
  refine ⟨_, mem_map.mpr ⟨b, hb, rfl⟩, ?_, ?_⟩
  · show vaddr _ ≤ x
    rw [hv]
    exact h1
  · show x < vaddr _ + size _
    rw [hv, hs]
    exact h2

theorem Inv.modify (h : Inv s) :
    Inv { s with m_buffers := modifyBuffer address f s.m_buffers } where
  ordered := ordered_modifyBuffer address hvaddr hsize h.ordered
  proper b hb := by
    obtain ⟨old, hold, hv, hs⟩ := mem_modifyBuffer address hvaddr hsize hb
    have hproper := h.proper old hold
    change old.vaddr < old.vaddr + old.size at hproper
    show b.vaddr < b.vaddr + b.size
    omega
  pages b hb := by
    obtain ⟨old, hold, hv, hs⟩ := mem_modifyBuffer address hvaddr hsize hb
    rw [hv, hs]
    exact h.pages old hold
  ranges := h.ranges
  tracker := h.tracker

theorem Owned.modify (h : Owned s) :
    Owned { s with m_buffers := modifyBuffer address f s.m_buffers } :=
  ⟨h.toInv.modify address hvaddr hsize,
    fun x hx => occupied_modifyBuffer address hvaddr hsize (h.owned x hx),
    h.settled⟩

end Modify

/-! ## Obtaining a buffer -/

theorem isInBounds_iff {address : ℕ} : b.isInBounds address size = true ↔
      b.vaddr ≤ address ∧ size ≤ b.size ∧ address - b.vaddr ≤ b.size - size := by
  unfold isInBounds
  simp

theorem resolveOverlap_yields (merged candidate : ℕ × ℕ) :
    Yields Stops (resolveOverlap merged candidate) fun resolved =>
      (resolved = none ∧
        (candidate.1 + candidate.2 ≤ merged.1 ∨ merged.1 + merged.2 ≤ candidate.1)) ∨
      (resolved = some (min merged.1 candidate.1, max (merged.1 + merged.2)
        (candidate.1 + candidate.2) - min merged.1 candidate.1)) := by
  refine yields_ite (fun _ => ⟨nofun, nofun⟩) fun _ => ?_
  refine yields_ite (fun hapart => .inl ⟨rfl, ?_⟩) fun _ => .inr rfl
  omega

theorem mergeOverlaps_yields {merged : ℕ × ℕ} {candidates : List CachedBuffer}
    (ho : Ordered candidates) (hp : Proper candidates)
    (hfrom : ∀ b ∈ candidates, merged.1 ≤ b.vaddr)
    (hpages : ∀ b ∈ candidates, b.vaddr % CACHING_PAGE_SIZE = 0 ∧ b.size % CACHING_PAGE_SIZE = 0)
    (hmerged : merged.1 % CACHING_PAGE_SIZE = 0 ∧ merged.2 % CACHING_PAGE_SIZE = 0) :
    Yields Stops (mergeOverlaps merged candidates) fun result =>
      result.1.1 = merged.1 ∧ merged.2 ≤ result.1.2 ∧ result.1.2 % CACHING_PAGE_SIZE = 0 ∧
      ∃ rest, candidates = result.2 ++ rest ∧
        (∀ b ∈ result.2, hi b ≤ result.1.1 + result.1.2) ∧
        ∀ b ∈ rest, result.1.1 + result.1.2 ≤ lo b := by
  induction candidates generalizing merged with
  | nil => exact ⟨rfl, le_rfl, hmerged.2, [], rfl, nofun, nofun⟩
  | cons candidate rest ih =>
    obtain ⟨hafter, ho⟩ := ordered_cons.mp ho
    have hproper : candidate.vaddr < candidate.vaddr + candidate.size :=
      hp candidate mem_cons_self
    have hcandidate := hfrom candidate mem_cons_self
    have hpage := hpages candidate mem_cons_self
    refine yields_ite (fun hbehind => ?_) fun hbefore => ?_
    · -- the candidates behind the range are left alone
      refine ⟨rfl, le_rfl, hmerged.2, _, rfl, nofun, fun b hb => ?_⟩
      rcases mem_cons.mp hb with rfl | hb
      · exact hbehind
      · have hb' : candidate.vaddr + candidate.size ≤ lo b := hafter b hb
        exact le_trans hbehind (by omega)
    · refine (resolveOverlap_yields merged (candidate.vaddr, candidate.size)).bind
        fun resolved hresolved => ?_
      rcases hresolved with ⟨rfl, hapart⟩ | rfl
      · omega
      · have hmin : min merged.1 candidate.vaddr = merged.1 := by omega
        rw [hmin]
        unfold CACHING_PAGE_SIZE at hpage hmerged
        have hgrown : (max (merged.1 + merged.2) (candidate.vaddr + candidate.size) - merged.1) %
            16384 = 0 := by omega
        have hmore := @ih (merged.1, max (merged.1 + merged.2)
          (candidate.vaddr + candidate.size) - merged.1) ho
          (fun b hb => hp b (.tail _ hb))
          (fun b hb => hfrom b (.tail _ hb))
          (fun b hb => hpages b (.tail _ hb)) ⟨hmerged.1, hgrown⟩
        refine yields_map (hmore.mono ?_)
        rintro result ⟨h1, h2, h3, left, rfl, h4, h5⟩
        have hgrows : merged.2 ≤ result.1.2 := by omega
        refine ⟨h1, hgrows, h3, left, rfl, fun b hb => ?_, h5⟩
        rcases mem_cons.mp hb with rfl | hb
        · show b.vaddr + b.size ≤ result.1.1 + result.1.2
          omega
        · exact h4 b hb

/-- The merged range contains the range and the overlaps, and is clear of the other buffers. -/
structure Merged (s : BufferCache) (range : ℕ × ℕ) (result : (ℕ × ℕ) × List CachedBuffer) :
    Prop where
  begins : result.1.1 ≤ range.1
  ends : range.1 + range.2 ≤ result.1.1 + result.1.2
  page : result.1.1 % CACHING_PAGE_SIZE = 0
  pages : result.1.2 % CACHING_PAGE_SIZE = 0
  overlaps : ∀ b ∈ result.2,
    b ∈ s.m_buffers ∧ result.1.1 ≤ lo b ∧ hi b ≤ result.1.1 + result.1.2
  others : ∀ b ∈ s.m_buffers,
    b ∈ result.2 ∨ result.1.1 + result.1.2 ≤ lo b ∨ hi b ≤ result.1.1

theorem overlaps_yields (h : Inv s) (merged : ℕ × ℕ)
    (hmerged : merged.1 % CACHING_PAGE_SIZE = 0 ∧ merged.2 % CACHING_PAGE_SIZE = 0)
    (hsize : 0 < merged.2) :
    Yields Stops (firstOverlap merged s.m_buffers) fun first =>
      Yields Stops (mergeOverlaps first.1 first.2) (Merged s merged) := by
  have hsplit : s.m_buffers.takeWhile (fun b => decide (b.vaddr < merged.1)) ++
      s.m_buffers.dropWhile (fun b => decide (b.vaddr < merged.1)) = s.m_buffers :=
    takeWhile_append_dropWhile
  have hbehind : ∀ b ∈ s.m_buffers.dropWhile (fun b => decide (b.vaddr < merged.1)),
      merged.1 ≤ b.vaddr := fun b hb => h.ordered.le_lo_of_mem_dropWhile h.proper hb
  -- the merge, from a split of the buffers at the first candidate
  have key : ∀ (start : ℕ × ℕ) (front candidates : List CachedBuffer),
      front ++ candidates = s.m_buffers → start.1 % CACHING_PAGE_SIZE = 0 →
      start.2 % CACHING_PAGE_SIZE = 0 → start.1 ≤ merged.1 →
      merged.1 + merged.2 ≤ start.1 + start.2 → (∀ b ∈ front, hi b ≤ start.1) →
      (∀ b ∈ candidates, start.1 ≤ b.vaddr) →
      Yields Stops (mergeOverlaps start candidates) (Merged s merged) := by
    intro start front candidates heq hpage1 hpage2 hle hend hfront hcandidates
    obtain ⟨-, ho, -⟩ := ordered_append.mp (heq ▸ h.ordered)
    have hmem : ∀ b ∈ candidates, b ∈ s.m_buffers := fun b hb => heq ▸ mem_append_right _ hb
    refine (mergeOverlaps_yields ho (fun b hb => h.proper b (hmem b hb)) hcandidates
      (fun b hb => h.pages b (hmem b hb)) ⟨hpage1, hpage2⟩).mono ?_
    rintro result ⟨h1, h2, h3, rest, hrest, h4, h5⟩
    refine ⟨by omega, by omega, by rw [h1]; exact hpage1, h3, fun b hb => ⟨?_, ?_, h4 b hb⟩,
      fun b hb => ?_⟩
    · exact hmem b (hrest ▸ mem_append_left _ hb)
    · have hb' := hcandidates b (hrest ▸ mem_append_left _ hb)
      rw [h1]
      exact hb'
    · rw [← heq, hrest] at hb
      rcases mem_append.mp hb with hb | hb
      · right; right
        rw [h1]
        exact hfront b hb
      · rcases mem_append.mp hb with hb | hb
        · exact .inl hb
        · exact .inr (.inl (h5 b hb))
  unfold firstOverlap
  cases hprevious : (s.m_buffers.takeWhile fun b => decide (b.vaddr < merged.1)).getLast? with
  | none =>
    have hnil := getLast?_eq_none_iff.mp hprevious
    refine key merged _ _ hsplit hmerged.1 hmerged.2 (le_rfl) (le_rfl) ?_ hbehind
    rw [hnil]
    exact nofun
  | some previous =>
    obtain ⟨front, hfront⟩ := getLast?_eq_some_iff.mp hprevious
    have hmem : previous ∈ s.m_buffers :=
      hsplit ▸ mem_append_left _ (mem_of_getLast? hprevious)
    have hlo : previous.vaddr < merged.1 := by
      have := mem_takeWhile_imp (mem_of_getLast? hprevious)
      simpa using this
    obtain ⟨hpage1, hpage2⟩ := h.pages previous hmem
    have hends : ∀ b ∈ front, hi b ≤ previous.vaddr := by
      have ho := h.ordered
      rw [← hsplit, hfront] at ho
      have hfirst := (ordered_append.mp ho).1
      exact fun b hb => (ordered_append.mp hfirst).2.2 b hb previous mem_cons_self
    refine yields_map ?_
    · refine (resolveOverlap_yields merged (previous.vaddr, previous.size)).mono
        fun resolved hresolved => ?_
      rcases hresolved with ⟨rfl, hapart⟩ | rfl
      · -- the range before the first candidate ends in front of the range
        refine key merged _ _ hsplit hmerged.1 hmerged.2 (le_rfl) (le_rfl) (fun b hb => ?_) hbehind
        rw [hfront] at hb
        rcases mem_append.mp hb with hb | hb
        · exact le_trans (hends b hb) hlo.le
        · rw [mem_singleton.mp hb]
          show previous.vaddr + previous.size ≤ merged.1
          omega
      · have hmin : min merged.1 previous.vaddr = previous.vaddr := by omega
        rw [hmin]
        unfold CACHING_PAGE_SIZE at hpage1 hpage2 hmerged
        refine key _ front _ ?_ hpage1 ?_ hlo.le ?_ hends fun b hb => ?_
        · rw [← singleton_append, ← append_assoc, ← hfront]
          exact hsplit
        · show (max (merged.1 + merged.2) (previous.vaddr + previous.size) - previous.vaddr) %
            16384 = 0
          omega
        · show merged.1 + merged.2 ≤ previous.vaddr +
            (max (merged.1 + merged.2) (previous.vaddr + previous.size) - previous.vaddr)
          omega
        · rcases mem_cons.mp hb with rfl | hb
          · exact le_rfl
          · exact le_trans hlo.le (hbehind b hb)

/-! ### None of the parts can miss an owner -/

theorem mergeOverlaps_stops (merged : ℕ × ℕ) (candidates : List CachedBuffer) :
    Yields Stops (mergeOverlaps merged candidates) fun _ => True := by
  induction candidates generalizing merged with
  | nil => trivial
  | cons candidate rest ih =>
    refine yields_ite (fun _ => trivial) fun _ => ?_
    refine (resolveOverlap_yields merged (candidate.vaddr, candidate.size)).bind
      fun resolved _ => ?_
    cases resolved with
    | none => exact ih merged
    | some merged => exact yields_map (ih merged)

theorem firstOverlap_stops (merged : ℕ × ℕ) (buffers : List CachedBuffer) :
    Yields Stops (firstOverlap merged buffers) fun _ => True := by
  unfold firstOverlap
  split
  · trivial
  · exact yields_map ((resolveOverlap_yields merged _).mono fun _ _ => trivial)

theorem subtractUsed_stops (total : ℕ) (buffers : List CachedBuffer) :
    Yields Stops (subtractUsed total buffers) fun _ => True :=
  yields_foldlM_true fun _ _ => yields_ite (fun _ => ⟨nofun, nofun⟩) fun _ => trivial

theorem alignUp_yields (value : ℕ) :
    Yields Stops (alignUp value) fun end_ =>
      end_ % CACHING_PAGE_SIZE = 0 ∧ value ≤ end_ ∧ end_ < 2 ^ 64 := by
  unfold alignUp UINT64_MAX CACHING_PAGE_SIZE
  refine yields_ite (fun _ => ⟨nofun, nofun⟩) fun hle => yields_ok ?_
  omega

theorem getOrCreateBuffer_stops (vaddr size : ℕ) :
    Yields Stops (getOrCreateBuffer vaddr size s) fun _ => True := by
  refine (alignUp_yields _).bind fun end_ _ => ?_
  split
  · trivial
  · refine (firstOverlap_stops _ _).bind fun first _ => ?_
    refine (mergeOverlaps_stops _ _).bind fun result _ => ?_
    exact (subtractUsed_stops _ _).bind fun _ _ => trivial

/-! ### The range gets a buffer -/

theorem mem_eraseBuffers {addresses : List ℕ} :
    b ∈ eraseBuffers addresses buffers ↔ b ∈ buffers ∧ b.vaddr ∉ addresses := by
  unfold eraseBuffers
  rw [mem_filter, decide_eq_true_eq]

/-- What `GetOrCreateBuffer` says of the buffers. -/
structure Obtained (s : BufferCache) (vaddr size : ℕ) (s' : BufferCache) : Prop where
  inv : Inv s'
  ranges : s'.m_gpu_modified_ranges = s.m_gpu_modified_ranges
  pending : s'.m_pending_operations = s.m_pending_operations
  kept : ∀ x, Occupied s.m_buffers x → Occupied s'.m_buffers x
  covered : ∀ x, vaddr ≤ x → x < vaddr + size → Occupied s'.m_buffers x

theorem Merged.obtained {range : ℕ × ℕ} {result : (ℕ × ℕ) × List CachedBuffer}
    (hmerged : Merged s range result) (h : Inv s) {cached : CachedBuffer}
    {total : ℕ} (hcached : cached.vaddr = result.1.1 ∧ cached.size = result.1.2) (hsize : 0 < size)
    (hbegin : range.1 ≤ vaddr) (hend : vaddr + size ≤ range.1 + range.2) :
    Obtained s vaddr size { s with
      m_buffers := place cached (eraseBuffers (result.2.map CachedBuffer.vaddr) s.m_buffers)
      m_total_used_memory := total } := by
  obtain ⟨hbegin', hend', hpage, hpages, hover, hrest⟩ := hmerged
  obtain ⟨merged, overlaps⟩ := result
  dsimp only at *
  have hlo : lo cached = merged.1 := hcached.1
  have hhi : hi cached = merged.1 + merged.2 := by
    show cached.vaddr + cached.size = _
    rw [hcached.1, hcached.2]
  have hsub : List.Sublist (eraseBuffers (overlaps.map CachedBuffer.vaddr) s.m_buffers)
      s.m_buffers := filter_sublist
  have hproper : Proper (eraseBuffers (overlaps.map CachedBuffer.vaddr) s.m_buffers) :=
    fun b hb => h.proper b (hsub.subset hb)
  have hapart : ∀ b ∈ eraseBuffers (overlaps.map CachedBuffer.vaddr) s.m_buffers,
      hi cached ≤ lo b ∨ hi b ≤ lo cached := by
    intro b hb
    obtain ⟨hb, hkept⟩ := mem_eraseBuffers.mp hb
    rw [hlo, hhi]
    rcases hrest b hb with hover | hrest
    · exact absurd (mem_map_of_mem hover) hkept
    · exact hrest
  have hne : lo cached < hi cached := by
    rw [hlo, hhi]
    omega
  refine ⟨⟨.place (h.ordered.sublist hsub) hproper hne hapart,
    proper_place hne hproper, fun b hb => ?_, h.ranges, h.tracker⟩, rfl, rfl, fun x hx => ?_,
    fun x hx1 hx2 => ?_⟩
  · rcases mem_place.mp hb with rfl | hb
    · rw [hcached.1, hcached.2]
      exact ⟨hpage, hpages⟩
    · exact h.pages b (hsub.subset hb)
  · -- what had a buffer is in the new one, or still in its own
    obtain ⟨b, hb, hbx⟩ := hx
    refine occupied_place.mpr ?_
    by_cases hover' : b.vaddr ∈ overlaps.map CachedBuffer.vaddr
    · left
      obtain ⟨b', hb', hvaddr⟩ := mem_map.mp hover'
      obtain ⟨hmem, h1, h2⟩ := hover b' hb'
      obtain rfl := h.ordered.eq_of_lo_eq h.proper hb hmem hvaddr
      exact ⟨by rw [hlo]; exact le_trans h1 hbx.1,
        by rw [hhi]; exact lt_of_lt_of_le hbx.2 h2⟩
    · exact .inr ⟨b, mem_eraseBuffers.mpr ⟨hb, hover'⟩, hbx⟩
  · refine occupied_place.mpr (.inl ⟨?_, ?_⟩)
    · rw [hlo]
      omega
    · rw [hhi]
      omega

theorem request_range {end_ : ℕ} (hsize : 0 < size)
    (hpage : end_ % CACHING_PAGE_SIZE = 0) (hend : vaddr + size ≤ end_) (hfits : end_ < 2 ^ 64) :
    (end_ + 2 ^ 64 - alignDown vaddr) % 2 ^ 64 = end_ - alignDown vaddr ∧
      (alignDown vaddr % CACHING_PAGE_SIZE = 0 ∧
        (end_ - alignDown vaddr) % CACHING_PAGE_SIZE = 0) ∧
      0 < end_ - alignDown vaddr ∧ alignDown vaddr ≤ vaddr ∧
      vaddr + size ≤ alignDown vaddr + (end_ - alignDown vaddr) := by
  have hbegin : alignDown vaddr ≤ vaddr ∧ alignDown vaddr % CACHING_PAGE_SIZE = 0 := by
    unfold alignDown CACHING_PAGE_SIZE
    omega
  unfold CACHING_PAGE_SIZE at *
  omega

/-- **`GetOrCreateBuffer`**, for a range inside of the address space. -/
theorem getOrCreateBuffer_yields (h : Inv s) (hsize : 0 < size) (hfits : vaddr + size < 2 ^ 64) :
    Yields Stops (getOrCreateBuffer vaddr size s) fun result =>
      Obtained s vaddr size result.2 := by
  unfold getOrCreateBuffer
  rw [Nat.mod_eq_of_lt hfits]
  refine (alignUp_yields _).bind fun end_ hend => ?_
  obtain ⟨hend1, hend2, hend3⟩ := hend
  cases hfloor : (floor? s.m_buffers vaddr).filter fun owner => owner.isInBounds vaddr size with
  | some owner =>
    obtain ⟨hfound, hbounds⟩ := Option.filter_eq_some_iff.mp hfloor
    obtain ⟨h1, h2, h3⟩ := isInBounds_iff.mp hbounds
    let touch : CachedBuffer → CachedBuffer := fun b => { b with tick_accessed_last := s.m_gc_tick }
    have hkept : ∀ x, Occupied s.m_buffers x →
        Occupied (modifyBuffer owner.vaddr touch s.m_buffers) x :=
      fun x hx => occupied_modifyBuffer owner.vaddr (f := touch) (fun _ => rfl) (fun _ => rfl) hx
    refine yields_pure ⟨h.modify owner.vaddr (f := touch) (fun _ => rfl) (fun _ => rfl), rfl, rfl,
      hkept, fun x hx1 hx2 => hkept x ⟨owner, (mem_of_floor? hfound).1, ?_, ?_⟩⟩
    · show owner.vaddr ≤ x
      omega
    · show x < owner.vaddr + owner.size
      omega
  | none =>
    obtain ⟨hmod, hpages, hpositive, hbegin, hcontains⟩ := request_range hsize hend1 hend2 hend3
    rw [hmod]
    refine (overlaps_yields h (alignDown vaddr, end_ - alignDown vaddr) hpages
      hpositive).bind fun first hfirst => ?_
    refine hfirst.bind fun result hmerged => ?_
    refine (subtractUsed_stops _ _).bind fun total _ => yields_pure ?_
    exact hmerged.obtained h ⟨rfl, rfl⟩ hsize hbegin hcontains

/-! ### The whole of `ObtainBuffer` -/

theorem range_of_upload {t' : MemoryTracker} {is_written : Bool} {uploads : List (ℕ × ℕ)}
    (h : forEachUploadRange vaddr size is_written t = .ok (uploads, t')) :
    0 < size ∧ vaddr + size < 2 ^ 64 := by
  by_contra hbad
  have hinvalid : MemoryTracker.validateRange vaddr size = .error .invalidTrackerRange := by
    unfold MemoryTracker.validateRange TRACKER_ADDRESS_SIZE
    exact if_pos (by omega)
  unfold MemoryTracker.forEachUploadRange at h
  obtain ⟨t1, hhot, h⟩ := bind_eq_ok.mp h
  change ((MemoryTracker.validateRange vaddr size >>= _) >>= _) = _ at h
  rw [hinvalid] at h
  nomatch h

section

variable (h : Owned s)

include h

theorem obtainTransient_yields (vaddr size : ℕ) (is_written is_read transient : Bool) :
    Yields Stops (obtainTransient vaddr size is_written is_read transient s) fun result =>
      Owned result.2 := by
  refine yields_ite (fun _ => ?_) fun _ => yields_pure h
  refine (yields_lift (isRegionGpuModified_yields PageManager.Refused vaddr size
    s.m_memory_tracker)).bind fun gpu hgpu => ?_
  have ht : MemoryTracker.Coherent noOthers gpu.2 := hgpu.1 ▸ h.tracker
  refine yields_ite (fun _ => yields_pure (h.setTracker ht)) fun _ => ?_
  refine (yields_lift (isRegionCpuModified_yields PageManager.Refused vaddr size
    ht)).bind fun cpu hcpu => yields_pure (h.setTracker hcpu)

/-- **`ObtainBuffer`** keeps the owners of the pages. -/
theorem obtainBuffer_yields (vaddr size : ℕ) (is_written is_read transient : Bool) :
    Yields Stops (obtainBuffer vaddr size is_written is_read transient s) Owned := by
  refine (obtainTransient_yields h vaddr size is_written is_read transient).bind
    fun first hfirst => ?_
  obtain ⟨bound, s⟩ := first
  refine yields_ite (fun _ => yields_pure hfirst) fun _ => ?_
  -- the range is checked after the buffer is there
  refine .bind (P := fun result => 0 < size → vaddr + size < 2 ^ 64 →
    Obtained s vaddr size result.2) ?_ fun result hresult => ?_
  · by_cases hvalid : 0 < size ∧ vaddr + size < 2 ^ 64
    · exact (getOrCreateBuffer_yields hfirst.toInv hvalid.1 hvalid.2).mono fun _ ho _ _ => ho
    · exact (getOrCreateBuffer_stops vaddr size).mono fun _ _ h1 h2 => absurd ⟨h1, h2⟩ hvalid
  obtain ⟨address, s'⟩ := result
  by_cases hvalid : 0 < size ∧ vaddr + size < 2 ^ 64
  · obtain ⟨hinv, hranges, hpending, hkept, hcovered⟩ := hresult hvalid.1 hvalid.2
    have hs' : Owned s' := ⟨hinv, fun x hx => hkept x (hfirst.owned x (hranges ▸ hx)),
      hpending.trans hfirst.settled⟩
    refine (yields_lift (forEachUploadRange_yields hs'.tracker noOthers_lt vaddr size
      is_written)).bind fun uploaded ht => ?_
    obtain ⟨uploads, t⟩ := uploaded
    have hloaded := (hs'.setTracker ht).modify address (f := upload s'.memory uploads)
      (fun _ => rfl) fun _ => rfl
    refine yields_ite (fun _ => ?_) fun _ => yields_pure hloaded
    refine (yields_orInvalidRange fun _ h => h).bind fun ranges hadd => yields_pure ?_
    obtain ⟨hwf, hhas⟩ := add_spec hs'.ranges hadd
    refine ⟨⟨hloaded.ordered, hloaded.proper, hloaded.pages, hwf, ht⟩, fun x hx => ?_, hs'.settled⟩
    rcases (hhas x).mp hx with hx | ⟨hx1, hx2⟩
    · exact hloaded.owned x hx
    · exact occupied_modifyBuffer address (f := upload s'.memory uploads) (fun _ => rfl) (fun _ => rfl)
        (hcovered x hx1 hx2)
  · -- the upload stops the process
    dsimp only
    cases hupload : s'.m_memory_tracker.forEachUploadRange vaddr size is_written with
    | error e => exact ⟨nofun, nofun⟩
    | ok uploaded => exact absurd (range_of_upload hupload) hvalid

/-! ## Writes -/

theorem gpuWrite_owned (vaddr size : ℕ) : Owned (gpuWrite vaddr size s) := by
  unfold gpuWrite
  cases (floor? s.m_buffers vaddr).filter fun owner => owner.isInBounds vaddr size with
  | none => exact h
  | some owner =>
    let write : CachedBuffer → CachedBuffer := fun b =>
      { b with bytes := overwrite b.bytes vaddr size fun _ => s.clock + 1 }
    have hmodified := h.modify owner.vaddr (f := write) (fun _ => rfl) fun _ => rfl
    exact ⟨⟨hmodified.ordered, hmodified.proper, hmodified.pages, h.ranges, h.tracker⟩,
      hmodified.owned, h.settled⟩

theorem cpuWrite_owned (vaddr size : ℕ) : Owned (cpuWrite vaddr size s) :=
  ⟨⟨h.ordered, h.proper, h.pages, h.ranges, h.tracker⟩, h.owned, h.settled⟩

theorem noteFault_yields (vaddr : ℕ) : Yields Stops (noteFault vaddr s) Owned :=
  (yields_lift (MemoryTracker.noteFault_yields h.tracker true vaddr)).bind fun _ ht =>
    yields_pure (h.setTracker ht)

end

/-! ## Reading back -/

theorem subtractDownloads_yields {ranges : RangeSet} (h : ranges.Wf)
    (downloads : List DownloadRange) :
    Yields Stops (subtractDownloads downloads ranges) fun result =>
      result.Wf ∧ (∀ x, result.Has x → ranges.Has x) ∧
      ∀ x, ranges.Has x → (∀ r ∈ downloads, ¬ (r.address ≤ x ∧ x < r.address + r.size)) →
        result.Has x := by
  induction downloads generalizing ranges with
  | nil => exact ⟨h, fun _ hx => hx, fun _ hx _ => hx⟩
  | cons r rest ih =>
    unfold subtractDownloads
    rw [foldlM_cons]
    refine (yields_orInvalidRange fun _ h => h).bind fun left hleft => ?_
    obtain ⟨hwf, hhas⟩ := subtract_spec h hleft
    refine (ih hwf).mono fun result hresult => ?_
    obtain ⟨h1, h2, h3⟩ := hresult
    refine ⟨h1, fun x hx => ((hhas x).mp (h2 x hx)).1, fun x hx hclear => ?_⟩
    exact h3 x ((hhas x).mpr ⟨hx, hclear r mem_cons_self⟩) fun q hq => hclear q (.tail _ hq)

theorem reservationSize_stops (copies : List DownloadCopy) :
    Yields Stops (reservationSize copies) fun _ => True := by
  refine yields_foldlM_true fun copy total => ?_
  refine .bind (P := fun _ => True) ?_ fun _ _ =>
    yields_ite (fun _ => ⟨nofun, nofun⟩) fun _ => yields_ite (fun _ => ⟨nofun, nofun⟩) fun _ => trivial
  refine yields_ite (fun _ => ⟨nofun, nofun⟩) fun _ => ?_
  refine yields_ite (fun _ => ⟨nofun, nofun⟩) fun _ => ?_
  exact yields_ite (fun _ => ⟨nofun, nofun⟩) fun _ => trivial

theorem floor?_of_occupied (h : Inv s) (hx : Occupied s.m_buffers x) :
    ∃ b, floor? s.m_buffers x = some b ∧ b.isInBounds x 1 = true := by
  obtain ⟨b, hb, hbx⟩ := hx
  refine ⟨b, h.ordered.floor?_of_covers h.proper hb hbx, isInBounds_iff.mpr ?_⟩
  have h1 : b.vaddr ≤ x := hbx.1
  have h2 : x < b.vaddr + b.size := hbx.2
  omega

theorem copyRange_yields (h : Inv s) {range : Run}
    (howned : ∀ x, range.start ≤ x → x < range.start + range.size → Occupied s.m_buffers x)
    (fuel copied : ℕ) : Yields Stops (copyRange s.m_buffers range fuel copied) fun _ => True := by
  induction fuel generalizing copied with
  | zero => trivial
  | succ fuel ih =>
    refine yields_ite (fun hmore => ?_) fun _ => trivial
    obtain ⟨b, hfloor, hbounds⟩ := floor?_of_occupied h
      (howned (range.start + copied) (Nat.le_add_right _ _) (Nat.add_lt_add_left hmore _))
    dsimp only
    rw [hfloor]
    dsimp only
    rw [hbounds]
    exact yields_ite nofun fun _ => yields_map (ih _)

theorem readbackCopies_yields (h : Owned s) (func : List (ℕ × ℕ)) :
    Yields Stops (readbackCopies s func) fun _ => True := by
  refine yields_foldlM_true fun r copies => ?_
  refine (yields_orInvalidRange fun _ h => h).bind fun ranges hranges => ?_
  have hinside := intersections_spec hranges
  let I : List Run → List DownloadCopy → Prop := fun rest _ => ∀ range ∈ rest, range ∈ ranges
  refine (yields_foldlM (show I ranges copies from fun _ h => h)
    fun range rest copies hrest => ?_).mono fun _ _ => trivial
  have hrange := (hinside range (hrest range mem_cons_self)).2.2.2
  refine (copyRange_yields h.toInv (fun x h1 h2 => h.owned x (hrange x h1 h2)) _ _).bind
    fun _ _ => yields_pure fun q hq => hrest q (.tail _ hq)

theorem recordDownloads_yields (h : s.m_pending_operations = []) (copies : List DownloadCopy)
    (waited : ℕ) : Yields Stops (recordDownloads copies waited s) fun result =>
      result.2 = s := by
  refine (reservationSize_stops copies).bind fun size _ => ?_
  refine yields_ite (fun _ => yields_pure rfl) fun _ => ?_
  refine yields_ite (fun _ => ⟨nofun, nofun⟩) fun _ => ?_
  rw [runPending_settled h]
  exact yields_pure rfl

/-- **`ReadMemoryOnGpu`** keeps it. -/
theorem readMemoryOnGpu_yields (h : Owned s) (vaddr size : ℕ) (is_write : Bool) (waited : ℕ) :
    Yields Stops (readMemoryOnGpu vaddr size is_write waited s) Owned := by
  have hregistered : Yields Stops
      (if is_write then isRegionRegistered vaddr size s else .ok true) fun _ => True := by
    refine yields_ite (fun _ => ?_) fun _ => trivial
    refine yields_ite (fun _ => ⟨nofun, nofun⟩) fun _ => ?_
    split <;> trivial
  refine hregistered.bind fun registered _ => ?_
  refine yields_ite (fun _ => yields_pure h) fun _ => ?_
  refine (yields_lift (forEachDownloadRange_yields h.tracker noOthers_lt false vaddr
    size)).bind fun found ht => ?_
  obtain ⟨_, func, t⟩ := found
  have hs : Owned { s with m_memory_tracker := t } := h.setTracker ht
  refine (readbackCopies_yields hs func).bind fun copies _ => ?_
  refine yields_ite (fun _ => ?_) fun _ => ?_
  · refine yields_ite (fun _ => yields_pure hs) fun _ => ?_
    exact (yields_lift (markRegionAsCpuModified_yields ht noOthers_lt true vaddr
      size)).bind fun t' ht' => yields_pure (h.setTracker ht')
  · refine (recordDownloads_yields hs.settled copies waited).bind fun recorded hrecorded => ?_
    obtain ⟨downloads, s'⟩ := recorded
    subst hrecorded
    dsimp only
    rw [runPending_settled hs.settled]
    refine (subtractDownloads_yields h.ranges downloads).bind fun ranges hranges => ?_
    refine (yields_lift (unmarkRegionAsGpuModified_yields ht noOthers_lt true vaddr
      size)).bind fun t1 ht1 => ?_
    refine .bind (P := MemoryTracker.Coherent noOthers) ?_ fun t2 ht2 => yields_pure ?_
    · exact yields_ite (fun _ => yields_lift
        (markRegionAsCpuModified_yields ht1 noOthers_lt true vaddr size))
        fun _ => yields_pure ht1
    · exact ⟨⟨h.ordered, h.proper, h.pages, hranges.1, ht2⟩,
        fun x hx => h.owned x (hranges.2.1 x hx), h.settled⟩

/-- **`InvalidateMemory`** keeps it. -/
theorem invalidateMemory_yields (h : Owned s) (vaddr size waited : ℕ) :
    Yields Stops (invalidateMemory vaddr size waited s) Owned := by
  refine yields_ite (fun _ => ⟨nofun, nofun⟩) fun hrange => ?_
  have hvalid := MemoryTracker.pieces_valid
    (show MemoryTracker.validateRange vaddr size = .ok () from if_neg hrange)
  let I : List Piece → BufferCache → Prop := fun rest s => (∀ p ∈ rest, p.Valid) ∧ Owned s
  refine (yields_foldlM (show I _ s from ⟨hvalid, h⟩) fun p rest s hs => ?_).mono
    fun _ hresult => hresult.2
  obtain ⟨hall, hs⟩ := hs
  have hrest : ∀ q ∈ rest, q.Valid := fun q hq => hall q (mem_cons_of_mem _ hq)
  have hp := hall p mem_cons_self
  unfold invalidatePiece
  cases hm : s.m_memory_tracker.m_regions p.index with
  | none => exact ⟨hrest, hs⟩
  | some manager =>
    obtain ⟨modified, heq, -⟩ := RegionManager.isModified_eq .gpu manager hp.bytes_pos hp.inside
    dsimp only
    rw [heq]
    refine yields_ite (fun _ => ?_) fun _ => ?_
    · exact (readMemoryOnGpu_yields hs vaddr size true waited).mono fun _ h => ⟨hrest, h⟩
    · exact (yields_lift (changeState_visit hs.tracker noOthers_lt .cpu true hp
        hm)).bind fun result hresult => yields_pure ⟨hrest, hs.setTracker hresult.1⟩

end MagnusPS5.Graphics.BufferCache
