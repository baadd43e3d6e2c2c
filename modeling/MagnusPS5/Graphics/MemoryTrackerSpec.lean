/-
`Coherent` is the invariant of the memory tracker: each region that exists has its
invariant, and where no region exists the tracker has no watchers.
-/
import MagnusPS5.Graphics.MemoryTracker

namespace MagnusPS5.Graphics

open Lib
open Common (BitArray)
open RegionManager Function List MemoryTracker Option

/-! ## The parts of a range -/

/-- What `Iterate` says of a part: it is not empty and lies in its region. -/
structure Piece.Valid (p : Piece) : Prop where
  index_lt : p.index < REGION_COUNT
  bytes_pos : 0 < p.bytes
  inside : p.offset + p.bytes ≤ TRACKER_REGION_SIZE

namespace MemoryTracker

variable {index offset remaining k : ℕ} {pm : PageManager} {value : Bool} {t' : MemoryTracker}
  {m' : RegionManager} {e : Abort}

theorem next_piece_end {next : ℕ} (hnext : next = index * 4194304 + 4194304)
    (hoffset : offset < 4194304) (hend : index * 4194304 + offset + remaining ≤ 1099511627776)
    (hremaining : remaining ≠ 0) :
    next + 0 + (remaining - min (4194304 - offset) remaining) ≤ 1099511627776 := by omega

theorem piecesLoop_valid {fuel : ℕ} (hoffset : offset < TRACKER_REGION_SIZE)
    (hend : index * 4194304 + offset + remaining ≤ 1099511627776) :
    ∀ p ∈ piecesLoop fuel remaining index offset, p.Valid := by
  induction fuel generalizing remaining index offset with
  | zero => exact fun p hp => absurd hp (not_mem_nil)
  | succ fuel ih =>
    intro p hp
    unfold piecesLoop at hp
    have hoffset' : offset < 4194304 := hoffset
    by_cases hremaining : remaining ≠ 0
    · rw [if_pos hremaining] at hp
      rcases mem_cons.mp hp with rfl | hp
      · -- the part in the region `index`
        refine ⟨?_, ?_, ?_⟩
        · show index < 262144
          omega
        · show 0 < min (4194304 - offset) remaining
          omega
        · show offset + min (4194304 - offset) remaining ≤ 4194304
          omega
      · -- the parts after it start at the beginning of a region
        have hnext := next_piece_end (Nat.succ_mul index 4194304) hoffset' hend hremaining
        exact ih (Nat.zero_lt_succ 4194303) hnext p hp
    · rw [if_neg hremaining] at hp
      exact absurd hp (not_mem_nil)

variable {vaddr size first last : ℕ} {m : RegionManager}

theorem pieces_valid (h : validateRange vaddr size = .ok ()) :
    ∀ p ∈ pieces vaddr size, p.Valid := by
  unfold validateRange at h
  split at h
  · nomatch h
  next hrange =>
    unfold TRACKER_ADDRESS_SIZE at hrange
    refine piecesLoop_valid (Nat.mod_lt _ (by decide)) ?_
    have hsplit : vaddr / 4194304 * 4194304 + vaddr % 4194304 = vaddr := by omega
    rw [hsplit]
    omega

/-! ## The invariant -/

/-- The invariant of the tracker. `others region page` is the number of write watchers that
other users of the page manager have put on a page. -/
structure Coherent (others : ℕ → ℕ → ℕ) (t : MemoryTracker) : Prop where
  region : ∀ k m, t.m_regions k = some m →
    k < REGION_COUNT ∧ RegionManager.RegionInv (others k) m t.m_page_manager k
  no_region : ∀ k, t.m_regions k = none → ∀ i, i < TRACKER_REGION_PAGES →
    t.m_page_manager.count false k i = others k i ∧ t.m_page_manager.count true k i = 0

/-- No page of the part is dirty for `source`, as far as its region exists. -/
def Clean (source : DirtySource) (p : Piece) (t : MemoryTracker) : Prop :=
  ∀ m, t.m_regions p.index = some m → ∀ i, RegionManager.firstPage p.offset ≤ i →
    i < RegionManager.endPage p.offset p.bytes → (m.getBits source).get i = false

variable {others : ℕ → ℕ → ℕ} {t : MemoryTracker} {source : DirtySource} {p : Piece}

theorem coherent_new (hpm : ∀ k i, i < TRACKER_REGION_PAGES → pm.count false k i = others k i ∧
      pm.count true k i = 0) : Coherent others (new pm) where
  region k m hm := absurd hm (by simp [new])
  no_region k _ i hi := hpm k i hi

theorem regionInv_new {count : ℕ → ℕ}
    (hpm : ∀ i, i < TRACKER_REGION_PAGES → pm.count false k i = count i ∧ pm.count true k i = 0) :
    ∃ m, RegionManager.new (k * TRACKER_REGION_SIZE) = .ok m ∧
      RegionManager.RegionInv count m pm k ∧
      ∀ i, m.m_gpu_dirty.get i = false := by
  have hmod : k * TRACKER_REGION_SIZE % TRACKER_REGION_SIZE = 0 := Nat.mul_mod_left _ _
  refine ⟨_, if_neg (by rw [hmod]; simp), ⟨rfl, fun i _ _ => BitArray.get_clear i, rfl, ?_,
    fun i hi => ?_, fun i hi => ?_⟩, BitArray.get_clear⟩
  · refine BitArray.ext_get fun i hi => ?_
    rw [BitArray.get_not hi, BitArray.get_clear, BitArray.get_fill hi]
    rfl
  · rw [BitArray.get_fill hi, if_pos rfl]
    exact (hpm i hi).1
  · rw [BitArray.get_clear, if_neg (by simp)]
    exact (hpm i hi).2

/-- **`GetOrCreateRegion`** never fails for an index of the table. A region that it makes
has no page that is dirty for the GPU. -/
theorem getOrCreateRegion_spec (h : Coherent others t) (hk : k < REGION_COUNT) :
    ∃ t', getOrCreateRegion k t = .ok t' ∧ Coherent others t' ∧
      ∀ p, Clean .gpu p t → Clean .gpu p t' := by
  unfold getOrCreateRegion
  cases hm : t.m_regions k with
  | some m => exact ⟨t, rfl, h, fun p hp => hp⟩
  | none =>
    obtain ⟨m, hnew, hinv, hgpu⟩ := regionInv_new (h.no_region k hm)
    simp only [hnew]
    refine ⟨_, rfl, ⟨fun j m' hm' => ?_, fun j hj => ?_⟩, fun p hp m' hm' i h1 h2 => ?_⟩
    · by_cases hjk : j = k
      · subst hjk
        simp only [update_self, Option.some.injEq] at hm'
        subst hm'
        exact ⟨hk, hinv⟩
      · simp only [update_of_ne hjk] at hm'
        exact h.region j m' hm'
    · by_cases hjk : j = k
      · subst hjk
        simp at hj
      · simp only [update_of_ne hjk] at hj
        exact h.no_region j hj
    · by_cases hpk : p.index = k
      · subst hpk
        simp only [update_self, some.injEq] at hm'
        subst hm'
        exact hgpu i
      · simp only [update_of_ne hpk] at hm'
        exact hp m' hm' i h1 h2

theorem Coherent.put (h : Coherent others t) (hm : t.m_regions p.index = some m)
    {result : RegionManager × PageManager}
    (hresult : RegionManager.Changed (others p.index) source first last value m
      t.m_page_manager p.index result) : Coherent others (t.put p.index result) := by
  obtain ⟨hinv, hbits, hframe⟩ := hresult
  refine ⟨fun j m' hm' => ?_, fun j hj i hi => ?_⟩
  · by_cases hj : j = p.index
    · subst hj
      simp only [MemoryTracker.put, update_self, Option.some.injEq] at hm'
      subst hm'
      exact ⟨(h.region _ m hm).1, hinv⟩
    · simp only [MemoryTracker.put, update_of_ne hj] at hm'
      obtain ⟨hlt, hold⟩ := h.region j m' hm'
      exact ⟨hlt, hold.addr, hold.disjoint, hold.writable, hold.readable,
        fun i hi => (hframe.2 j i false hj).trans (hold.write_count i hi),
        fun i hi => (hframe.2 j i true hj).trans (hold.access_count i hi)⟩
  · by_cases hjk : j = p.index
    · subst hjk
      simp [MemoryTracker.put] at hj
    · simp only [MemoryTracker.put, update_of_ne hjk] at hj
      obtain ⟨hwrite, haccess⟩ := h.no_region j hj i hi
      exact ⟨(hframe.2 j i false hjk).trans hwrite, (hframe.2 j i true hjk).trans haccess⟩

/-! ## Going over the regions of a range -/

/-- The range check stopped the operation, or what `E` allows. -/
def OrInvalidRange (E : Abort → Prop) (e : Abort) : Prop := e = .invalidTrackerRange ∨ E e

theorem validateRange_yields (E : Abort → Prop) (vaddr size : ℕ) :
    Yields (OrInvalidRange E) (validateRange vaddr size) fun _ =>
      ∀ p ∈ pieces vaddr size, p.Valid := by
  cases h : validateRange vaddr size with
  | ok u => exact pieces_valid h
  | error e =>
    unfold validateRange at h
    split at h
    · exact .inl (Except.error.inj h).symm
    · nomatch h

/-- One round of `Iterate`, once the region of the part is there if it has to be. -/
def visitRegion (visit : Visit) (acc : List (ℕ × ℕ)) (p : Piece) (t : MemoryTracker) :
    Except Abort (List (ℕ × ℕ) × MemoryTracker) :=
  match t.m_regions p.index with
  | none => return (acc, t)
  | some manager => do
      let (ranges, t) ← visit p manager t
      return (acc ++ ranges, t)

theorem visitPiece_eq (create : Bool) (visit : Visit) (acc : List (ℕ × ℕ) × MemoryTracker)
    (p : Piece) : visitPiece create visit acc p =
      ((if create = true then getOrCreateRegion p.index acc.2 else pure acc.2) >>=
        visitRegion visit acc.1 p) := by
  cases create <;> rfl

/-- **`Iterate`.** `P rest t` is an invariant that may speak of the parts that are left. It
has to survive the creation of a region, if regions are created, a part without a region,
and a visit. -/
theorem iterate_yields {E : Abort → Prop} {create : Bool} {visit : Visit}
    {P : List Piece → MemoryTracker → Prop} (h : P (pieces vaddr size) t)
    (hcreate : create = true → ∀ p rest t, p.Valid → P (p :: rest) t →
      Yields E (getOrCreateRegion p.index t) (P (p :: rest)))
    (hskip : ∀ p rest t, p.Valid → P (p :: rest) t → t.m_regions p.index = none → P rest t)
    (hvisit : ∀ p rest t m, p.Valid → P (p :: rest) t → t.m_regions p.index = some m →
      Yields E (visit p m t) fun result => P rest result.2) :
    Yields (OrInvalidRange E) (iterate create vaddr size visit t) fun result =>
      P [] result.2 := by
  refine (validateRange_yields E vaddr size).bind fun _ hvalid => ?_
  let I : List Piece → List (ℕ × ℕ) × MemoryTracker → Prop := fun rest acc =>
    (∀ q ∈ rest, q.Valid) ∧ P rest acc.2
  have hloop : Yields E ((pieces vaddr size).foldlM (visitPiece create visit) ([], t)) (I []) := by
    refine yields_foldlM (show I _ ([], t) from ⟨hvalid, h⟩) fun p rest acc hacc => ?_
    obtain ⟨hall, hP⟩ := hacc
    have hrest : ∀ q ∈ rest, q.Valid := fun q hq => hall q (.tail _ hq)
    have hp : p.Valid := hall p mem_cons_self
    have hregion : Yields E (if create = true then getOrCreateRegion p.index acc.2 else pure acc.2)
        (P (p :: rest)) :=
      yields_ite (fun hc => hcreate hc p rest acc.2 hp hP) fun _ => yields_pure hP
    rw [visitPiece_eq]
    refine hregion.bind fun t' ht' => ?_
    unfold visitRegion
    cases hm : t'.m_regions p.index with
    | none => exact ⟨hrest, hskip p rest t' hp ht' hm⟩
    | some m =>
      exact (hvisit p rest t' m hp ht' hm).bind fun result hresult =>
        yields_pure ⟨hrest, hresult⟩
  exact (hloop.mono fun _ hresult => hresult.2).mono_error fun e he => .inr he

theorem create_yields (E : Abort → Prop) (h : Coherent others t) (hp : p.Valid) :
    Yields E (getOrCreateRegion p.index t) fun t' =>
      Coherent others t' ∧ ∀ q, Clean .gpu q t → Clean .gpu q t' := by
  obtain ⟨t', heq, ht', hclean⟩ := getOrCreateRegion_spec h hp.index_lt
  rw [heq]
  exact ⟨ht', hclean⟩

/-! ## What a visit does to the bits -/

theorem changeState_visit (h : Coherent others t) (hothers : ∀ k i, others k i < 0x7f)
    (source : DirtySource) (enable : Bool) (hp : p.Valid) (hm : t.m_regions p.index = some m) :
    Yields (fun e => PageManager.Refused e ∨ (enable = true ∧
        RegionManager.Conflict source (firstPage p.offset)
          (endPage p.offset p.bytes) m e))
      (changeState source enable p m t) fun result =>
      Coherent others result.2 ∧
        ∃ m', result.2.m_regions = update t.m_regions p.index (some m') ∧
          RegionManager.BitsSet source (firstPage p.offset)
            (endPage p.offset p.bytes) enable m m' := by
  obtain ⟨hlt, hinv⟩ := h.region p.index m hm
  exact (changeState_yields hinv (hothers p.index) hlt source enable hp.bytes_pos
    hp.inside).bind fun result hresult =>
      yields_pure ⟨h.put hm hresult, result.1, rfl, hresult.2.1⟩

theorem forEachModifiedRange_visit (h : Coherent others t) (hothers : ∀ k i, others k i < 0x7f)
    (source : DirtySource) (hp : p.Valid) (hm : t.m_regions p.index = some m) :
    Yields PageManager.Refused (forEachModifiedRange source true p m t) fun result =>
      Coherent others result.2 ∧
        ∃ m', result.2.m_regions = update t.m_regions p.index (some m') ∧
          RegionManager.BitsSet source (firstPage p.offset)
            (endPage p.offset p.bytes) false m m' := by
  obtain ⟨hlt, hinv⟩ := h.region p.index m hm
  exact (forEachModifiedRange_yields hinv (hothers p.index) hlt source hp.bytes_pos
    hp.inside).bind fun result hresult =>
      yields_pure ⟨h.put hm hresult, result.2.1, rfl, hresult.2.1⟩

theorem forEachModifiedRange_visit_false (source : DirtySource) (hp : p.Valid)
    (hm : t.m_regions p.index = some m) :
    ∃ ranges, forEachModifiedRange source false p m t = .ok (ranges, t) := by
  obtain ⟨ranges, heq⟩ := forEachModifiedRange_false source m t.m_page_manager
    hp.bytes_pos hp.inside
  refine ⟨ranges, ?_⟩
  unfold forEachModifiedRange
  rw [heq]
  show Except.ok (ranges, t.put p.index (m, t.m_page_manager)) = _
  unfold put
  rw [← hm, update_eq_self]

theorem Clean.change {q : Piece} (h : Clean source q t) (hm : t.m_regions p.index = some m)
    (ht' : t'.m_regions = update t.m_regions p.index (some m')) {s : DirtySource}
    (hlast : endPage q.offset q.bytes ≤ 1024)
    (hbits : RegionManager.BitsSet s first last value m m') (hother : s ≠ source ∨ value = false) :
    Clean source q t' := by
  intro n hn i h1 h2
  rw [ht'] at hn
  by_cases hq : q.index = p.index
  · rw [hq, update_self, some.injEq] at hn
    subst hn
    have hi : i < TRACKER_REGION_PAGES := lt_of_lt_of_le h2 hlast
    rw [hbits source i hi]
    have hold := h m (hq ▸ hm) i h1 h2
    split
    · rcases hother with hne | hvalue
      · exact absurd (‹source = s ∧ _›).1.symm hne
      · exact hvalue
    · exact hold
  · rw [update_of_ne hq] at hn
    exact h n hn i h1 h2

theorem clean_cleared (ht' : t'.m_regions = update t.m_regions p.index (some m')) (hp : p.Valid)
    (hbits : RegionManager.BitsSet source (firstPage p.offset)
      (endPage p.offset p.bytes) false m m') : Clean source p t' := by
  intro n hn i h1 h2
  rw [ht', update_self, some.injEq] at hn
  subst hn
  have hi := lt_of_lt_of_le h2 (page_bounds hp.bytes_pos hp.inside).2
  rw [hbits source i hi, if_pos ⟨rfl, h1, h2⟩]

/-! ## Queries -/

/-- No page of the range is dirty for `source`, as far as its region exists. -/
def AllClean (source : DirtySource) (vaddr size : ℕ) (t : MemoryTracker) : Prop :=
  ∀ q ∈ pieces vaddr size, q.Valid ∧ Clean source q t

variable {test : RegionManager → ℕ → ℕ → Except Abort Bool}

theorem iterateAnyLoop_absent (rest : List Piece) (hm : t.m_regions p.index = none) :
    iterateAnyLoop false test (p :: rest) t = iterateAnyLoop false test rest t := by
  rw [iterateAnyLoop]
  simp [hm]

theorem iterateAnyLoop_present (rest : List Piece) (hm : t.m_regions p.index = some m) {stop : Bool}
    (htest : test m p.offset p.bytes = .ok stop) :
    iterateAnyLoop false test (p :: rest) t =
      if stop = true then .ok (true, t) else iterateAnyLoop false test rest t := by
  rw [iterateAnyLoop, if_neg (by simp)]
  simp only [pure_bind, hm, htest]
  rfl

theorem iterateAnyLoop_spec (source : DirtySource) (l : List Piece) (t : MemoryTracker)
    (hl : ∀ q ∈ l, q.Valid) :
    ∃ modified, iterateAnyLoop false (isModified source) l t = .ok (modified, t) ∧
      (modified = false → ∀ q ∈ l, Clean source q t) := by
  induction l with
  | nil => exact ⟨false, rfl, fun _ q hq => absurd hq (not_mem_nil)⟩
  | cons p rest ih =>
    obtain ⟨modified, heq, hclean⟩ := ih fun q hq => hl q (.tail _ hq)
    have hp := hl p mem_cons_self
    cases hm : t.m_regions p.index with
    | none =>
      refine ⟨modified, ?_, fun hf q hq => ?_⟩
      · rw [iterateAnyLoop_absent rest hm, heq]
      · rcases mem_cons.mp hq with rfl | hq
        · exact fun m hm' => nomatch (hm.symm.trans hm')
        · exact hclean hf q hq
    | some m =>
      obtain ⟨stop, htest, hstop⟩ := isModified_eq source m hp.bytes_pos hp.inside
      cases stop with
      | true =>
        refine ⟨true, ?_, nofun⟩
        rw [iterateAnyLoop_present rest hm htest, if_pos rfl]
      | false =>
        refine ⟨modified, ?_, fun hf q hq => ?_⟩
        · rw [iterateAnyLoop_present rest hm htest, if_neg (by simp), heq]
        · rcases mem_cons.mp hq with rfl | hq
          · intro n hn i h1 h2
            obtain rfl : m = n := some.inj (hm.symm.trans hn)
            by_contra hset
            nomatch (hstop.mpr ⟨i, h1, h2, Bool.eq_true_of_not_eq_false hset⟩)
          · exact hclean hf q hq

/-- **`IsRegionGpuModified`** changes nothing. If it denies, the range is clean. -/
theorem isRegionGpuModified_yields (E : Abort → Prop) (vaddr size : ℕ) (t : MemoryTracker) :
    Yields (OrInvalidRange E) (isRegionGpuModified vaddr size t) fun result =>
      result.2 = t ∧ (result.1 = false → AllClean .gpu vaddr size t) := by
  refine (validateRange_yields E vaddr size).bind fun _ hvalid => ?_
  obtain ⟨modified, heq, hclean⟩ := iterateAnyLoop_spec .gpu (pieces vaddr size) t hvalid
  rw [heq]
  exact ⟨rfl, fun hf q hq => ⟨hvalid q hq, hclean hf q hq⟩⟩

/-- **`IsRegionCpuModified`** creates the regions that it looks at. -/
theorem isRegionCpuModified_yields (E : Abort → Prop) (vaddr size : ℕ) (h : Coherent others t) :
    Yields (OrInvalidRange E) (isRegionCpuModified vaddr size t) fun result =>
      Coherent others result.2 := by
  refine (validateRange_yields E vaddr size).bind fun _ hvalid => ?_
  generalize pieces vaddr size = l at hvalid
  induction l generalizing t with
  | nil => exact h
  | cons p rest ih =>
    have hp := hvalid p mem_cons_self
    refine (create_yields _ h hp).bind fun t' ht' => ?_
    have hrest := ih ht'.1 fun q hq => hvalid q (.tail _ hq)
    show Yields _ (match t'.m_regions p.index with | none => _ | some _ => _) _
    cases hm : t'.m_regions p.index with
    | none => exact hrest
    | some m =>
      obtain ⟨stop, htest, -⟩ := isModified_eq .cpu m hp.bytes_pos hp.inside
      simp only [htest]
      cases stop with
      | true => exact ht'.1
      | false => exact hrest

/-! ## Changes of state -/

/-- The other side. -/
def opposite : DirtySource → DirtySource
  | .cpu => .gpu
  | .gpu => .cpu

/-- The error that says that pages are dirty on the other side. -/
def conflictError : DirtySource → Abort
  | .cpu => .cpuConflictsWithGpu
  | .gpu => .gpuConflictsWithCpu

theorem conflict_error
    (h : RegionManager.Conflict source first last m e) : e = conflictError source := by
  cases source <;> exact h.1

theorem Clean.not_conflict (h : Clean (opposite source) p t) (hm : t.m_regions p.index = some m) :
    ¬ RegionManager.Conflict source (firstPage p.offset)
      (endPage p.offset p.bytes) m e := by
  intro hc
  cases source <;>
  · obtain ⟨-, i, h1, h2, hset⟩ := hc
    have hclean : _ = false := h m hm i h1 h2
    nomatch (hset.symm.trans hclean)

section

variable (h : Coherent others t) (hothers : ∀ k i, others k i < 0x7f)

include h hothers

/-- **A change of the bits of a range** keeps the invariant. Setting bits may find pages that
are dirty on the other side. -/
theorem iterate_changeState_yields
    (create : Bool) (source : DirtySource) (enable : Bool) (vaddr size : ℕ) :
    Yields (OrInvalidRange fun e =>
        PageManager.Refused e ∨ (enable = true ∧ e = conflictError source))
      (iterate create vaddr size (changeState source enable) t) fun result =>
      Coherent others result.2 := by
  refine iterate_yields (P := fun _ t => Coherent others t) h
    (fun _ p rest t hp ht => (create_yields _ ht hp).mono fun _ ht' => ht'.1)
    (fun p rest t _ ht _ => ht) fun p rest t m hp ht hm => ?_
  refine ((changeState_visit ht hothers source enable hp hm).mono fun _ hr => hr.1).mono_error
    fun e he => ?_
  exact he.imp id fun hc => ⟨hc.1, conflict_error hc.2⟩

/-- **Setting the bits of a range** that is clean on the other side finds no conflict. -/
theorem iterate_changeState_clean
    (create : Bool) (source : DirtySource) (hcreate : create = true → source = .cpu)
    (hclean : AllClean (opposite source) vaddr size t) :
    Yields (OrInvalidRange PageManager.Refused)
      (iterate create vaddr size (changeState source true) t) fun result =>
      Coherent others result.2 := by
  refine (iterate_yields (P := fun rest t => Coherent others t ∧
    (∀ q ∈ rest, q ∈ pieces vaddr size) ∧ AllClean (opposite source) vaddr size t)
    ⟨h, fun q hq => hq, hclean⟩ (fun hc p rest t hp ht => ?_) (fun p rest t _ ht _ => ?_)
    fun p rest t m hp ht hm => ?_).mono fun result hresult => hresult.1
  · -- a new region is clean for the GPU
    obtain rfl := hcreate hc
    exact (create_yields _ ht.1 hp).mono fun t' ht' =>
      ⟨ht'.1, ht.2.1, fun q hq => ⟨(ht.2.2 q hq).1, ht'.2 q (ht.2.2 q hq).2⟩⟩
  · exact ⟨ht.1, fun q hq => ht.2.1 q (.tail _ hq), ht.2.2⟩
  · obtain ⟨ht1, ht2, ht3⟩ := ht
    have hpclean := (ht3 p (ht2 p mem_cons_self)).2
    refine ((changeState_visit ht1 hothers source true hp hm).mono_error fun e he =>
      he.resolve_right fun hc => hpclean.not_conflict hm hc.2).mono fun result hresult => ?_
    obtain ⟨hcoherent, m', hregions, hbits⟩ := hresult
    refine ⟨hcoherent, fun q hq => ht2 q (.tail _ hq), fun q hq => ?_⟩
    obtain ⟨hq1, hq2⟩ := ht3 q hq
    exact ⟨hq1, hq2.change hm hregions (page_bounds hq1.bytes_pos hq1.inside).2 hbits
      (.inl (by cases source <;> decide))⟩

/-- **Clearing the bits of a range** keeps the invariant, and the range is clean then. -/
theorem iterate_clear_yields (source : DirtySource) (vaddr size : ℕ) :
    Yields (OrInvalidRange PageManager.Refused)
      (iterate false vaddr size (forEachModifiedRange source true) t) fun result =>
      Coherent others result.2 ∧ AllClean source vaddr size result.2 := by
  -- the parts that were visited are clean, and stay so
  refine (iterate_yields (P := fun rest t => Coherent others t ∧ ∃ done,
    pieces vaddr size = done ++ rest ∧ ∀ q ∈ done, q.Valid ∧ Clean source q t)
    ⟨h, [], rfl, fun q hq => absurd hq (not_mem_nil)⟩
    (fun hc => absurd hc (by simp)) (fun p rest t hp ht hm => ?_)
    fun p rest t m hp ht hm => ?_).mono fun result hresult => ?_
  · obtain ⟨hcoherent, done, hsplit, hdone⟩ := ht
    refine ⟨hcoherent, done ++ [p], by rw [hsplit, append_assoc]; rfl, fun q hq => ?_⟩
    rcases mem_append.mp hq with hq | hq
    · exact hdone q hq
    · obtain rfl := mem_singleton.mp hq
      exact ⟨hp, fun m hm' => absurd (hm.symm.trans hm') (by simp)⟩
  · obtain ⟨hcoherent, done, hsplit, hdone⟩ := ht
    refine (forEachModifiedRange_visit hcoherent hothers source hp hm).mono fun result hresult => ?_
    obtain ⟨hcoherent', m', hregions, hbits⟩ := hresult
    refine ⟨hcoherent', done ++ [p], by rw [hsplit, append_assoc]; rfl, fun q hq => ?_⟩
    rcases mem_append.mp hq with hq | hq
    · obtain ⟨hq1, hq2⟩ := hdone q hq
      exact ⟨hq1, hq2.change hm hregions (page_bounds hq1.bytes_pos hq1.inside).2 hbits (.inr rfl)⟩
    · obtain rfl := mem_singleton.mp hq
      exact ⟨hp, clean_cleared hregions hp hbits⟩
  · obtain ⟨hcoherent, done, hsplit, hdone⟩ := hresult
    rw [append_nil] at hsplit
    exact ⟨hcoherent, fun q hq => hdone q (hsplit ▸ hq)⟩

end

end MemoryTracker

end MagnusPS5.Graphics
