/-
The ranges that `ForEachDownloadRange` reports.

A run of dirty pages of a region lies in the pages that were asked for, and the parts of a
range lie in the range. For a range of whole pages, therefore, **`forEachDownloadRange_inside`**:
everything that is reported lies in the range.
-/
import MagnusPS5.Graphics.MemoryTrackerSpec
import MagnusPS5.Lib.Checks

namespace MagnusPS5.Graphics.MemoryTracker

open Lib
open Common (BitArray)
open RegionManager List

variable {offset size vaddr : ℕ} {source : DirtySource} {ranges : List (ℕ × ℕ)}

theorem forEachModifiedRange_inside {m : RegionManager} {pm : PageManager}
    (hsize : 0 < size) (hin : offset + size ≤ TRACKER_REGION_SIZE)
    {result : RegionManager × PageManager}
    (h : RegionManager.forEachModifiedRange source false m pm (m.m_cpu_addr + offset) size =
      .ok (ranges, result)) :
    ∀ r ∈ ranges, m.m_cpu_addr + RegionManager.firstPage offset * TRACKER_PAGE_SIZE ≤ r.1 ∧
      r.1 + r.2 ≤ m.m_cpu_addr + endPage offset size * TRACKER_PAGE_SIZE := by
  obtain ⟨hlt, hle⟩ := page_bounds hsize hin
  unfold RegionManager.forEachModifiedRange at h
  rw [m.getPageRange_eq hsize hin] at h
  have hranges := (Prod.mk.inj (Except.ok.inj h)).1
  intro r hr
  rw [← hranges] at hr
  obtain ⟨range, hrange, rfl⟩ := mem_map.mp hr
  obtain ⟨-, h1, h2, h3, -⟩ := ((BitArray.ranges_spec _).2 range).mp hrange
  have hcopy : ∀ i, range.1 ≤ i → i < range.2 → firstPage offset ≤ i ∧ i < endPage offset size := by
    intro i hi1 hi2
    have hget := h3 i hi1 hi2
    rw [BitArray.get_copyRange hlt hle (by omega)] at hget
    split_ifs at hget with hin
    exact hin
  have hfirst := (hcopy range.1 (le_rfl) h1).1
  have hlast := (hcopy (range.2 - 1) (by omega) (by omega)).2
  dsimp only
  unfold TRACKER_PAGE_SIZE
  omega

/-- A part of a range of whole pages. -/
def Piece.In (vaddr size : ℕ) (p : Piece) : Prop :=
  vaddr ≤ p.index * TRACKER_REGION_SIZE + p.offset ∧
    p.index * TRACKER_REGION_SIZE + p.offset + p.bytes ≤ vaddr + size ∧
    p.offset % TRACKER_PAGE_SIZE = 0 ∧ p.bytes % TRACKER_PAGE_SIZE = 0

theorem next_piece_in {index next remaining : ℕ}
    (hnext : next = index * 4194304 + 4194304) (hoffset : offset < 4194304)
    (hmore : 4194304 - offset ≤ remaining) (hbegin : vaddr ≤ index * 4194304 + offset)
    (hend : index * 4194304 + offset + remaining = vaddr + size) :
    vaddr ≤ next + 0 ∧ next + 0 + (remaining - (4194304 - offset)) = vaddr + size := by omega

theorem piecesLoop_in {fuel remaining index : ℕ}
    (hoffset : offset < TRACKER_REGION_SIZE) (hoffset_page : offset % TRACKER_PAGE_SIZE = 0)
    (hpage : remaining % TRACKER_PAGE_SIZE = 0)
    (hbegin : vaddr ≤ index * TRACKER_REGION_SIZE + offset)
    (hend : index * TRACKER_REGION_SIZE + offset + remaining = vaddr + size) :
    ∀ p ∈ piecesLoop fuel remaining index offset, Piece.In vaddr size p := by
  unfold TRACKER_REGION_SIZE TRACKER_PAGE_SIZE at *
  induction fuel generalizing remaining index offset with
  | zero => rintro p ⟨⟩
  | succ fuel ih =>
    intro p hp
    unfold piecesLoop at hp
    split_ifs at hp with hremaining
    · rcases mem_cons.mp hp with rfl | hp
      · refine ⟨hbegin, ?_, hoffset_page, ?_⟩
        · show index * 4194304 + offset + min (4194304 - offset) remaining ≤ vaddr + size
          omega
        · show min (4194304 - offset) remaining % 4096 = 0
          omega
      · by_cases hmore : 4194304 - offset ≤ remaining
        · have hmin : min (TRACKER_REGION_SIZE - offset) remaining = 4194304 - offset := by
            unfold TRACKER_REGION_SIZE
            omega
          rw [hmin] at hp
          obtain ⟨hbegin', hend'⟩ :=
            next_piece_in (Nat.succ_mul index 4194304) hoffset hmore hbegin hend
          exact ih (Nat.zero_lt_succ 4194303) (Nat.zero_mod 4096) (by omega) hbegin' hend' p hp
        · -- the range ends in this region
          have hzero : remaining - min (TRACKER_REGION_SIZE - offset) remaining = 0 := by
            unfold TRACKER_REGION_SIZE
            omega
          rw [hzero] at hp
          cases fuel <;> cases hp
    · cases hp

theorem pieces_in (hvaddr : vaddr % TRACKER_PAGE_SIZE = 0)
    (hsize : size % TRACKER_PAGE_SIZE = 0) : ∀ p ∈ pieces vaddr size, Piece.In vaddr size p := by
  unfold TRACKER_PAGE_SIZE at hvaddr hsize
  refine piecesLoop_in (Nat.mod_lt _ (by decide)) ?_ hsize ?_ ?_
  all_goals
    unfold TRACKER_REGION_SIZE
    try unfold TRACKER_PAGE_SIZE
    omega

variable {others : ℕ → ℕ → ℕ} {t : MemoryTracker}

section

variable (h : Coherent others t) (hvaddr : vaddr % TRACKER_PAGE_SIZE = 0)
  (hsize : size % TRACKER_PAGE_SIZE = 0)

include h hvaddr hsize

/-- A pass over the dirty pages of a range of whole pages changes nothing, and what it reports
lies in the range. -/
theorem iterate_modified_inside {t' : MemoryTracker}
    (heq : iterate false vaddr size (forEachModifiedRange source false) t = .ok (ranges, t')) :
    t' = t ∧ ∀ r ∈ ranges, vaddr ≤ r.1 ∧ r.1 + r.2 ≤ vaddr + size := by
  have hyields : Yields (fun _ => True)
      (iterate false vaddr size (forEachModifiedRange source false) t)
      fun result => result.2 = t ∧ ∀ r ∈ result.1, vaddr ≤ r.1 ∧ r.1 + r.2 ≤ vaddr + size := by
    refine ((validateRange_yields (fun _ => True) vaddr size).mono_error
      fun _ _ => trivial).bind fun _ hvalid => ?_
    have hin := pieces_in hvaddr hsize
    let I : List Piece → List (ℕ × ℕ) × MemoryTracker → Prop := fun rest acc =>
      (∀ q ∈ rest, q.Valid ∧ Piece.In vaddr size q) ∧ acc.2 = t ∧
        ∀ r ∈ acc.1, vaddr ≤ r.1 ∧ r.1 + r.2 ≤ vaddr + size
    have hstart : I (pieces vaddr size) ([], t) :=
      ⟨fun q hq => ⟨hvalid q hq, hin q hq⟩, rfl, fun r hr => nomatch hr⟩
    refine (yields_foldlM hstart fun p rest acc hacc => ?_).mono fun _ hresult => hresult.2
    obtain ⟨hall, hsame, hranges⟩ := hacc
    have hrest : ∀ q ∈ rest, q.Valid ∧ Piece.In vaddr size q :=
      fun q hq => hall q (.tail _ hq)
    obtain ⟨hp, hpin⟩ := hall p mem_cons_self
    rw [visitPiece_eq]
    show Yields _ (visitRegion _ acc.1 p acc.2) _
    unfold visitRegion
    rw [hsame]
    cases hm : t.m_regions p.index with
    | none => exact ⟨hrest, rfl, hranges⟩
    | some m =>
      obtain ⟨found, hfound⟩ := forEachModifiedRange_visit_false source hp hm
      dsimp only
      rw [hfound]
      refine ⟨hrest, rfl, fun r hr => ?_⟩
      rcases mem_append.mp hr with hr | hr
      · exact hranges r hr
      · -- the pages of the part are those of the range
        obtain ⟨result, hresult⟩ := RegionManager.forEachModifiedRange_false source m
          t.m_page_manager hp.bytes_pos hp.inside
        unfold forEachModifiedRange at hfound
        rw [hresult] at hfound
        obtain rfl := (Prod.mk.inj (Except.ok.inj hfound)).1
        obtain ⟨h1, h2⟩ := forEachModifiedRange_inside hp.bytes_pos hp.inside hresult r hr
        have haddr := (h.region p.index m hm).2.addr
        obtain ⟨g1, g2, g3, g4⟩ := hpin
        rw [haddr] at h1 h2
        unfold RegionManager.firstPage at h1
        unfold endPage at h2
        unfold TRACKER_PAGE_SIZE at g3 g4 h1 h2
        omega
  exact hyields.of_ok heq

/-- **What `ForEachDownloadRange` reports** of a range of whole pages lies in the range; without
`clear` the tracker stays as it is. -/
theorem forEachDownloadRange_inside {preflight func : List (ℕ × ℕ)} {t' : MemoryTracker}
    (heq : forEachDownloadRange false vaddr size t = .ok (preflight, func, t')) :
    t' = t ∧ ∀ r ∈ func, vaddr ≤ r.1 ∧ r.1 + r.2 ≤ vaddr + size := by
  unfold forEachDownloadRange at heq
  obtain ⟨first, h1, heq⟩ := bind_eq_ok.mp heq
  obtain ⟨hfirst, -⟩ := iterate_modified_inside h hvaddr hsize h1
  cases h2 : iterate false vaddr size (forEachModifiedRange .gpu false) first.2 with
  | error e =>
    change ((iterate false vaddr size (forEachModifiedRange .gpu false) first.2) >>= _) = _ at heq
    rw [h2] at heq
    nomatch heq
  | ok second =>
    change ((iterate false vaddr size (forEachModifiedRange .gpu false) first.2) >>= _) = _ at heq
    rw [h2] at heq
    obtain ⟨-, hfunc, rfl⟩ := Prod.mk.injEq .. ▸ Except.ok.inj heq
    rw [hfirst] at h2
    exact iterate_modified_inside h hvaddr hsize h2

end

end MagnusPS5.Graphics.MemoryTracker
