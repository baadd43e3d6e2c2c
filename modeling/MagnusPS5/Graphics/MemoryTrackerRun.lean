/-
Programs over the memory tracker.

`Program` is any composition of the operations: one after the other, chosen by the state,
and with a program as the callback of `InvalidateRegion`. `coherence` says what holds
after, and at every point inside, such a program.
-/
import MagnusPS5.Graphics.MemoryTrackerSpec

namespace MagnusPS5.Graphics.MemoryTracker

open Lib
open Common (BitArray)
open PageManager Function

variable {others : ℕ → ℕ → ℕ} {t : MemoryTracker}

/-! ## The operations keep the invariant -/

/-- What can stop a program: the host or a range that is checked, a caller that untracks
GPU-dirty memory, and a caller that marks pages which are dirty on the other side. Pages are
marked for the GPU outside of an upload only if `marks_gpu`. -/
inductive Stops (marks_gpu : Bool) : Abort → Prop
  | refused {e : Abort} : PageManager.Refused e → Stops marks_gpu e
  | invalidTrackerRange : Stops marks_gpu .invalidTrackerRange
  | untrackGpuDirty : Stops marks_gpu .untrackGpuDirty
  | cpuConflictsWithGpu : Stops marks_gpu .cpuConflictsWithGpu
  | gpuConflictsWithCpu : marks_gpu = true → Stops marks_gpu .gpuConflictsWithCpu

variable {marks_gpu : Bool}

theorem stops_of_refused {e : Abort}
    (h : OrInvalidRange PageManager.Refused e) : Stops marks_gpu e := by
  rcases h with rfl | h
  · exact .invalidTrackerRange
  · exact .refused h

section

variable (h : Coherent others t) (hothers : ∀ k i, others k i < 0x7f)

include h hothers

/-- **`MarkRegionAsCpuModified`** -/
theorem markRegionAsCpuModified_yields (marks_gpu : Bool) (vaddr size : ℕ) :
    Yields (Stops marks_gpu) (markRegionAsCpuModified vaddr size t) (Coherent others) := by
  refine yields_map ((iterate_changeState_yields h hothers true .cpu true vaddr size).mono_error ?_)
  rintro e (rfl | he | ⟨-, rfl⟩)
  · exact .invalidTrackerRange
  · exact .refused he
  · exact .cpuConflictsWithGpu

theorem markRegionAsGpuModified_yields (vaddr size : ℕ) :
    Yields (Stops true) (markRegionAsGpuModified vaddr size t) (Coherent others) := by
  refine yields_map ((iterate_changeState_yields h hothers true .gpu true vaddr size).mono_error ?_)
  rintro e (rfl | he | ⟨-, rfl⟩)
  · exact .invalidTrackerRange
  · exact .refused he
  · exact .gpuConflictsWithCpu rfl

theorem unmarkRegionAsGpuModified_yields (marks_gpu : Bool) (vaddr size : ℕ) :
    Yields (Stops marks_gpu) (unmarkRegionAsGpuModified vaddr size t) (Coherent others) := by
  refine yields_map
    ((iterate_changeState_yields h hothers false .gpu false vaddr size).mono_error ?_)
  rintro e (rfl | he | ⟨hf, -⟩)
  · exact .invalidTrackerRange
  · exact .refused he
  · nomatch hf

/-- **`UntrackMemory`** asks first, so that marking the pages finds no conflict. -/
theorem untrackMemory_yields (marks_gpu : Bool) (vaddr size : ℕ) :
    Yields (Stops marks_gpu) (untrackMemory vaddr size t) (Coherent others) := by
  refine ((isRegionGpuModified_yields PageManager.Refused vaddr size t).mono_error
    fun e he => stops_of_refused he).bind fun result hresult => ?_
  obtain ⟨modified, t'⟩ := result
  obtain ⟨rfl, hclean⟩ := hresult
  refine yields_ite (fun _ => yields_error .untrackGpuDirty) fun hmodified => yields_map ?_
  have hrange : AllClean .gpu vaddr size t' := hclean (Bool.eq_false_of_not_eq_true hmodified)
  exact (iterate_changeState_clean h hothers false .cpu nofun
    hrange).mono_error fun e he => stops_of_refused he

/-- **`InvalidateRegion`**, for a callback that keeps the invariant. A region is asked before
its pages are marked, so that there is no conflict either. -/
theorem invalidateRegion_yields {on_flush : MemoryTracker → Except Abort MemoryTracker}
    (hflush : ∀ t, Coherent others t → Yields (Stops marks_gpu) (on_flush t) (Coherent others))
    (vaddr size : ℕ) :
    Yields (Stops marks_gpu) (invalidateRegion vaddr size on_flush t) (Coherent others) := by
  refine yields_map ((iterate_yields (E := Stops marks_gpu) (P := fun _ t => Coherent others t) h
    (fun hc => absurd hc (by simp)) (fun p rest t _ ht _ => ht)
    fun p rest t m hp ht hm => ?_).mono_error fun e he => ?_)
  · obtain ⟨modified, heq, hmodified⟩ :=
      RegionManager.isModified_eq .gpu m hp.bytes_pos hp.inside
    unfold invalidatePiece
    rw [heq]
    refine yields_ite (fun _ => (hflush t ht).bind fun t' ht' => yields_pure ht') fun hnot => ?_
    refine ((changeState_visit ht hothers .cpu true hp hm).mono fun _ hr => hr.1).mono_error
      fun e he => ?_
    rcases he with he | ⟨-, -, i, h1, h2, hset⟩
    · exact .refused he
    · exact absurd (hmodified.mpr ⟨i, h1, h2, hset⟩) hnot
  · rcases he with rfl | he
    · exact .invalidTrackerRange
    · exact he

theorem forEachDownloadRange_yields (clear : Bool) (vaddr size : ℕ) :
    Yields (OrInvalidRange PageManager.Refused) (forEachDownloadRange clear vaddr size t)
      fun result => Coherent others result.2.2 := by
  -- a pass that only reads
  have hread : ∀ t, Coherent others t → Yields (OrInvalidRange PageManager.Refused)
      (iterate false vaddr size (forEachModifiedRange .gpu false) t)
      fun result => Coherent others result.2 := by
    intro t ht
    refine iterate_yields (P := fun _ t => Coherent others t) ht
      nofun (fun p rest t _ ht _ => ht) fun p rest t m hp ht hm => ?_
    obtain ⟨ranges, heq⟩ := forEachModifiedRange_visit_false .gpu hp hm
    rw [heq]
    exact ht
  refine (hread t h).bind fun preflight hpreflight => (hread _ hpreflight).bind fun func hfunc => ?_
  refine yields_ite (fun _ => ?_) fun _ => yields_pure hfunc
  exact (iterate_clear_yields hfunc hothers .gpu vaddr size).bind fun result hresult =>
    yields_pure hresult.1

theorem markHotPages_yields (vaddr size : ℕ) (is_written : Bool) :
    Yields (OrInvalidRange PageManager.Refused) (markHotPages vaddr size is_written t)
      (Coherent others) := by
  refine yields_ite (fun _ => ?_) fun _ => yields_pure h
  refine (isRegionGpuModified_yields _ vaddr size t).bind fun result hresult => ?_
  obtain ⟨modified, t'⟩ := result
  obtain ⟨rfl, hclean⟩ := hresult
  refine yields_ite (fun _ => yields_pure h) fun hmodified => yields_map ?_
  have hrange : AllClean .gpu vaddr size t' := hclean (Bool.eq_false_of_not_eq_true hmodified)
  exact iterate_changeState_clean h hothers true .cpu (fun _ => rfl) hrange

/-- **`ForEachUploadRange`** never finds a conflict: it clears the range for the CPU before it
sets it for the GPU. -/
theorem forEachUploadRange_yields (vaddr size : ℕ) (is_written : Bool) :
    Yields (OrInvalidRange PageManager.Refused) (forEachUploadRange vaddr size is_written t)
      fun result => Coherent others result.2 := by
  refine (markHotPages_yields h hothers vaddr size is_written).bind fun t1 ht1 => ?_
  -- the regions are created
  have hcreate : Yields (OrInvalidRange PageManager.Refused)
      (iterate true vaddr size (fun _ _ t => return ([], t)) t1)
      fun result => Coherent others result.2 :=
    iterate_yields (P := fun _ t => Coherent others t) ht1
      (fun _ p rest t hp ht => (create_yields _ ht hp).mono fun _ ht' => ht'.1)
      (fun p rest t _ ht _ => ht) fun p rest t m _ ht _ => ht
  refine hcreate.bind fun result hresult => ?_
  -- the range is cleared for the CPU, and then set for the GPU
  refine (iterate_clear_yields hresult hothers .cpu vaddr size).bind fun result hresult => ?_
  obtain ⟨ranges, t3⟩ := result
  obtain ⟨ht3, hclean⟩ := hresult
  refine yields_ite (fun _ => ?_) fun _ => yields_pure ht3
  have hset : Yields (OrInvalidRange PageManager.Refused)
      (iterate false vaddr size (changeState .gpu true) t3) fun result => Coherent others result.2 :=
    iterate_changeState_clean ht3 hothers false .gpu nofun hclean
  exact hset.bind fun result hresult => yields_pure hresult

end

/-- A fault that the page manager takes note of. -/
def noteFault (vaddr : ℕ) (t : MemoryTracker) : Except Abort MemoryTracker := do
  let (_, m_page_manager) ← t.m_page_manager.noteFault vaddr
  return { t with m_page_manager }

theorem count_update {pm : PageManager} {region index : ℕ} {pages : ℕ → PageState}
    (hpages : pm.regions region = some pages) {state : PageState}
    (hstate : ∀ r, state.count r = (pages index).count r) (guest : Option Kernel.GuestAddressSpace)
    (r : Bool) (k i : ℕ) :
    count { pm with
      regions := update pm.regions region (some (update pages index state))
      guest } r k i = pm.count r k i := by
  unfold count
  by_cases hk : k = region
  · subst hk
    simp only [update_self, hpages]
    by_cases hi : i = index
    · subst hi
      rw [update_self, hstate]
    · rw [update_of_ne hi]
  · simp only [update_of_ne hk]

/-- **`NoteFault`** counts no watchers. -/
theorem noteFault_count (pm : PageManager) (vaddr : ℕ) :
    Yields HostRefuses (pm.noteFault vaddr) fun result =>
      ∀ r k i, result.2.count r k i = pm.count r k i := by
  unfold PageManager.noteFault
  cases hpages : pm.findRegion vaddr with
  | none => exact yields_pure fun _ _ _ => rfl
  | some pages =>
    refine yields_ite (fun _ => yields_pure fun _ _ _ => rfl) fun _ => ?_
    have hregion : pm.regions (vaddr / TRACKER_REGION_SIZE) = some pages := by
      unfold findRegion at hpages
      split at hpages
      · exact hpages
      · nomatch hpages
    -- the page with the fault counted has the watchers it had
    obtain ⟨state, hdef⟩ : ∃ state : PageState, state =
        if (pages (vaddr % TRACKER_REGION_SIZE / TRACKER_PAGE_SIZE)).faults ≠ 255 then
          { pages (vaddr % TRACKER_REGION_SIZE / TRACKER_PAGE_SIZE) with
            faults := (pages (vaddr % TRACKER_REGION_SIZE / TRACKER_PAGE_SIZE)).faults + 1 }
        else pages (vaddr % TRACKER_REGION_SIZE / TRACKER_PAGE_SIZE) := ⟨_, rfl⟩
    have hstate : ∀ r, state.count r =
        (pages (vaddr % TRACKER_REGION_SIZE / TRACKER_PAGE_SIZE)).count r := by
      intro r
      rw [hdef]
      split <;> rfl
    rw [← hdef]
    by_cases hot : pm.hot_page_escape = true ∧ state.faults = 3
    · rw [if_pos hot]
      exact (protect_yields _ _ _ _).bind fun guest _ =>
        yields_pure (count_update hregion hstate guest)
    · rw [if_neg hot]
      exact yields_pure (count_update hregion hstate pm.guest)

theorem noteFault_yields (h : Coherent others t) (marks_gpu : Bool) (vaddr : ℕ) :
    Yields (Stops marks_gpu) (noteFault vaddr t) (Coherent others) := by
  refine ((noteFault_count t.m_page_manager vaddr).mono_error
    fun e he => .refused (.inl he)).bind fun result hresult => yields_pure ?_
  refine ⟨fun k m hm => ?_, fun k hk i hi => ?_⟩
  · obtain ⟨hlt, hinv⟩ := h.region k m hm
    exact ⟨hlt, hinv.addr, hinv.disjoint, hinv.writable, hinv.readable,
      fun i hi => (hresult false k i).trans (hinv.write_count i hi),
      fun i hi => (hresult true k i).trans (hinv.access_count i hi)⟩
  · obtain ⟨hwrite, haccess⟩ := h.no_region k hk i hi
    exact ⟨(hresult false k i).trans hwrite, (hresult true k i).trans haccess⟩

/-! ## Programs -/

/-- The programs over the tracker. `depend` lets a program look at the state, and with it at
every range that a callback of an operation was given. Pages are marked for the GPU outside of
an upload only if `marks_gpu`. -/
inductive Program (marks_gpu : Bool) : (MemoryTracker → Except Abort MemoryTracker) → Prop
  | skip : Program marks_gpu pure
  | sequence {f g : MemoryTracker → Except Abort MemoryTracker} :
      Program marks_gpu f → Program marks_gpu g → Program marks_gpu fun t => f t >>= g
  | depend {f : MemoryTracker → MemoryTracker → Except Abort MemoryTracker} :
      (∀ t, Program marks_gpu (f t)) → Program marks_gpu fun t => f t t
  | markCpu (vaddr size : ℕ) : Program marks_gpu (markRegionAsCpuModified vaddr size)
  | markGpu (vaddr size : ℕ) :
      marks_gpu = true → Program marks_gpu (markRegionAsGpuModified vaddr size)
  | unmarkGpu (vaddr size : ℕ) : Program marks_gpu (unmarkRegionAsGpuModified vaddr size)
  | untrack (vaddr size : ℕ) : Program marks_gpu (untrackMemory vaddr size)
  | invalidate (vaddr size : ℕ) {on_flush : MemoryTracker → Except Abort MemoryTracker} :
      Program marks_gpu on_flush → Program marks_gpu (invalidateRegion vaddr size on_flush)
  | isCpuModified (vaddr size : ℕ) :
      Program marks_gpu fun t => (isRegionCpuModified vaddr size t).map Prod.snd
  | isGpuModified (vaddr size : ℕ) :
      Program marks_gpu fun t => (isRegionGpuModified vaddr size t).map Prod.snd
  | download (clear : Bool) (vaddr size : ℕ) : Program marks_gpu fun t =>
    (forEachDownloadRange clear vaddr size t).map fun result => result.2.2
  | upload (vaddr size : ℕ) (is_written : Bool) : Program marks_gpu fun t =>
    (forEachUploadRange vaddr size is_written t).map Prod.snd
  | fault (vaddr : ℕ) : Program marks_gpu (noteFault vaddr)

/-- **Every program keeps the invariant**, from any state that has it: by induction on the
program, with one lemma for each operation. -/
theorem program_yields (hothers : ∀ k i, others k i < 0x7f)
    {program : MemoryTracker → Except Abort MemoryTracker} (hprogram : Program marks_gpu program)
    (t : MemoryTracker) (h : Coherent others t) :
    Yields (Stops marks_gpu) (program t) (Coherent others) := by
  induction hprogram generalizing t with
  | skip => exact yields_pure h
  | sequence _ _ ihf ihg => exact (ihf t h).bind ihg
  | depend _ ih => exact ih t t h
  | markCpu vaddr size => exact markRegionAsCpuModified_yields h hothers _ vaddr size
  | markGpu vaddr size hmarks =>
    subst hmarks
    exact markRegionAsGpuModified_yields h hothers vaddr size
  | unmarkGpu vaddr size => exact unmarkRegionAsGpuModified_yields h hothers _ vaddr size
  | untrack vaddr size => exact untrackMemory_yields h hothers _ vaddr size
  | invalidate vaddr size _ ih => exact invalidateRegion_yields h hothers ih vaddr size
  | isCpuModified vaddr size =>
    refine yields_map ?_
    exact (isRegionCpuModified_yields _ vaddr size h).mono_error fun e he => stops_of_refused he
  | isGpuModified vaddr size =>
    refine yields_map (((isRegionGpuModified_yields _ vaddr size t).mono_error
      fun e he => stops_of_refused he).mono fun result hresult => ?_)
    rw [hresult.1]
    exact h
  | download clear vaddr size =>
    exact yields_map ((forEachDownloadRange_yields h hothers clear vaddr size).mono_error
      fun e he => stops_of_refused he)
  | upload vaddr size is_written =>
    exact yields_map ((forEachUploadRange_yields h hothers vaddr size is_written).mono_error
      fun e he => stops_of_refused he)
  | fault vaddr => exact noteFault_yields h _ vaddr

/-- The aborts of the page manager that say that a count of watchers is wrong. -/
def WatcherError (e : Abort) : Prop :=
  (∃ address, e = .readWatcherOverflow address ∨ e = .readWatcherUnderflow address ∨
    e = .writeWatcherOverflow address ∨ e = .writeWatcherUnderflow address ∨
    e = .untrackingUnknownPage address ∨ e = .untrackingUnknownRegion address)

theorem Stops.not_watcherError {e : Abort} (h : Stops marks_gpu e) : ¬ WatcherError e := by
  rintro ⟨address, he⟩
  rcases h with ⟨⟨vaddr, protection, rfl⟩ | ⟨vaddr, size, rfl⟩⟩ <;> simp at he

/-- **The dirty bits, the protection and the watchers stay coherent.** A program that starts
with no region, on a page manager with the watchers of `others` only, ends in a coherent state
or with an error that is none of the watcher counts. An upload finds no page dirty on the other
side: not after the program, and not inside a program that leaves marking pages for the GPU to
the uploads. -/
theorem memoryTracker_coherence (hothers : ∀ k i, others k i < 0x7f) {pm : PageManager}
    (hpm : ∀ k i, i < TRACKER_REGION_PAGES → pm.count false k i = others k i ∧
      pm.count true k i = 0) {marks_gpu : Bool}
    {program : MemoryTracker → Except Abort MemoryTracker} (hprogram : Program marks_gpu program) :
    (∀ e, program (new pm) = .error e →
      ¬ WatcherError e ∧ (marks_gpu = false → e ≠ .gpuConflictsWithCpu)) ∧
    ∀ t, program (new pm) = .ok t → Coherent others t ∧
      ∀ vaddr size is_written e, forEachUploadRange vaddr size is_written t = .error e →
        ¬ WatcherError e ∧ e ≠ .gpuConflictsWithCpu ∧ e ≠ .cpuConflictsWithGpu := by
  have hyields := program_yields hothers hprogram (new pm) (coherent_new hpm)
  refine ⟨fun e he => ?_, fun t ht => ?_⟩
  · have hstops := hyields.of_error he
    refine ⟨hstops.not_watcherError, fun hmarks heq => ?_⟩
    subst hmarks heq
    rcases hstops with ⟨⟨_, _, hrefused⟩ | ⟨_, _, hrefused⟩⟩ | _ | _ | _ | hmarks
    · exact nomatch hrefused
    · exact nomatch hrefused
    · exact nomatch hmarks
  · have hcoherent := hyields.of_ok ht
    refine ⟨hcoherent, fun vaddr size is_written e he => ?_⟩
    have hupload := (forEachUploadRange_yields hcoherent hothers vaddr size is_written).of_error he
    refine ⟨(@stops_of_refused false e hupload).not_watcherError, ?_⟩
    rcases hupload with rfl | ⟨_, _, rfl⟩ | ⟨_, _, rfl⟩ <;> simp

/-- Two pages on both sides of a region border are uploaded and written, and the first of them
is downloaded. -/
def uploadAndDownload (t : MemoryTracker) : Except Abort MemoryTracker :=
  (forEachUploadRange 0x3FF000 0x2000 true t).map Prod.snd >>= fun t =>
    (forEachDownloadRange true 0x3FF000 0x1000 t).map fun result => result.2.2

theorem memoryTracker_coherence_upload :
    ∃ t, uploadAndDownload
        (new ⟨false, fun _ => none, some (.init [] 0 ⟨fun _ => true, fun _ => .unmapped⟩)⟩) = .ok t ∧
      Coherent (fun _ _ => 0) t := by
  have hok : (uploadAndDownload (new ⟨false, fun _ => none,
      some (.init [] 0 ⟨fun _ => true, fun _ => .unmapped⟩)⟩)).toBool = true := by decide +kernel
  have hprogram : Program false uploadAndDownload :=
    .sequence (.upload 0x3FF000 0x2000 true) (.download true 0x3FF000 0x1000)
  cases heq : uploadAndDownload (new ⟨false, fun _ => none,
      some (.init [] 0 ⟨fun _ => true, fun _ => .unmapped⟩)⟩) with
  | error e =>
    rw [heq] at hok
    exact nomatch hok
  | ok t =>
    exact ⟨t, rfl, ((@memoryTracker_coherence (fun _ _ => 0) (fun _ _ => by decide) _
      (fun _ _ _ => ⟨rfl, rfl⟩) _ _ hprogram).2 t heq).1⟩

end MagnusPS5.Graphics.MemoryTracker
