/-
`RegionManager` (`regionManager.h`): which pages of one region the CPU or the GPU has
modified, and which of them are watched.

Four bit arrays describe the region. `m_writable` and `m_readable` remember the
protection that was last asked for; after every change of the dirty bits the difference
is handed to the page manager as a mask. The page manager is passed along as a value.

`RegionInv` is the invariant of a region, and `changeState_yields` and
`forEachModifiedRange_yields` say that the two ways to change the dirty bits keep it.
-/
import MagnusPS5.Graphics.PageManagerSpec

namespace MagnusPS5.Graphics

open Lib
open Common (BitArray)

inductive DirtySource
  | cpu | gpu
  deriving DecidableEq

structure RegionManager where
  m_cpu_addr : ℕ
  m_cpu_dirty : RegionBits
  m_gpu_dirty : RegionBits
  m_writable : RegionBits
  m_readable : RegionBits

namespace RegionManager

/-- The constructor. -/
def new (cpu_addr : ℕ) : Except Abort RegionManager :=
  if cpu_addr % TRACKER_REGION_SIZE ≠ 0 then .error .invalidConstruction
  else .ok
    { m_cpu_addr := cpu_addr
      m_cpu_dirty := .fill
      m_gpu_dirty := .clear
      m_writable := .fill
      m_readable := .fill }

variable (m : RegionManager)

def getBits : DirtySource → RegionBits
  | .cpu => m.m_cpu_dirty
  | .gpu => m.m_gpu_dirty

/-- An assignment through `GetBits`. -/
def setBits (source : DirtySource) (bits : RegionBits) : RegionManager :=
  match source with
  | .cpu => { m with m_cpu_dirty := bits }
  | .gpu => { m with m_gpu_dirty := bits }

def getPageRange (vaddr size : ℕ) : Except Abort (ℕ × ℕ) :=
  if size = 0 ∨ vaddr < m.m_cpu_addr ∨ vaddr ≥ m.m_cpu_addr + TRACKER_REGION_SIZE ∨
      size > m.m_cpu_addr + TRACKER_REGION_SIZE - vaddr then .error .rangeOutsideRegion
  else
    let offset := vaddr - m.m_cpu_addr
    .ok (offset / TRACKER_PAGE_SIZE, (offset + size + TRACKER_PAGE_SIZE - 1) / TRACKER_PAGE_SIZE)

def isModified (source : DirtySource) (m : RegionManager) (offset size : ℕ) :
    Except Abort Bool := do
  let (start, end_) ← m.getPageRange (m.m_cpu_addr + offset) size
  return ((m.getBits source).copyRange start end_).isAny

def updateCpuProtection (track : Bool) (m : RegionManager) (pm : PageManager) :
    Except Abort (RegionManager × PageManager) :=
  let mask := m.m_cpu_dirty.xor m.m_writable
  let m := { m with m_writable := m.m_cpu_dirty }
  if mask.isNone then .ok (m, pm)
  else do
    let pm ← pm.updatePageWatchersForRegion track false m.m_cpu_addr mask
    return (m, pm)

def updateGpuProtection (track : Bool) (m : RegionManager) (pm : PageManager) :
    Except Abort (RegionManager × PageManager) :=
  let readable := m.m_gpu_dirty.not
  let mask := readable.xor m.m_readable
  let m := { m with m_readable := readable }
  if mask.isNone then .ok (m, pm)
  else do
    let pm ← pm.updatePageWatchersForRegion track true m.m_cpu_addr mask
    return (m, pm)

/-- The update of the protection that follows a change of the bits of a source. -/
def updateProtection (source : DirtySource) (enable : Bool) (m : RegionManager)
    (pm : PageManager) : Except Abort (RegionManager × PageManager) :=
  match source with
  | .cpu => updateCpuProtection (!enable) m pm
  | .gpu => updateGpuProtection enable m pm

def changeState (source : DirtySource) (enable : Bool) (m : RegionManager) (pm : PageManager)
    (vaddr size : ℕ) : Except Abort (RegionManager × PageManager) := do
  let (start, end_) ← m.getPageRange vaddr size
  if source = .cpu ∧ enable = true ∧ (m.m_gpu_dirty.copyRange start end_).isAny = true then
    .error .cpuConflictsWithGpu
  else if source = .gpu ∧ enable = true ∧ (m.m_cpu_dirty.copyRange start end_).isAny = true then
    .error .gpuConflictsWithCpu
  else
    let bits := if enable then (m.getBits source).setRange start end_
      else (m.getBits source).unsetRange start end_
    updateProtection source enable (m.setBits source bits) pm

/-- `ForEachRange`: the address and the size of each run. -/
def forEachRange (bits : RegionBits) : List (ℕ × ℕ) :=
  bits.ranges.map fun (start, end_) =>
    (m.m_cpu_addr + start * TRACKER_PAGE_SIZE, (end_ - start) * TRACKER_PAGE_SIZE)

/-- `ForEachModifiedRange`: the ranges that the callback is given, and the region after it. -/
def forEachModifiedRange (source : DirtySource) (clear : Bool) (m : RegionManager)
    (pm : PageManager) (vaddr size : ℕ) :
    Except Abort (List (ℕ × ℕ) × RegionManager × PageManager) := do
  let (start, end_) ← m.getPageRange vaddr size
  let mask := (m.getBits source).copyRange start end_
  if clear then
    let bits := (m.getBits source).unsetRange start end_
    let (m, pm) ← updateProtection source false (m.setBits source bits) pm
    return (m.forEachRange mask, m, pm)
  else return (m.forEachRange mask, m, pm)

/-! ## The invariant of a region -/

/-- What holds of a region between two operations: no page is dirty on both sides, the
remembered protection is that of the dirty bits, and the region has put one write watcher
on each page that is not dirty for the CPU, above the `others`, and an access watcher on
each page that is dirty for the GPU. -/
structure RegionInv (others : ℕ → ℕ) (m : RegionManager) (pm : PageManager) (region : ℕ) :
    Prop where
  addr : m.m_cpu_addr = region * TRACKER_REGION_SIZE
  disjoint : ∀ i, i < TRACKER_REGION_PAGES → m.m_cpu_dirty.get i = true →
    m.m_gpu_dirty.get i = false
  writable : m.m_writable = m.m_cpu_dirty
  readable : m.m_readable = m.m_gpu_dirty.not
  write_count : ∀ i, i < TRACKER_REGION_PAGES →
    pm.count false region i = others i + if m.m_cpu_dirty.get i then 0 else 1
  access_count : ∀ i, i < TRACKER_REGION_PAGES →
    pm.count true region i = if m.m_gpu_dirty.get i then 1 else 0

/-- Only counts of this region differ. -/
def Frame (pm pm' : PageManager) (region : ℕ) : Prop :=
  pm'.hot_page_escape = pm.hot_page_escape ∧
    ∀ k i r, k ≠ region → pm'.count r k i = pm.count r k i

variable {others : ℕ → ℕ} {m : RegionManager} {pm : PageManager} {region : ℕ}

/-- What an update of the protection has to achieve, for the bits `m` already has. -/
def Settled (others : ℕ → ℕ) (m : RegionManager) (pm : PageManager) (region : ℕ)
    (result : RegionManager × PageManager) : Prop :=
  RegionInv others result.1 result.2 region ∧ result.1.m_cpu_dirty = m.m_cpu_dirty ∧
    result.1.m_gpu_dirty = m.m_gpu_dirty ∧ Frame pm result.2 region

variable {bits : RegionBits} {offset size : ℕ}

section Watchers

variable {old mask : RegionBits}
  (hmask : ∀ i, i < TRACKER_REGION_PAGES → mask.get i = (bits.get i ^^ old.get i))
include hmask

theorem eq_of_isNone (hnone : mask.isNone = true) : bits = old :=
  BitArray.ext_get fun i hi => by
    have hi' := (BitArray.isNone_iff _).mp hnone i hi
    rw [hmask i hi] at hi'
    simpa using hi'

/-- The watchers that a region puts follow its bits: a page has one where its bit is `watched`,
above those of the others. -/
theorem updateWatchers_spec (watched : Bool) (base : ℕ → ℕ) (hregion : region < 262144)
    {track is_read : Bool} (hcount : ∀ i, i < TRACKER_REGION_PAGES →
      pm.count is_read region i = base i + if old.get i = watched then 1 else 0)
    (hbase : ∀ i, base i < limit is_read)
    (hdir : ∀ i, i < TRACKER_REGION_PAGES → old.get i ≠ bits.get i →
      bits.get i = (track == watched)) (hany : ¬ mask.isNone = true) :
    Yields PageManager.Refused
      (pm.updatePageWatchersForRegion track is_read (region * TRACKER_REGION_SIZE) mask) fun pm' =>
      (∀ i, i < TRACKER_REGION_PAGES →
        pm'.count is_read region i = base i + if bits.get i = watched then 1 else 0) ∧
      (∀ i, pm'.count (!is_read) region i = pm.count (!is_read) region i) ∧
      Frame pm pm' region := by
  have hchange : ∀ i, i < TRACKER_REGION_PAGES → mask.get i = true →
      bits.get i = (track == watched) ∧ old.get i = !(track == watched) := by
    intro i hi hset
    rw [hmask i hi] at hset
    have hne : old.get i ≠ bits.get i := fun heq => by simp [heq] at hset
    have hbit := hdir i hi hne
    exact ⟨hbit, by rw [Bool.eq_not, ← hbit]; exact hne⟩
  refine (pm.updatePageWatchersForRegion_spec track is_read hregion
    (Bool.not_eq_true _ ▸ hany) fun i hi hset => ?_).mono
    fun pm' hpm => ⟨fun i hi => ?_, fun i => ?_, hpm.1, fun k i r hk => ?_⟩
  · -- a page in the mask has a count that can be changed
    have hroom := hbase i
    rw [hcount i hi, (hchange i hi hset).2]
    cases track <;> cases watched <;> simp [CanChange, hroom]
  · by_cases hset : mask.get i = true
    · obtain ⟨hbit, hold⟩ := hchange i hi hset
      rw [(hpm.2 region i is_read).1 ⟨rfl, ⟨hi, hset⟩, rfl⟩, hcount i hi, hbit, hold]
      cases track <;> cases watched <;> simp [changed]
    · rw [(hpm.2 region i is_read).2 fun hc => hset hc.2.1.2, hcount i hi]
      rw [hmask i hi] at hset
      have heq : bits.get i = old.get i := by simpa using hset
      rw [heq]
  · exact (hpm.2 region i (!is_read)).2 fun hc => by simp at hc
  · exact (hpm.2 k i r).2 fun hc => hk hc.1

end Watchers

/-- **`UpdateCpuProtection`** settles bits that grew, with `track` off, or shrank, with
`track` on. -/
theorem updateCpuProtection_yields (h : RegionInv others m pm region)
    (hothers : ∀ i, others i < 0x7f) (hregion : region < 262144) {track : Bool}
    (hdir : ∀ i, i < TRACKER_REGION_PAGES → m.m_cpu_dirty.get i ≠ bits.get i → bits.get i = !track)
    (hdisjoint : ∀ i, i < TRACKER_REGION_PAGES → bits.get i = true → m.m_gpu_dirty.get i = false) :
    Yields PageManager.Refused (updateCpuProtection track { m with m_cpu_dirty := bits } pm)
      (Settled others { m with m_cpu_dirty := bits } pm region) := by
  have hmask : ∀ i, i < TRACKER_REGION_PAGES →
      (bits.xor m.m_writable).get i = (bits.get i ^^ m.m_cpu_dirty.get i) := by
    intro i hi
    rw [h.writable]
    exact BitArray.get_xor hi
  unfold updateCpuProtection
  by_cases hnone : (bits.xor m.m_writable).isNone = true
  · -- nothing has changed
    obtain rfl := eq_of_isNone hmask hnone
    rw [if_pos hnone]
    exact ⟨⟨h.addr, h.disjoint, rfl, h.readable, h.write_count, h.access_count⟩, rfl, rfl, rfl,
      fun _ _ _ _ => rfl⟩
  · rw [if_neg hnone, h.addr]
    refine (updateWatchers_spec hmask false others hregion (fun i hi => ?_)
      (by exact hothers) (fun i hi hne => ?_) hnone).bind fun pm' hpm => yields_pure ?_
    · rw [h.write_count i hi]
      cases m.m_cpu_dirty.get i <;> rfl
    · rw [hdir i hi hne, beq_false]
    · refine ⟨⟨rfl, hdisjoint, rfl, h.readable, fun i hi => ?_, fun i hi => ?_⟩, rfl, rfl, hpm.2.2⟩
      · rw [hpm.1 i hi]
        cases bits.get i <;> rfl
      · exact (hpm.2.1 i).trans (h.access_count i hi)

/-- **`UpdateGpuProtection`** settles bits that grew, with `track` on, or shrank, with
`track` off. -/
theorem updateGpuProtection_yields (h : RegionInv others m pm region)
    (hregion : region < 262144) {track : Bool}
    (hdir : ∀ i, i < TRACKER_REGION_PAGES → m.m_gpu_dirty.get i ≠ bits.get i → bits.get i = track)
    (hdisjoint : ∀ i, i < TRACKER_REGION_PAGES → m.m_cpu_dirty.get i = true → bits.get i = false) :
    Yields PageManager.Refused (updateGpuProtection track { m with m_gpu_dirty := bits } pm)
      (Settled others { m with m_gpu_dirty := bits } pm region) := by
  have hmask : ∀ i, i < TRACKER_REGION_PAGES →
      (bits.not.xor m.m_readable).get i = (bits.get i ^^ m.m_gpu_dirty.get i) := by
    intro i hi
    rw [h.readable, BitArray.get_xor hi, BitArray.get_not hi, BitArray.get_not hi]
    simp
  unfold updateGpuProtection
  by_cases hnone : (bits.not.xor m.m_readable).isNone = true
  · obtain rfl := eq_of_isNone hmask hnone
    rw [if_pos hnone]
    exact ⟨⟨h.addr, h.disjoint, h.writable, rfl, h.write_count, h.access_count⟩, rfl, rfl, rfl,
      fun _ _ _ _ => rfl⟩
  · rw [if_neg hnone, h.addr]
    refine (updateWatchers_spec hmask true (fun _ => 0) hregion (fun i hi => ?_)
      (by exact fun _ => Nat.one_pos) (fun i hi hne => ?_) hnone).bind
      fun pm' hpm => yields_pure ?_
    · rw [h.access_count i hi, Nat.zero_add]
    · rw [hdir i hi hne, beq_true]
    · refine ⟨⟨rfl, hdisjoint, h.writable, rfl, fun i hi => ?_, fun i hi => ?_⟩, rfl, rfl, hpm.2.2⟩
      · exact (hpm.2.1 i).trans (h.write_count i hi)
      · exact (hpm.1 i hi).trans (Nat.zero_add _)

/-! ## Changing the dirty bits -/

/-- The first page of an interval of the region, by its offset. -/
def firstPage (offset : ℕ) : ℕ := offset / TRACKER_PAGE_SIZE

/-- The page after the last one. -/
def endPage (offset size : ℕ) : ℕ := (offset + size + TRACKER_PAGE_SIZE - 1) / TRACKER_PAGE_SIZE

/-- **`GetPageRange`** accepts a non-empty interval inside the region. -/
theorem getPageRange_eq (m : RegionManager) (hsize : 0 < size)
    (hin : offset + size ≤ TRACKER_REGION_SIZE) :
    m.getPageRange (m.m_cpu_addr + offset) size =
      .ok (firstPage offset, endPage offset size) := by
  unfold getPageRange
  rw [if_neg (by omega)]
  rw [Nat.add_sub_cancel_left]
  rfl

theorem page_bounds (hsize : 0 < size) (hin : offset + size ≤ TRACKER_REGION_SIZE) :
    firstPage offset < endPage offset size ∧ endPage offset size ≤ 64 * 16 := by
  have hin' : offset + size ≤ 4194304 := hin
  show offset / 4096 < (offset + size + 4096 - 1) / 4096 ∧
    (offset + size + 4096 - 1) / 4096 ≤ 64 * 16
  omega

/-- The bits of `source` in the page range have become `value`; the others are as before. -/
def BitsSet (source : DirtySource) (first last : ℕ) (value : Bool) (m m' : RegionManager) : Prop :=
  ∀ s i, i < TRACKER_REGION_PAGES → (m'.getBits s).get i =
    if s = source ∧ first ≤ i ∧ i < last then value else (m.getBits s).get i

/-- The operation stopped because pages of the range are dirty on the other side. -/
def Conflict (source : DirtySource) (first last : ℕ) (m : RegionManager) (e : Abort) : Prop :=
  match source with
  | .cpu => e = .cpuConflictsWithGpu ∧ ∃ i, first ≤ i ∧ i < last ∧ m.m_gpu_dirty.get i = true
  | .gpu => e = .gpuConflictsWithCpu ∧ ∃ i, first ≤ i ∧ i < last ∧ m.m_cpu_dirty.get i = true

theorem isAny_copyRange {first last : ℕ} (hlt : first < last) (hle : last ≤ 64 * 16) :
    (bits.copyRange first last).isAny = true ↔
      ∃ i, first ≤ i ∧ i < last ∧ bits.get i = true := by
  rw [BitArray.isAny_iff]
  constructor
  · rintro ⟨i, hi, hset⟩
    rw [BitArray.get_copyRange hlt hle hi] at hset
    by_cases hin : first ≤ i ∧ i < last
    · rw [if_pos hin] at hset
      exact ⟨i, hin.1, hin.2, hset⟩
    · rw [if_neg hin] at hset
      nomatch hset
  · rintro ⟨i, h1, h2, hset⟩
    have hi : i < 64 * 16 := lt_of_lt_of_le h2 hle
    refine ⟨i, hi, ?_⟩
    rw [BitArray.get_copyRange hlt hle hi, if_pos ⟨h1, h2⟩]
    exact hset

/-- What a change of the bits of a range has to achieve. -/
def Changed (others : ℕ → ℕ) (source : DirtySource) (first last : ℕ) (value : Bool)
    (m : RegionManager) (pm : PageManager) (region : ℕ)
    (result : RegionManager × PageManager) : Prop :=
  RegionInv others result.1 result.2 region ∧ BitsSet source first last value m result.1 ∧
    Frame pm result.2 region

section

variable (h : RegionInv others m pm region) (hothers : ∀ i, others i < 0x7f)
  (hregion : region < 262144) (source : DirtySource)

include h hothers hregion source

/-- The bits of a range are changed and the protection follows, provided that no page is
dirty on both sides then. -/
theorem updateProtection_yields
    {first last : ℕ} (value : Bool) (hbits : ∀ i, i < TRACKER_REGION_PAGES →
      bits.get i = if first ≤ i ∧ i < last then value else (m.getBits source).get i)
    (hclear : value = true → ∀ i, i < TRACKER_REGION_PAGES → first ≤ i → i < last →
      (m.getBits (match source with | .cpu => .gpu | .gpu => .cpu)).get i = false) :
    Yields PageManager.Refused (updateProtection source value (m.setBits source bits) pm)
      (Changed others source first last value m pm region) := by
  have hdir : ∀ i, i < TRACKER_REGION_PAGES → (m.getBits source).get i ≠ bits.get i →
      bits.get i = value := by
    intro i hi hne
    rw [hbits i hi] at hne ⊢
    split at hne
    · exact if_pos ‹_›
    · exact absurd rfl hne
  cases source with
  | cpu =>
    refine (updateCpuProtection_yields h hothers hregion (fun i hi hne => ?_)
      fun i hi hset => ?_).mono fun result hresult => ?_
    · rw [hdir i hi hne, Bool.not_not]
    · rw [hbits i hi] at hset
      by_cases hin : first ≤ i ∧ i < last
      · rw [if_pos hin] at hset
        exact hclear hset i hi hin.1 hin.2
      · rw [if_neg hin] at hset
        exact h.disjoint i hi hset
    · obtain ⟨h1, h2, h3, h4⟩ := hresult
      refine ⟨h1, fun s i hi => ?_, h4⟩
      cases s with
      | cpu =>
        show result.1.m_cpu_dirty.get i = _
        rw [h2]
        simpa using hbits i hi
      | gpu =>
        show result.1.m_gpu_dirty.get i = _
        rw [h3, if_neg (by simp)]
        rfl
  | gpu =>
    refine (updateGpuProtection_yields h hregion (fun i hi hne => ?_)
      fun i hi hset => ?_).mono fun result hresult => ?_
    · exact hdir i hi hne
    · rw [hbits i hi]
      by_cases hin : first ≤ i ∧ i < last
      · rw [if_pos hin]
        by_contra hvalue
        have hcpu := hclear (by simpa using hvalue) i hi hin.1 hin.2
        have hcpu' : m.m_cpu_dirty.get i = false := hcpu
        rw [hset] at hcpu'
        nomatch hcpu'
      · rw [if_neg hin]
        exact h.disjoint i hi hset
    · obtain ⟨h1, h2, h3, h4⟩ := hresult
      refine ⟨h1, fun s i hi => ?_, h4⟩
      cases s with
      | cpu =>
        show result.1.m_cpu_dirty.get i = _
        rw [h2, if_neg (by simp)]
        rfl
      | gpu =>
        show result.1.m_gpu_dirty.get i = _
        rw [h3]
        simpa using hbits i hi

/-- **`ChangeState`** sets or clears the bits of the range and keeps the invariant. Setting
them stops if a page of the range is dirty on the other side. -/
theorem changeState_yields (enable : Bool)
    (hsize : 0 < size) (hin : offset + size ≤ TRACKER_REGION_SIZE) :
    Yields (fun e => PageManager.Refused e ∨
        (enable = true ∧ Conflict source (firstPage offset) (endPage offset size) m e))
      (changeState source enable m pm (m.m_cpu_addr + offset) size)
      (Changed others source (firstPage offset) (endPage offset size) enable m pm region) := by
  obtain ⟨hlt, hle⟩ := page_bounds hsize hin
  unfold changeState
  rw [m.getPageRange_eq hsize hin]
  generalize firstPage offset = first at *
  generalize endPage offset size = last at *
  refine yields_ite (fun hc => ?_) fun hcpu => yields_ite (fun hc => ?_) fun hgpu => ?_
  · obtain ⟨rfl, henable, hany⟩ := hc
    exact .inr ⟨henable, rfl, (isAny_copyRange hlt hle).mp hany⟩
  · obtain ⟨rfl, henable, hany⟩ := hc
    exact .inr ⟨henable, rfl, (isAny_copyRange hlt hle).mp hany⟩
  · have hbits : ∀ i, i < TRACKER_REGION_PAGES →
        (if enable = true then (m.getBits source).setRange first last
          else (m.getBits source).unsetRange first last).get i =
        if first ≤ i ∧ i < last then enable else (m.getBits source).get i := by
      intro i hi
      cases enable with
      | true => exact BitArray.get_setRange hlt hle hi
      | false => exact BitArray.get_unsetRange hlt hle hi
    refine (updateProtection_yields h hothers hregion source enable hbits
      fun henable i hi h1 h2 => ?_).mono_error fun e he => .inl he
    -- neither check found a page that is dirty on the other side
    by_contra hset
    have hset' := Bool.eq_true_of_not_eq_false hset
    cases source with
    | cpu => exact hcpu ⟨rfl, henable, (isAny_copyRange hlt hle).mpr ⟨i, h1, h2, hset'⟩⟩
    | gpu => exact hgpu ⟨rfl, henable, (isAny_copyRange hlt hle).mpr ⟨i, h1, h2, hset'⟩⟩

/-- **`ForEachModifiedRange`** clears the bits of the range, if it is asked to, and keeps the
invariant. -/
theorem forEachModifiedRange_yields
    (hsize : 0 < size) (hin : offset + size ≤ TRACKER_REGION_SIZE) : Yields PageManager.Refused
      (forEachModifiedRange source true m pm (m.m_cpu_addr + offset) size) fun result =>
      Changed others source (firstPage offset) (endPage offset size) false m pm region result.2 := by
  obtain ⟨hlt, hle⟩ := page_bounds hsize hin
  unfold forEachModifiedRange
  rw [m.getPageRange_eq hsize hin]
  refine (updateProtection_yields h hothers hregion source false (fun i hi =>
    BitArray.get_unsetRange hlt hle hi) nofun).bind
    fun result hresult => yields_pure hresult

end

theorem forEachModifiedRange_false (source : DirtySource) (m : RegionManager) (pm : PageManager)
    (hsize : 0 < size) (hin : offset + size ≤ TRACKER_REGION_SIZE) :
    ∃ ranges, forEachModifiedRange source false m pm (m.m_cpu_addr + offset) size =
      .ok (ranges, m, pm) := by
  unfold forEachModifiedRange
  rw [m.getPageRange_eq hsize hin]
  exact ⟨_, rfl⟩

theorem isModified_eq (source : DirtySource) (m : RegionManager)
    (hsize : 0 < size) (hin : offset + size ≤ TRACKER_REGION_SIZE) :
    ∃ modified, isModified source m offset size = .ok modified ∧
      (modified = true ↔ ∃ i, firstPage offset ≤ i ∧ i < endPage offset size ∧
        (m.getBits source).get i = true) := by
  obtain ⟨hlt, hle⟩ := page_bounds hsize hin
  unfold isModified
  rw [m.getPageRange_eq hsize hin]
  exact ⟨_, rfl, isAny_copyRange hlt hle⟩

end RegionManager

end MagnusPS5.Graphics
