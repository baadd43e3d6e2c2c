/-
`FindGuestFreeRange` (`memory.cpp`): where a mapping without a fixed address goes.

Two tables have to agree that an interval is free: the blocks of the address space
and the virtual ranges. The search takes the first block that has room, asks the
ranges for an overlap, and starts again at the end of what it finds. What it returns
is the least address, in the first search window that has one, that suits both
tables; the alignment asked for is raised to the page size.
-/
import MagnusPS5.Kernel.AddressSpaceRun
import MagnusPS5.Kernel.PhysicalMemory
import MagnusPS5.Kernel.VirtualRangesRun

namespace MagnusPS5.Kernel

open Lib
open Spanned (lo hi)
open List GuestAddressSpace VirtualRanges List.Sublist

/-! ## The search -/

abbrev HOST_SYSTEM_MANAGED_MAX : ℕ := 0x07ffffbfff

/-- `HOST_USER_MIN`, on Linux. -/
abbrev HOST_USER_MIN : ℕ := 0x1000000000

abbrev HOST_USER_MAX : ℕ := 0xfbffffffff

abbrev GUEST_DEFAULT_MAP_BASE : ℕ := 0x200000000

def guestFreeRangeContains (base range_size candidate size : ℕ) : Bool :=
  if UINT64_MAX - base < range_size ∨ candidate < base then false
  else
    let range_end := base + range_size
    decide (candidate ≤ range_end ∧ size ≤ range_end - candidate)

namespace GuestAddressSpace

/-- The loop of `FindFreeAlignedUnlocked` over the free blocks. -/
def findFreeAlignedLoop (search_start search_end size alignment : ℕ) : List Run → ℕ
  | [] => 0
  | block :: m_free =>
    let candidate := alignUp (max block.start search_start) alignment
    if candidate < search_end ∧ size ≤ search_end - candidate ∧
        guestFreeRangeContains block.start block.size candidate size then candidate
    else findFreeAlignedLoop search_start search_end size alignment m_free

def findFreeAlignedUnlocked (m_free : List Run) (search_start search_end size alignment : ℕ) : ℕ :=
  if search_end ≤ search_start ∨ search_end - search_start < size then 0
  else findFreeAlignedLoop search_start search_end size alignment m_free

def findFreeAligned (m_free : List Run) (search_start search_end size alignment : ℕ) : ℕ :=
  if size = 0 ∨ alignment = 0 then 0
  else findFreeAlignedUnlocked m_free search_start search_end size (max alignment PageSize)

end GuestAddressSpace

open GuestAddressSpace

/-- The loop of `find_in`, with fuel for its rounds. -/
def findInLoop (m_free : List Run) (m_ranges : VirtualRanges) (size alignment end_ : ℕ) :
    (fuel current : ℕ) → Option ℕ
  | 0, _ => none
  | fuel + 1, current =>
    if current < end_ ∧ size ≤ end_ - current then
      let candidate := findFreeAligned m_free current end_ size alignment
      if candidate = 0 then some 0
      else
        match m_ranges.queryOverlap candidate size with
        | none => some candidate
        | some overlap =>
          let overlap_end := addU64 overlap.start overlap.size
          if overlap_end ≤ current then some 0
          else findInLoop m_free m_ranges size alignment end_ fuel overlap_end
    else some 0

/-- `FindGuestFreeRange`, its loops with the given fuel. -/
def findGuestFreeRange (fuel : ℕ) (m_free : List Run) (m_ranges : VirtualRanges)
    (search_addr size alignment : ℕ) : Option ℕ := do
  let find_in := fun begin_ end_ => findInLoop m_free m_ranges size alignment end_ fuel begin_
  let hinted ← if search_addr ≠ 0 then find_in search_addr (HOST_USER_MAX + 1) else some 0
  if hinted ≠ 0 then return hinted
  let addr ← find_in GUEST_DEFAULT_MAP_BASE (HOST_SYSTEM_MANAGED_MAX + 1)
  if addr ≠ 0 then return addr
  find_in HOST_USER_MIN (HOST_USER_MAX + 1)

/-! ## What is looked for -/

variable (m_free : List Run)

/-- The multiples of the alignment in a window from which `size` bytes lie in one block.
A block that wraps is none. -/
def RoomAt (size alignment begin_ end_ : ℕ) : Set ℕ :=
  { a | alignment ∣ a ∧ begin_ ≤ a ∧ a + size ≤ end_ ∧
    ∃ block ∈ m_free, block.start + block.size ≤ UINT64_MAX ∧ block.start ≤ a ∧
      a + size ≤ block.start + block.size }

/-- The room for an alignment that is raised to the page size. Nothing suits an empty
interval or the alignment zero. -/
def FreeAt (size alignment begin_ end_ : ℕ) : Set ℕ :=
  { a | size ≠ 0 ∧ alignment ≠ 0 ∧ a ∈ RoomAt m_free size (max alignment PageSize) begin_ end_ }

/-- Of those, the ones whose interval meets no virtual range. -/
def FitsAt (m_ranges : VirtualRanges) (size alignment begin_ end_ : ℕ) : Set ℕ :=
  { a | a ∈ FreeAt m_free size alignment begin_ end_ ∧
    ∀ r ∈ m_ranges, a + size ≤ r.start ∨ r.start + r.size ≤ a }

/-- The windows of a search, in their order. -/
def searchWindows (search_addr : ℕ) : List (ℕ × ℕ) :=
  (if search_addr ≠ 0 then [(search_addr, HOST_USER_MAX + 1)] else []) ++
    [(GUEST_DEFAULT_MAP_BASE, HOST_SYSTEM_MANAGED_MAX + 1), (HOST_USER_MIN, HOST_USER_MAX + 1)]

/-- The result of looking for the least address in one set after another. Zero says that
there is none. -/
def LeastOfFirst : List (Set ℕ) → ℕ → Prop
  | [], r => r = 0
  | s :: sets, r => IsLeast s r ∨ s = ∅ ∧ LeastOfFirst sets r

/-- `m_free` is a map: no two blocks start at one address, and they are kept in the order of
their starts. Nothing is said of their sizes. -/
def InKeyOrder : Prop := m_free.Pairwise fun a b => a.start < b.start

/-! ## One pass over the free blocks -/

variable {alignment candidate search_start search_end current end_ fuel r : ℕ}
  {m_ranges : VirtualRanges}

theorem alignUp_spec (value : ℕ) (h0 : alignment ≠ 0) :
    (value ≤ alignUp value alignment ∧ alignment ∣ alignUp value alignment ∧
        ∀ a, value ≤ a → alignment ∣ a → alignUp value alignment ≤ a) ∨
      (alignUp value alignment = 0 ∧ ∀ a, value ≤ a → alignment ∣ a → UINT64_MAX < a) := by
  obtain ⟨hdvd, hleast⟩ := increment_spec value h0
  unfold alignUp
  rw [if_neg h0]
  dsimp only
  generalize (if value % alignment ≠ 0 then alignment - value % alignment else 0) = increment at *
  by_cases hover : increment ≤ UINT64_MAX - value
  · rw [if_pos hover]
    exact .inl ⟨Nat.le_add_right _ _, hdvd, hleast⟩
  · rw [if_neg hover]
    refine .inr ⟨rfl, fun a ha hal => ?_⟩
    have := hleast a ha hal
    omega

theorem guestFreeRangeContains_iff {base range_size size : ℕ} (hsize : 0 < size) :
    guestFreeRangeContains base range_size candidate size = true ↔
      base + range_size ≤ UINT64_MAX ∧ base ≤ candidate ∧ candidate + size ≤ base + range_size := by
  unfold guestFreeRangeContains
  by_cases hbad : UINT64_MAX - base < range_size ∨ candidate < base
  · rw [if_pos hbad]
    exact iff_of_false nofun (by omega)
  · rw [if_neg hbad, decide_eq_true_eq]
    omega

variable {m_free : List Run}

section

variable (hkeys : InKeyOrder m_free) (hbegin : 0 < search_start) (hend : search_end ≤ UINT64_MAX)

include hkeys hbegin hend

/-- The pass over the blocks returns the least address at which there is room. The blocks
come in the order of their starts, so the first one with room has it. -/
theorem findFreeAlignedLoop_spec {size : ℕ} (hsize : 0 < size) (h0 : alignment ≠ 0) :
    (findFreeAlignedLoop search_start search_end size alignment m_free ≠ 0 →
      IsLeast (RoomAt m_free size alignment search_start search_end)
        (findFreeAlignedLoop search_start search_end size alignment m_free)) ∧
    (findFreeAlignedLoop search_start search_end size alignment m_free = 0 →
      RoomAt m_free size alignment search_start search_end = ∅) := by
  induction m_free with
  | nil =>
    refine ⟨fun hr => absurd rfl hr, fun _ => Set.eq_empty_of_forall_notMem ?_⟩
    rintro a ⟨-, -, -, block, hblock, -⟩
    nomatch hblock
  | cons block m_free ih =>
    obtain ⟨hbehind, hkeys'⟩ := pairwise_cons.mp hkeys
    have hcandidate := alignUp_spec (max block.start search_start) h0
    unfold findFreeAlignedLoop
    generalize alignUp (max block.start search_start) alignment = candidate at *
    dsimp only
    have hcontains : guestFreeRangeContains block.start block.size candidate size = true ↔ _ :=
      guestFreeRangeContains_iff hsize
    -- wherever there is room, it is behind the start of the first block
    have hfrom : ∀ a ∈ RoomAt (block :: m_free) size alignment search_start search_end,
        max block.start search_start ≤ a ∧ alignment ∣ a ∧ a + size ≤ search_end := by
      rintro a ⟨hal, ha, hstop, block', hblock', -, ha', -⟩
      have hle : block.start ≤ block'.start := by
        rcases mem_cons.mp hblock' with rfl | hblock'
        · exact le_refl _
        · exact (hbehind block' hblock').le
      exact ⟨by omega, hal, hstop⟩
    rcases hcandidate with ⟨hge, hdvd, hleast⟩ | ⟨hzero, hbeyond⟩
    · by_cases hroom : candidate < search_end ∧ size ≤ search_end - candidate ∧
          guestFreeRangeContains block.start block.size candidate size = true
      · rw [if_pos hroom]
        rw [hcontains] at hroom
        obtain ⟨hlt, hspan, hfits, hstart, hstop⟩ := hroom
        refine ⟨fun _ => ⟨⟨hdvd, by omega, by omega, block, .head _ .., hfits,
          hstart, hstop⟩, ?_⟩, fun hr => by omega⟩
        intro a ha
        obtain ⟨h1, h2, -⟩ := hfrom a ha
        exact hleast a h1 h2
      · rw [if_neg hroom]
        rw [hcontains] at hroom
        have hsame : RoomAt (block :: m_free) size alignment search_start search_end =
            RoomAt m_free size alignment search_start search_end := by
          ext a
          unfold RoomAt
          rw [Set.mem_ofPred_eq, Set.mem_ofPred_eq, exists_mem_cons_iff]
          refine and_congr_right fun hal => and_congr_right fun ha =>
            and_congr_right fun hlast => or_iff_right ?_
          rintro ⟨hfits, hstart, hstop⟩
          have := hleast a (by omega) hal
          omega
        rw [hsame]
        exact ih hkeys'
    · -- no multiple of the alignment from here on is an address
      have hempty : RoomAt (block :: m_free) size alignment search_start search_end = ∅ := by
        apply Set.eq_empty_of_forall_notMem
        intro a ha
        obtain ⟨h1, h2, h3⟩ := hfrom a ha
        have := hbeyond a h1 h2
        omega
      have hrest : RoomAt m_free size alignment search_start search_end = ∅ := by
        apply Set.eq_empty_of_forall_notMem
        rintro a ⟨h1, h2, h3, block', hblock', h4⟩
        have ha : a ∈ RoomAt (block :: m_free) size alignment search_start search_end :=
          ⟨h1, h2, h3, block', .tail _ hblock', h4⟩
        rw [hempty] at ha
        exact ha
      rw [hempty]
      split
      · exact ⟨fun hr => absurd hzero hr, fun _ => rfl⟩
      · have hr := ih hkeys'
        rw [hrest] at hr
        exact ⟨hr.1, fun _ => rfl⟩

theorem findFreeAligned_spec (size alignment : ℕ) :
    (findFreeAligned m_free search_start search_end size alignment ≠ 0 →
      IsLeast (FreeAt m_free size alignment search_start search_end)
        (findFreeAligned m_free search_start search_end size alignment)) ∧
    (findFreeAligned m_free search_start search_end size alignment = 0 →
      FreeAt m_free size alignment search_start search_end = ∅) := by
  unfold findFreeAligned
  by_cases hbad : size = 0 ∨ alignment = 0
  · rw [if_pos hbad]
    refine ⟨fun hr => absurd rfl hr, fun _ => Set.eq_empty_of_forall_notMem ?_⟩
    rintro a ⟨hsize, halign, -⟩
    omega
  · rw [if_neg hbad]
    have hfree : FreeAt m_free size alignment search_start search_end =
        RoomAt m_free size (max alignment PageSize) search_start search_end := by
      ext a
      unfold FreeAt
      rw [Set.mem_ofPred_eq, and_iff_right (by omega), and_iff_right (by omega)]
    rw [hfree]
    unfold findFreeAlignedUnlocked
    by_cases hwindow : search_end ≤ search_start ∨ search_end - search_start < size
    · rw [if_pos hwindow]
      refine ⟨fun hr => absurd rfl hr, fun _ => Set.eq_empty_of_forall_notMem ?_⟩
      rintro a ⟨-, h1, h2, -⟩
      omega
    · rw [if_neg hwindow]
      exact findFreeAlignedLoop_spec hkeys hbegin hend (by omega) (by omega)

end

/-! ## The search in one window -/

theorem fitsAt_skip {size : ℕ}
    (hleast : IsLeast (FreeAt m_free size alignment current end_) candidate) {overlap : Range}
    (hmem : overlap ∈ m_ranges) (hstart : overlap.start < candidate + size)
    (hend : candidate < overlap.start + overlap.size) :
    FitsAt m_free m_ranges size alignment current end_ =
      FitsAt m_free m_ranges size alignment (overlap.start + overlap.size) end_ := by
  ext a
  constructor
  · rintro ⟨hfree, hapart⟩
    have hle := hleast.2 hfree
    obtain ⟨hsize, halign, hal, ha, hstop, hblock⟩ := hfree
    -- an address before the end of the range is one from which the range is met too
    have hskip : overlap.start + overlap.size ≤ a := by
      rcases hapart overlap hmem with h' | h' <;> omega
    exact ⟨⟨hsize, halign, hal, hskip, hstop, hblock⟩, hapart⟩
  · rintro ⟨⟨hsize, halign, hal, ha, hstop, hblock⟩, hapart⟩
    have hfrom := hleast.1.2.2.2.1
    exact ⟨⟨hsize, halign, hal, by omega, hstop, hblock⟩, hapart⟩

/-- **The loop of `find_in`** comes to an end, with the least address that fits both
tables, or zero if none does. Every round passes the end of one more range. -/
theorem findInLoop_spec (hkeys : InKeyOrder m_free) (hr : m_ranges.Wf) (size alignment : ℕ)
    (hend : end_ ≤ UINT64_MAX) (hbegin : 0 < current) (hfuel : ahead m_ranges current < fuel) :
    ∃ r, findInLoop m_free m_ranges size alignment end_ fuel current = some r ∧
      (IsLeast (FitsAt m_free m_ranges size alignment current end_) r ∧ r ≠ 0 ∨
        r = 0 ∧ FitsAt m_free m_ranges size alignment current end_ = ∅) := by
  induction fuel generalizing current with
  | zero => exact absurd hfuel (Nat.not_lt_zero _)
  | succ fuel ih =>
    unfold findInLoop
    by_cases hwindow : current < end_ ∧ size ≤ end_ - current
    · rw [if_pos hwindow]
      obtain ⟨hsome, hnone⟩ := findFreeAligned_spec hkeys hbegin hend size alignment
      generalize findFreeAligned m_free current end_ size alignment = candidate at *
      by_cases hzero : candidate = 0
      · rw [if_pos hzero]
        refine ⟨0, rfl, .inr ⟨rfl, Set.eq_empty_of_forall_notMem ?_⟩⟩
        rintro a ⟨hfree, -⟩
        rw [hnone hzero] at hfree
        exact hfree
      · rw [if_neg hzero]
        have hleast := hsome hzero
        obtain ⟨hsize, -, -, hfrom, hstop, -⟩ := hleast.1
        have hspan : candidate + size ≤ UINT64_MAX := hstop.trans hend
        have hmeets := findOverlap_isSome_iff hr hspan
        cases hoverlap : m_ranges.queryOverlap candidate size with
        | none =>
          refine ⟨candidate, rfl, .inl ⟨⟨⟨hleast.1, fun r hmem => ?_⟩, ?_⟩, hzero⟩⟩
          · -- a range that meets the interval would have been found
            by_contra hno
            have hp : r.start < r.start + r.size := hr.proper r hmem
            have hmapped : attrOf m_ranges (max candidate r.start) ≠ none :=
              view_ne_none_iff.mpr ⟨r, hmem, by show r.start ≤ _; omega,
                by show _ < r.start + r.size; omega⟩
            have := hmeets.mpr ⟨max candidate r.start, by omega, by omega, hmapped⟩
            rw [show findOverlap m_ranges candidate size = none from hoverlap] at this
            nomatch this
          · rintro a ⟨hfree, -⟩
            exact hleast.2 hfree
        | some overlap =>
          obtain ⟨hmem, h1, h2⟩ := findOverlap_mem hr hspan hoverlap
          have hfits := (hr.fits overlap hmem).2
          dsimp only
          rw [addU64_of_le hfits, if_neg (by omega), fitsAt_skip hleast hmem h1 h2]
          have hahead : ahead m_ranges (overlap.start + overlap.size) <
              ahead m_ranges current := ahead_lt hmem
                (show current < overlap.start + overlap.size by omega) le_rfl
          exact ih (by omega) (by omega)
    · rw [if_neg hwindow]
      refine ⟨0, rfl, .inr ⟨rfl, Set.eq_empty_of_forall_notMem ?_⟩⟩
      rintro a ⟨⟨hsize, -, -, h1, h2, -⟩, -⟩
      omega

/-! ## The windows in turn -/

/-- **`FindGuestFreeRange`** with fuel for all ranges. -/
theorem findGuestFreeRange_spec (hkeys : InKeyOrder m_free)
    (hr : m_ranges.Wf) (search_addr size alignment : ℕ) (hfuel : m_ranges.length < fuel) :
    ∃ r, findGuestFreeRange fuel m_free m_ranges search_addr size alignment = some r ∧
      LeastOfFirst ((searchWindows search_addr).map fun w =>
        FitsAt m_free m_ranges size alignment w.1 w.2) r := by
  have hin : ∀ begin_ end_, 0 < begin_ → end_ ≤ UINT64_MAX →
      ∃ r, findInLoop m_free m_ranges size alignment end_ fuel begin_ = some r ∧
        (IsLeast (FitsAt m_free m_ranges size alignment begin_ end_) r ∧ r ≠ 0 ∨
          r = 0 ∧ FitsAt m_free m_ranges size alignment begin_ end_ = ∅) :=
    fun begin_ end_ hbegin hend => findInLoop_spec hkeys hr size alignment hend hbegin
      ((ahead_le_length m_ranges begin_).trans_lt hfuel)
  -- the two windows that every search ends with
  have htail : ∃ r, (do
      let addr ← findInLoop m_free m_ranges size alignment (HOST_SYSTEM_MANAGED_MAX + 1) fuel
        GUEST_DEFAULT_MAP_BASE
      if addr ≠ 0 then return addr
      findInLoop m_free m_ranges size alignment (HOST_USER_MAX + 1) fuel HOST_USER_MIN) = some r ∧
      LeastOfFirst ([(GUEST_DEFAULT_MAP_BASE, HOST_SYSTEM_MANAGED_MAX + 1),
        (HOST_USER_MIN, HOST_USER_MAX + 1)].map fun w =>
          FitsAt m_free m_ranges size alignment w.1 w.2) r := by
    obtain ⟨r, hrun, hleast⟩ := hin GUEST_DEFAULT_MAP_BASE (HOST_SYSTEM_MANAGED_MAX + 1)
      (by decide) (by decide)
    obtain ⟨r', hrun', hleast'⟩ := hin HOST_USER_MIN (HOST_USER_MAX + 1) (by decide) (by decide)
    rcases hleast with ⟨hleast, hne⟩ | ⟨rfl, hempty⟩
    · exact ⟨r, by simp [hrun, hne], .inl hleast⟩
    · refine ⟨r', by simp [hrun, hrun'], .inr ⟨hempty, ?_⟩⟩
      rcases hleast' with ⟨hleast', -⟩ | ⟨rfl, hempty'⟩
      · exact .inl hleast'
      · exact .inr ⟨hempty', rfl⟩
  obtain ⟨r, hrun, hleast⟩ := htail
  unfold findGuestFreeRange
  by_cases hsearch : search_addr = 0
  · have hwindows : searchWindows search_addr = [(GUEST_DEFAULT_MAP_BASE,
        HOST_SYSTEM_MANAGED_MAX + 1), (HOST_USER_MIN, HOST_USER_MAX + 1)] := by
      unfold searchWindows
      rw [if_neg (not_not.mpr hsearch)]
      rfl
    rw [hwindows]
    exact ⟨r, by simpa [hsearch] using hrun, hleast⟩
  · have hwindows : searchWindows search_addr = (search_addr, HOST_USER_MAX + 1) ::
        [(GUEST_DEFAULT_MAP_BASE, HOST_SYSTEM_MANAGED_MAX + 1),
          (HOST_USER_MIN, HOST_USER_MAX + 1)] := by
      unfold searchWindows
      rw [if_pos hsearch]
      rfl
    rw [hwindows, map_cons]
    obtain ⟨r', hrun', hleast'⟩ := hin search_addr (HOST_USER_MAX + 1) (by omega) (by decide)
    rcases hleast' with ⟨hleast', hne⟩ | ⟨rfl, hempty⟩
    · exact ⟨r', by simp [hsearch, hrun', hne], .inl hleast'⟩
    · refine ⟨r, ?_, .inr ⟨hempty, hleast⟩⟩
      simpa [hsearch, hrun'] using hrun

/-! ## The free blocks stay a map -/

section

variable (h : InKeyOrder m_free)

include h

theorem inKeyOrder_dropWhile {k : ℕ} {b : Run}
    (hb : b ∈ m_free.dropWhile fun c => decide (c.start < k)) : k ≤ b.start := by
  induction m_free with
  | nil => nomatch hb
  | cons c m_free ih =>
    obtain ⟨hbehind, h'⟩ := pairwise_cons.mp h
    by_cases hc : c.start < k
    · rw [dropWhile_cons_of_pos (by simpa using hc)] at hb
      exact ih h' hb
    · rw [dropWhile_cons_of_neg (by simpa using hc)] at hb
      rcases mem_cons.mp hb with rfl | hb
      · exact Nat.le_of_not_lt hc
      · have := hbehind b hb
        omega

theorem InKeyOrder.place {b : Run}
    (hb : ∀ c ∈ m_free, c.start ≠ b.start) : InKeyOrder (place b m_free) := by
  have hsplit : m_free.takeWhile (fun c => decide (lo c < lo b)) ++
      m_free.dropWhile (fun c => decide (lo c < lo b)) = m_free := takeWhile_append_dropWhile
  obtain ⟨h1, h2, h3⟩ := pairwise_append.mp (hsplit.symm ▸ h)
  have hbefore : ∀ c ∈ m_free.takeWhile (fun c => decide (lo c < lo b)), c.start < b.start :=
    fun c hc => lo_lt_of_mem_takeWhile hc
  have hbehind : ∀ c ∈ m_free.dropWhile (fun c => decide (lo c < lo b)), b.start < c.start := by
    intro c hc
    have hle : b.start ≤ c.start := inKeyOrder_dropWhile h hc
    have hne := hb c ((dropWhile_sublist _).subset hc)
    omega
  refine pairwise_append.mpr ⟨h1, pairwise_cons.mpr ⟨hbehind, h2⟩, ?_⟩
  intro c hc d hd
  rcases mem_cons.mp hd with rfl | hd
  · exact hbefore c hc
  · exact h3 c hc d hd

theorem InKeyOrder.setSize (start size : ℕ) : InKeyOrder (setSize start size m_free) := by
  unfold GuestAddressSpace.setSize InKeyOrder
  rw [pairwise_map]
  refine h.imp fun {a b} hab => ?_
  have hstart : ∀ c : Run, (if c.start = start then { c with size } else c).start = c.start := by
    intro c
    split <;> rfl
  rwa [hstart, hstart]

theorem InKeyOrder.emplaceFirst (start size : ℕ) :
    InKeyOrder (emplaceFirst start size m_free).2 := by
  unfold GuestAddressSpace.emplaceFirst
  split
  · exact h
  next hnone =>
    rw [List.find?_eq_none] at hnone
    exact h.place fun c hc => by simpa using hnone c hc

theorem InKeyOrder.splitUnlocked (it : Run)
    (vaddr size : ℕ) : InKeyOrder (splitUnlocked m_free it vaddr size) := by
  unfold GuestAddressSpace.splitUnlocked
  dsimp only
  split
  · exact h
  · split
    · have hleft := (h.setSize it.start (subU64 vaddr it.start)).emplaceFirst vaddr
        (subU64 (addU64 it.start it.size) vaddr)
      split
      · exact (hleft.setSize _ _).emplaceFirst _ _
      · exact hleft
    · split
      · exact (h.setSize _ _).emplaceFirst _ _
      · exact h

theorem InKeyOrder.consumeUnlocked (vaddr size : ℕ) :
    InKeyOrder (consumeUnlocked m_free vaddr size).2 := by
  unfold GuestAddressSpace.consumeUnlocked
  split
  · exact h
  next it _ =>
    have hsplit := h.splitUnlocked it vaddr size
    dsimp only
    split
    · exact hsplit
    · split
      · exact hsplit
      · exact hsplit.sublist filter_sublist

end

theorem coalesceBack_keys (base : ℕ) {before : List Run}
    (h : before.Pairwise fun a b => b.start < a.start) (hbase : ∀ b ∈ before, b.start < base) :
    (coalesceBack base before).1 ≤ base ∧ (coalesceBack base before).2.Sublist before ∧
      ∀ b ∈ (coalesceBack base before).2, b.start < (coalesceBack base before).1 := by
  induction before generalizing base with
  | nil => exact ⟨le_refl _, refl _, hbase⟩
  | cons prev before ih =>
    obtain ⟨hprev, h'⟩ := pairwise_cons.mp h
    have hlt := hbase prev (.head _ ..)
    unfold coalesceBack
    split
    · exact ⟨le_refl _, refl _, hbase⟩
    · obtain ⟨h1, h2, h3⟩ := ih prev.start h' hprev
      exact ⟨h1.trans hlt.le, h2.trans (sublist_cons_self _ _), h3⟩

theorem coalesceForward_keys (end_ : ℕ) (after : List Run) :
    (coalesceForward end_ after).2.Sublist after := by
  induction after generalizing end_ with
  | nil => exact refl _
  | cons last after ih =>
    unfold coalesceForward
    split
    · exact (ih _).trans (sublist_cons_self _ _)
    · exact refl _

theorem InKeyOrder.addFreeUnlocked (h : InKeyOrder m_free) (vaddr size : ℕ) :
    InKeyOrder (addFreeUnlocked m_free vaddr size) := by
  unfold GuestAddressSpace.addFreeUnlocked
  split
  · exact h
  · dsimp only
    have hbefore : ∀ b ∈ m_free.takeWhile (fun b => decide (b.start < vaddr)), b.start < vaddr :=
      fun b hb => by simpa using mem_takeWhile_imp hb
    have hafter : ∀ b ∈ m_free.dropWhile (fun b => decide (b.start ≤ vaddr)), vaddr < b.start := by
      intro b hb
      simp only [← Nat.lt_succ_iff] at hb
      exact inKeyOrder_dropWhile h hb
    have hfront : InKeyOrder (m_free.takeWhile fun b => decide (b.start < vaddr)) :=
      h.sublist (takeWhile_sublist _)
    have hback : InKeyOrder (m_free.dropWhile fun b => decide (b.start ≤ vaddr)) :=
      h.sublist (dropWhile_sublist _)
    generalize m_free.takeWhile (fun b => decide (b.start < vaddr)) = before at *
    generalize m_free.dropWhile (fun b => decide (b.start ≤ vaddr)) = after at *
    obtain ⟨hle, hsub, hbelow⟩ := coalesceBack_keys vaddr (pairwise_reverse.mpr hfront)
      fun b hb => hbefore b (mem_reverse.mp hb)
    have hsub' := coalesceForward_keys (addU64 vaddr size) after
    generalize coalesceBack vaddr before.reverse = back at *
    generalize coalesceForward (addU64 vaddr size) after = forward at *
    obtain ⟨base, first⟩ := back
    have hjoin : ∀ (front : List Run) (b : Run) (behind : List Run), InKeyOrder front →
        InKeyOrder behind → (∀ c ∈ front, c.start < b.start) → (∀ c ∈ behind, b.start < c.start) →
        InKeyOrder (front ++ b :: behind) := by
      intro front b behind h1 h2 h3 h4
      refine pairwise_append.mpr ⟨h1, pairwise_cons.mpr ⟨h4, h2⟩, ?_⟩
      intro c hc d hd
      rcases mem_cons.mp hd with rfl | hd
      · exact h3 c hc
      · exact (h3 c hc).trans (h4 d hd)
    split
    · apply hjoin
      · have hrev : first.reverse.Sublist before := by
          have := reverse_sublist.mpr hsub
          rwa [reverse_reverse] at this
        exact hfront.sublist hrev
      · exact hback.sublist hsub'
      · exact fun c hc => hbelow c (mem_reverse.mp hc)
      · exact fun c hc => hle.trans_lt (hafter c (hsub'.subset hc))
    · exact hjoin _ ⟨vaddr, size⟩ _ hfront hback hbefore hafter

namespace GuestAddressSpace

variable {s s' : GuestAddressSpace} {vaddr size : ℕ} {ok : Bool} {mode : Mode}

section

variable (h : InKeyOrder s.m_free)

include h

theorem mapBacking_keys {backing_offset : ℕ}
    (heq : s.mapBacking vaddr size backing_offset mode = some (ok, s')) : InKeyOrder s'.m_free := by
  have hconsumed := h.consumeUnlocked vaddr size
  unfold mapBacking at heq
  generalize consumeUnlocked s.m_free vaddr size = result at *
  dsimp only at heq
  split at heq
  · split at heq
    · nomatch heq
    · obtain ⟨m_mapped, -, heq⟩ := Option.map_eq_some_iff.mp heq
      cases heq
      exact hconsumed
    · cases heq
      exact hconsumed.addFreeUnlocked vaddr size
  · cases heq
    exact hconsumed

theorem unmapBacking_keys
    (heq : s.unmapBacking vaddr size = some (ok, s')) : InKeyOrder s'.m_free := by
  unfold unmapBacking at heq
  split at heq
  · split at heq
    · nomatch heq
    · cases heq
      exact h
    · split at heq
      · cases heq
        exact h.addFreeUnlocked vaddr size
      · nomatch heq
  · cases heq
    exact h

theorem commitConsumed_keys
    (heq : commitConsumed s vaddr size mode = some (ok, s')) : InKeyOrder s'.m_free := by
  unfold commitConsumed at heq
  generalize s.m_backing.host.protect vaddr size (hostMode mode) = called at heq
  dsimp only at heq
  split at heq
  · obtain ⟨m_mapped, -, heq⟩ := Option.map_eq_some_iff.mp heq
    cases heq
    exact h
  · cases heq
    exact h.addFreeUnlocked vaddr size

theorem claimFixedUnlocked_keys (vaddr size : ℕ) :
    InKeyOrder (claimFixedUnlocked s vaddr size).2.m_free := by
  unfold claimFixedUnlocked
  dsimp only
  split
  · exact h.addFreeUnlocked _ _
  · exact h

theorem commit_keys (heq : s.commit vaddr size mode = some (ok, s')) : InKeyOrder s'.m_free := by
  have hconsumed := h.consumeUnlocked vaddr size
  unfold commit at heq
  generalize consumeUnlocked s.m_free vaddr size = result at *
  obtain ⟨consumed, m_free⟩ := result
  dsimp only at heq
  split at heq
  · exact commitConsumed_keys (s := { s with m_free }) hconsumed heq
  · have hclaimed := claimFixedUnlocked_keys (s := { s with m_free }) hconsumed vaddr size
    generalize claimFixedUnlocked { s with m_free } vaddr size = claim at *
    obtain ⟨claimed, s1⟩ := claim
    have hconsumed1 := hclaimed.consumeUnlocked vaddr size
    generalize consumeUnlocked s1.m_free vaddr size = result1 at *
    obtain ⟨consumed1, m_free1⟩ := result1
    split at heq
    · split at heq
      · exact commitConsumed_keys (s := { s1 with m_free := m_free1 }) hconsumed1 heq
      · cases heq
        exact hconsumed1
    · cases heq
      exact hclaimed

theorem releaseCommitted_keys
    (heq : s.releaseCommitted vaddr size = some (ok, s')) : InKeyOrder s'.m_free := by
  unfold releaseCommitted at heq
  split at heq
  · cases heq
    exact h
  · split at heq
    · split at heq
      · nomatch heq
      · split at heq
        · nomatch heq
        · split at heq
          · cases heq
            exact h.addFreeUnlocked vaddr size
          · nomatch heq
    · cases heq
      exact h

theorem step_keys {op : Op} (heq : step s op = some (ok, s')) : InKeyOrder s'.m_free := by
  cases op with
  | mapBacking vaddr size backing_offset mode => exact mapBacking_keys h heq
  | unmapBacking vaddr size => exact unmapBacking_keys h heq
  | commit vaddr size mode => exact commit_keys h heq
  | releaseCommitted vaddr size => exact releaseCommitted_keys h heq

theorem run_keys {ops : List Op} (heq : run s ops = some s') : InKeyOrder s'.m_free := by
  induction ops generalizing s with
  | nil => exact Option.some.inj heq ▸ h
  | cons op ops ih =>
    obtain ⟨⟨ok, s1⟩, hstep, hrun⟩ := Option.bind_eq_some_iff.mp heq
    exact ih (step_keys h hstep) hrun

end

theorem init_keys (ranges : List Run) (backing_size : ℕ) (host : Host) :
    InKeyOrder (init ranges backing_size host).m_free := by
  suffices key : ∀ s : GuestAddressSpace, InKeyOrder s.m_free →
      InKeyOrder (ranges.foldl reserveRange s).m_free from key _ .nil
  induction ranges with
  | nil => exact fun s h => h
  | cons range ranges ih => exact fun s h => ih _ (h.addFreeUnlocked range.start range.size)

end GuestAddressSpace

/-! ## The search in every reachable state -/

variable {sets : List (Set ℕ)}

theorem LeastOfFirst.unique {r' : ℕ} (h : LeastOfFirst sets r)
    (h' : LeastOfFirst sets r') : r = r' := by
  induction sets with
  | nil => exact h.trans h'.symm
  | cons s sets ih =>
    rcases h with h | ⟨hempty, h⟩ <;> rcases h' with h' | ⟨hempty', h'⟩
    · exact h.unique h'
    · exact absurd h.1 (hempty' ▸ Set.notMem_empty r)
    · exact absurd h'.1 (hempty ▸ Set.notMem_empty r')
    · exact ih h h'

theorem LeastOfFirst.eq_zero_iff (h : LeastOfFirst sets r)
    (hpos : ∀ s ∈ sets, 0 ∉ s) : r = 0 ↔ ∀ s ∈ sets, s = ∅ := by
  induction sets with
  | nil => exact iff_of_true h (by simp)
  | cons s sets ih =>
    obtain ⟨hs, hsets⟩ := forall_mem_cons.mp hpos
    rw [forall_mem_cons]
    rcases h with h | ⟨hempty, h⟩
    · refine iff_of_false (fun hr => hs (hr ▸ h.1)) fun hall => ?_
      rw [hall.1] at h
      exact h.1
    · rw [ih h hsets, and_iff_right hempty]

open GuestAddressSpace in
/-- **`FindGuestFreeRange` is exact.** Whatever was asked of the two tables before, the
search comes to an end, with the least address, in the first of its windows that has
one, that is a multiple of the alignment raised to the page size and from which the
interval lies in one free block and meets no virtual range; it returns zero exactly if
no window has such an address. -/
theorem findGuestFreeRange_exact {ranges : List Run} {backing_size : ℕ} {host : Host}
    {ops : List Op} {s : GuestAddressSpace} (hrun : run (init ranges backing_size host) ops = some s)
    {vops : List VrOp} (hvops : ∀ op ∈ vops, op.NoWrap) (search_addr size alignment : ℕ) :
    ∃ r, (∀ fuel, (VrOp.run [] vops).length < fuel →
        findGuestFreeRange fuel s.m_free (VrOp.run [] vops) search_addr size alignment = some r) ∧
      LeastOfFirst ((searchWindows search_addr).map fun w =>
        FitsAt s.m_free (VrOp.run [] vops) size alignment w.1 w.2) r ∧
      (r = 0 ↔ ∀ w ∈ searchWindows search_addr,
        FitsAt s.m_free (VrOp.run [] vops) size alignment w.1 w.2 = ∅) := by
  have hkeys := run_keys (init_keys ranges backing_size host) hrun
  have hwf := VrOp.wf_run VirtualRanges.wf_nil hvops
  obtain ⟨r, -, hleast⟩ := findGuestFreeRange_spec hkeys hwf search_addr size alignment
    (Nat.lt_succ_self _)
  refine ⟨r, fun fuel hfuel => ?_, hleast, ?_⟩
  · obtain ⟨r', hsearch, hleast'⟩ :=
      findGuestFreeRange_spec hkeys hwf search_addr size alignment hfuel
    rw [hsearch, hleast.unique hleast']
  · rw [hleast.eq_zero_iff, List.forall_mem_map]
    rw [List.forall_mem_map]
    rintro w hw ⟨⟨-, -, -, hbegin, -⟩, -⟩
    -- no window begins at address zero
    have hpos : 0 < w.1 := by
      rcases List.mem_append.mp hw with hw | hw
      · split at hw
        · obtain rfl := List.mem_singleton.mp hw
          omega
        · exact nomatch hw
      · rcases List.mem_cons.mp hw with rfl | hw
        · show 0 < GUEST_DEFAULT_MAP_BASE
          decide
        · obtain rfl := List.mem_singleton.mp hw
          decide
    omega

/-- A reservation in the way, and one behind it. -/
theorem findGuestFreeRange_exact_skip :
    ∃ r, (∀ fuel, 1 < fuel → findGuestFreeRange fuel [⟨0x200000000, 0x100000⟩]
        (VrOp.run [] [.add 0x200000000 0x4000 0 0 0 .reserved none false]) 0 0x4000 0x8000 =
          some r) ∧
      LeastOfFirst ((searchWindows 0).map fun w => FitsAt [⟨0x200000000, 0x100000⟩]
        (VrOp.run [] [.add 0x200000000 0x4000 0 0 0 .reserved none false]) 0x4000 0x8000
          w.1 w.2) r := by
  obtain ⟨r, hsearch, hleast, -⟩ := findGuestFreeRange_exact
    (show GuestAddressSpace.run (GuestAddressSpace.init [⟨0x200000000, 0x100000⟩] 0
      GuestAddressSpace.grantingHost) [] = some _ from rfl)
    (show ∀ op ∈ [VrOp.add 0x200000000 0x4000 0 0 0 .reserved none false], op.NoWrap by decide)
    0 0x4000 0x8000
  exact ⟨r, hsearch, hleast⟩

/-- The alignment that is asked for is not the one that is met: from a free address on
which one byte fits, the search for an alignment of one goes on to the next page. -/
theorem findGuestFreeRange_page_aligned :
    findGuestFreeRange 1 [⟨0x200000000, 0x100000⟩] [] 0x200000001 1 1 = some 0x200004000 ∧
      0x200000001 ∈ RoomAt [⟨0x200000000, 0x100000⟩] 1 1 0x200000001 (HOST_USER_MAX + 1) ∧
      ¬ IsLeast (RoomAt [⟨0x200000000, 0x100000⟩] 1 1 0x200000001 (HOST_USER_MAX + 1))
        0x200004000 := by
  have hroom : 0x200000001 ∈ RoomAt [⟨0x200000000, 0x100000⟩] 1 1 0x200000001 (HOST_USER_MAX + 1) :=
    ⟨one_dvd _, le_refl _, by decide, _, List.mem_singleton_self _, by decide, by decide,
      by decide⟩
  refine ⟨by decide, hroom, fun hleast => ?_⟩
  have := hleast.2 hroom
  omega

end MagnusPS5.Kernel
