/-
`PageManager` (`pageManager.cpp`): how many watchers each page of the guest has, and the
host protection that follows from them.

A page has write watchers, which make it read-only, and at most one access watcher,
which makes it inaccessible. `UpdateRegionWatchers` goes over the pages of a region,
changes the counts of those in a mask, and gathers neighbouring pages with the same new
protection into one call to the host. The locks are left out: a call runs to its end.
-/
import MagnusPS5.Lib.Yields
import MagnusPS5.Common.BitArrayRuns
import MagnusPS5.Kernel.AddressSpace

namespace MagnusPS5.Graphics

open Lib
open Common (BitArray)
open Kernel (GuestAddressSpace)

/-! ## Sizes (`regionDefinitions.h`) -/

abbrev TRACKER_PAGE_SIZE : ℕ := 4096

abbrev TRACKER_REGION_SIZE : ℕ := 4194304

abbrev TRACKER_ADDRESS_SIZE : ℕ := 1099511627776

abbrev TRACKER_REGION_PAGES : ℕ := 1024

/-- `RegionBits`, a `BitArray<TRACKER_REGION_PAGES>`. -/
abbrev RegionBits := BitArray 16

/-! ## Aborts -/

/-- `NO_ACCESS_PROTECTION`, `READ_ONLY_PROTECTION` and `READ_WRITE_PROTECTION`. -/
inductive Protection
  | noAccess | readOnly | readWrite
  deriving DecidableEq

/-- The places where the page manager and the memory tracker stop the process. -/
inductive Abort
  /-- `invalid range vaddr=…, size=…` -/
  | invalidRange (vaddr size : ℕ)
  /-- `read-watcher overflow at …` -/
  | readWatcherOverflow (address : ℕ)
  /-- `read-watcher underflow at …` -/
  | readWatcherUnderflow (address : ℕ)
  /-- `write-watcher overflow at …` -/
  | writeWatcherOverflow (address : ℕ)
  /-- `write-watcher underflow at …` -/
  | writeWatcherUnderflow (address : ℕ)
  /-- `address-space protection failed at …, new=…` -/
  | protectionFailed (vaddr : ℕ) (protection : Protection)
  /-- `untracking unknown page …` -/
  | untrackingUnknownPage (address : ℕ)
  /-- `untracking unknown region …` -/
  | untrackingUnknownRegion (base_addr : ℕ)
  /-- `invalid tracking region base …` -/
  | invalidTrackingRegionBase (base_addr : ℕ)
  /-- `empty region watcher mask` -/
  | emptyRegionWatcherMask
  /-- `invalid region tracking manager construction` -/
  | invalidConstruction
  /-- `range lies outside its tracking region` -/
  | rangeOutsideRegion
  /-- `CPU dirty state conflicts with GPU dirty state` -/
  | cpuConflictsWithGpu
  /-- `GPU dirty state conflicts with CPU dirty state` -/
  | gpuConflictsWithCpu
  /-- `invalid memory tracker range` -/
  | invalidTrackerRange
  /-- `cannot untrack GPU-dirty memory` -/
  | untrackGpuDirty
  deriving DecidableEq

/-! ## The state of a page -/

def toMemoryMode : Protection → Kernel.Mode
  | .noAccess => .noAccess
  | .readOnly => .read
  | .readWrite => .readWrite

structure PageState where
  write_watchers : ℕ := 0
  access_watchers : ℕ := 0
  managed : Bool := false
  faults : ℕ := 0
  deriving DecidableEq

def PageState.perms (hot_page_escape : Bool) (page : PageState) : Protection :=
  if hot_page_escape ∧ page.faults ≥ 3 then .readWrite
  else if page.access_watchers ≠ 0 then .noAccess
  else if page.write_watchers ≠ 0 then .readOnly
  else .readWrite

/-- `PageState::AddDelta`, for a delta of 1, -1 or 0: the new count and the page. -/
def PageState.addDelta (page : PageState) (delta : ℤ) (is_read : Bool) (address : ℕ) :
    Except Abort (ℕ × PageState) :=
  if is_read then
    if delta = 1 then
      if page.access_watchers ≠ 0 then .error (.readWatcherOverflow address)
      else .ok (page.access_watchers + 1, { page with access_watchers := page.access_watchers + 1 })
    else if delta = -1 then
      if page.access_watchers = 0 then .error (.readWatcherUnderflow address)
      else .ok (page.access_watchers - 1, { page with access_watchers := page.access_watchers - 1 })
    else .ok (page.access_watchers, page)
  else
    if delta = 1 then
      if page.write_watchers = 0x7f then .error (.writeWatcherOverflow address)
      else .ok (page.write_watchers + 1, { page with write_watchers := page.write_watchers + 1 })
    else if delta = -1 then
      if page.write_watchers = 0 then .error (.writeWatcherUnderflow address)
      else .ok (page.write_watchers - 1, { page with write_watchers := page.write_watchers - 1 })
    else .ok (page.write_watchers, page)

/-! ## The manager -/

/-- `PageManager::Impl`, with the guest address space it protects pages of. -/
structure PageManager where
  /-- `g_hot_page_escape` -/
  hot_page_escape : Bool
  /-- The pages of each region that exists. -/
  regions : ℕ → Option (ℕ → PageState)
  /-- `g_guest_address_space` -/
  guest : Option GuestAddressSpace

/-- The range check of `pageManager.cpp`. -/
def validateRange (vaddr size : ℕ) : Except Abort Unit :=
  if vaddr = 0 ∨ size = 0 ∨ vaddr ≥ TRACKER_ADDRESS_SIZE ∨ size > TRACKER_ADDRESS_SIZE - vaddr then
    .error (.invalidRange vaddr size)
  else .ok ()

def pageStart (vaddr : ℕ) : ℕ := vaddr - vaddr % TRACKER_PAGE_SIZE

def pageEnd (vaddr size : ℕ) : Except Abort ℕ := do
  validateRange vaddr size
  return pageStart (vaddr + size - 1) + TRACKER_PAGE_SIZE

def protect (guest : Option GuestAddressSpace) (vaddr size : ℕ) (protection : Protection) :
    Except Abort (Option GuestAddressSpace) :=
  match guest with
  | none => .error (.protectionFailed vaddr protection)
  | some guest =>
    let (ok, guest) := guest.protect vaddr size (toMemoryMode protection)
    if ok then .ok (some guest) else .error (.protectionFailed vaddr protection)

/-- The variables of the loop of `UpdateRegionWatchers`. -/
structure Sweep where
  pages : ℕ → PageState
  guest : Option GuestAddressSpace
  perms : Protection
  range_begin : ℕ := 0
  range_bytes : ℕ := 0
  potential_range_bytes : ℕ := 0

def releasePending (base_addr : ℕ) (s : Sweep) : Except Abort Sweep :=
  if s.range_bytes ≠ 0 then do
    let guest ← protect s.guest (base_addr + s.range_begin * TRACKER_PAGE_SIZE) s.range_bytes s.perms
    return { s with guest, range_bytes := 0, potential_range_bytes := 0 }
  else return s

/-- Whether the protection of a run of pages is gathered further, or released because
this page has another one. -/
def gather (base_addr : ℕ) (new_perms : Protection) (s : Sweep) : Except Abort Sweep :=
  if new_perms ≠ s.perms then do
    let s ← releasePending base_addr s
    return { s with perms := new_perms }
  else if s.range_bytes ≠ 0 then
    return { s with potential_range_bytes := s.potential_range_bytes + TRACKER_PAGE_SIZE }
  else return s

/-- One page of the loop of `UpdateRegionWatchers`. -/
def updatePage (hot_page_escape track is_read : Bool) (base_addr : ℕ) (mask : ℕ → Bool)
    (page_index : ℕ) (s : Sweep) : Except Abort Sweep := do
  let page := s.pages page_index
  let address := base_addr + page_index * TRACKER_PAGE_SIZE
  let update := mask page_index
  let page := if track then { page with managed := page.managed || update } else page
  let old_perms := page.perms hot_page_escape
  let (new_count, page) ←
    page.addDelta (if update then if track then 1 else -1 else 0) is_read address
  let new_perms := page.perms hot_page_escape
  let s ← gather base_addr new_perms
    { s with pages := Function.update s.pages page_index page }
  if update = false then return s
  else
    let watcher_edge := (track = true ∧ new_count = 1) ∨ (track = false ∧ new_count = 0)
    if watcher_edge ∧ old_perms ≠ new_perms then
      let s :=
        if s.range_bytes = 0 then
          { s with range_begin := page_index, potential_range_bytes := TRACKER_PAGE_SIZE }
        else s
      return { s with range_bytes := s.potential_range_bytes }
    else return s

/-- `UpdateRegionWatchers`: the pages of the region and the guest after it. Without a
mask every page from `first` to `last` is updated. -/
def updateRegionWatchers (hot_page_escape track is_read : Bool) (base_addr first last : ℕ)
    (mask : ℕ → Bool) (pages : ℕ → PageState) (guest : Option GuestAddressSpace) :
    Except Abort ((ℕ → PageState) × Option GuestAddressSpace) := do
  let s ← (List.range' first (last - first)).foldlM
    (fun s page_index => updatePage hot_page_escape track is_read base_addr mask page_index s)
    { pages, guest, perms := (pages first).perms hot_page_escape }
  let s ← releasePending base_addr s
  return (s.pages, s.guest)

namespace PageManager

variable (m : PageManager)

variable (vaddr : ℕ)

def findRegion : Option (ℕ → PageState) :=
  if vaddr < TRACKER_ADDRESS_SIZE then m.regions (vaddr / TRACKER_REGION_SIZE) else none

def getOrCreateRegion : ℕ → PageState :=
  (m.regions (vaddr / TRACKER_REGION_SIZE)).getD fun _ => {}

/-- The region that an update works on. -/
def regionFor (track : Bool) (vaddr : ℕ) : Option (ℕ → PageState) :=
  if track then some (m.getOrCreateRegion vaddr) else m.findRegion vaddr

/-- An update of one region, put back into the manager. -/
def updateRegion (track is_read : Bool) (base_addr first last : ℕ)
    (mask : ℕ → Bool) (pages : ℕ → PageState) : Except Abort PageManager := do
  let (pages, guest) ←
    updateRegionWatchers m.hot_page_escape track is_read base_addr first last mask pages m.guest
  return { m with
    regions := Function.update m.regions (base_addr / TRACKER_REGION_SIZE) (some pages), guest }

/-- The loop of `UpdatePageWatchers` over the regions of an interval. -/
def updateChunks (track is_read : Bool) (end_ : ℕ) : ℕ → ℕ → PageManager → Except Abort PageManager
  | 0, _, m => return m
  | fuel + 1, chunk_begin, m =>
    if chunk_begin < end_ then
      let chunk_end := min end_ ((chunk_begin / TRACKER_REGION_SIZE + 1) * TRACKER_REGION_SIZE)
      let region_base := chunk_begin / TRACKER_REGION_SIZE * TRACKER_REGION_SIZE
      match m.regionFor track chunk_begin with
      | none => .error (.untrackingUnknownPage chunk_begin)
      | some pages => do
          let first := (chunk_begin - region_base) / TRACKER_PAGE_SIZE
          let last := (chunk_end - region_base) / TRACKER_PAGE_SIZE
          let m ← m.updateRegion track is_read region_base first last (fun _ => true) pages
          updateChunks track is_read end_ fuel chunk_end m
    else return m

def updatePageWatchers (track is_read : Bool) (vaddr size : ℕ) : Except Abort PageManager := do
  let begin_ := pageStart vaddr
  let end_ ← pageEnd vaddr size
  updateChunks track is_read end_ ((end_ - begin_) / TRACKER_PAGE_SIZE) begin_ m

def updatePageWatchersForRegion (track is_read : Bool) (base_addr : ℕ)
    (mask : RegionBits) : Except Abort PageManager :=
  if base_addr % TRACKER_REGION_SIZE ≠ 0 ∨ base_addr ≥ TRACKER_ADDRESS_SIZE ∨
      TRACKER_REGION_SIZE > TRACKER_ADDRESS_SIZE - base_addr then
    .error (.invalidTrackingRegionBase base_addr)
  else
    let start_range := mask.firstRange
    let end_range := mask.lastRange
    if start_range.1 = TRACKER_REGION_PAGES then .error .emptyRegionWatcherMask
    else
      let first := start_range.1
      let last := end_range.2
      if start_range.2 = end_range.2 then
        m.updatePageWatchers track is_read (base_addr + first * TRACKER_PAGE_SIZE)
          ((last - first) * TRACKER_PAGE_SIZE)
      else
        match m.regionFor track base_addr with
        | none => .error (.untrackingUnknownRegion base_addr)
        | some pages => m.updateRegion track is_read base_addr first last mask.get pages

/-- `NoteFault`: the result, and the manager with the fault counted. -/
def noteFault : Except Abort (Bool × PageManager) :=
  match m.findRegion vaddr with
  | none => return (false, m)
  | some pages =>
    let index := vaddr % TRACKER_REGION_SIZE / TRACKER_PAGE_SIZE
    let state := pages index
    if state.managed = false then return (false, m)
    else do
      let state := if state.faults ≠ 255 then { state with faults := state.faults + 1 } else state
      let guest ←
        if m.hot_page_escape ∧ state.faults = 3 then
          protect m.guest (pageStart vaddr) TRACKER_PAGE_SIZE .readWrite
        else pure m.guest
      return (m.hot_page_escape && decide (state.faults ≥ 3),
        { m with
          regions := Function.update m.regions (vaddr / TRACKER_REGION_SIZE)
            (some (Function.update pages index state))
          guest })

/-- `RestoreProtection`: the result, and the manager after it. -/
def restoreProtection : Except Abort (Bool × PageManager) :=
  match m.findRegion vaddr with
  | none => return (false, m)
  | some pages =>
    let state := pages (vaddr % TRACKER_REGION_SIZE / TRACKER_PAGE_SIZE)
    if state.managed = false then return (false, m)
    else do
      let guest ←
        protect m.guest (pageStart vaddr) TRACKER_PAGE_SIZE (state.perms m.hot_page_escape)
      return (true, { m with guest })

def hasHotPage (vaddr size : ℕ) : Bool :=
  if m.hot_page_escape = false then false
  else if vaddr = 0 ∨ size = 0 ∨ vaddr ≥ TRACKER_ADDRESS_SIZE ∨
      size > TRACKER_ADDRESS_SIZE - vaddr then false
  else
    let begin_ := pageStart vaddr
    let end_ := pageStart (vaddr + size - 1) + TRACKER_PAGE_SIZE
    (List.range ((end_ - begin_) / TRACKER_PAGE_SIZE)).any fun n =>
      let page := begin_ + n * TRACKER_PAGE_SIZE
      (m.findRegion page).any fun pages =>
        decide ((pages (page % TRACKER_REGION_SIZE / TRACKER_PAGE_SIZE)).faults ≥ 3)

end PageManager

end MagnusPS5.Graphics
