/-
`BufferCache` (`bufferCache.h`, `bufferCache.cpp`): buffers of the device that hold parts of
the guest's memory, the bytes in them that only the GPU has, and the garbage collector.

A byte is modelled by the number of the write that it comes from: `clock` counts the writes
of the CPU and of the GPU, `memory` is what the guest's memory holds, and a buffer has bytes
of its own. A command takes effect when it is recorded; a download keeps the bytes it has
copied until it is published.

The collector erases a buffer at once. What only the GPU has of it is published by an
operation that the scheduler runs later (`m_pending_operations`).
-/
import MagnusPS5.Graphics.MemoryTrackerRun
import MagnusPS5.Graphics.RangeSet

namespace MagnusPS5.Graphics

open Lib

/-- What stops the process. -/
inductive CacheAbort
  | tracker (abort : Abort)
  /-- `invalid range-set address or size` -/
  | invalidRangeSet
  /-- `address alignment overflow` -/
  | alignmentOverflow
  /-- `invalid overlap-merge range` -/
  | invalidOverlapMerge
  /-- `invalid memory-invalidation range` -/
  | invalidInvalidation
  /-- `invalid registered-region query` -/
  | invalidRegisteredQuery
  /-- `invalidation readback has no buffer owner` -/
  | noBufferOwner
  /-- `invalidation readback is outside its buffer owner` -/
  | outsideBufferOwner
  /-- `invalid download copy` -/
  | invalidDownloadCopy
  /-- `download copy alignment overflow` -/
  | downloadCopyOverflow
  /-- `aligned download copy exceeds its owner` -/
  | downloadCopyExceedsOwner
  /-- `download batch alignment overflow` -/
  | batchAlignmentOverflow
  /-- `download batch overflow` -/
  | batchOverflow
  /-- `download batch could not reserve the shared stream` -/
  | batchNotReserved
  /-- `allocation accounting underflow` -/
  | accountingUnderflow
  /-- `asynchronous garbage collection retained GPU ownership` -/
  | retainedOwnership
  /-- `garbage-collection owner changed during download` -/
  | collectionOwnerChanged
  deriving DecidableEq

abbrev CACHING_PAGE_SIZE : ℕ := 16384

abbrev DOWNLOAD_ALIGNMENT : ℕ := 64

/-- `CachedBuffer`, with its buffer, which has the same address and size. -/
structure CachedBuffer where
  vaddr : ℕ
  size : ℕ
  bytes : ℕ → ℕ
  tick_accessed_last : ℕ

instance : Spanned CachedBuffer where
  lo b := b.vaddr
  hi b := b.vaddr + b.size

def CachedBuffer.isInBounds (b : CachedBuffer) (address size : ℕ) : Bool :=
  address ≥ b.vaddr ∧ size ≤ b.size ∧ address - b.vaddr ≤ b.size - size

structure DownloadCopy where
  owner : CachedBuffer
  source_offset : ℕ
  address : ℕ
  size : ℕ

/-- `DownloadRange`, with the bytes that were copied. -/
structure DownloadRange where
  address : ℕ
  size : ℕ
  bytes : ℕ → ℕ

/-- The operation that `QueueGarbageDownload` defers, and the time when it did. -/
structure GarbageDownload where
  downloads : List DownloadRange
  retire_address : ℕ
  retire_size : ℕ
  queued : ℕ

/-- `BufferCache`, with the parts of the scheduler, of the device and of the guest's memory
that it uses. -/
structure BufferCache where
  m_buffers : List CachedBuffer
  m_gpu_modified_ranges : RangeSet
  m_memory_tracker : MemoryTracker
  m_total_used_memory : ℕ
  m_trigger_gc_memory : ℕ
  m_critical_gc_memory : ℕ
  m_gc_tick : ℕ
  /-- `m_graphics.CanReportMemoryUsage()` -/
  can_report_memory_usage : Bool
  /-- Whether `m_download_buffer.Map` finds room for so many bytes. -/
  download_fits : ℕ → Bool
  /-- The garbage downloads that the scheduler has deferred. -/
  m_pending_operations : List GarbageDownload
  memory : ℕ → ℕ
  clock : ℕ
  /-- The last write to a byte. -/
  latest : ℕ → ℕ

namespace BufferCache

abbrev UINT64_MAX : ℕ := 2 ^ 64 - 1

/-- The result of a part of the cache that fails with an error of its own. -/
def lift {α ε : Type} (f : ε → CacheAbort) : Except ε α → Except CacheAbort α
  | .ok a => .ok a
  | .error e => .error (f e)

/-- The same for the range set. -/
def orInvalidRange {α : Type} : Option α → Except CacheAbort α
  | some a => .ok a
  | none => .error .invalidRangeSet

/-- The bytes of an interval are replaced. -/
def overwrite (bytes : ℕ → ℕ) (address size : ℕ) (new : ℕ → ℕ) : ℕ → ℕ :=
  fun x => if address ≤ x ∧ x < address + size then new x else bytes x

/-- The thresholds that the constructor computes from the memory budget of the device. -/
def thresholds (budget : ℕ) : ℕ × ℕ :=
  let GiB : ℤ := 1024 * 1024 * 1024
  let budget : ℤ := min (budget : ℤ) (2 ^ 63 - 1)
  let threshold := min budget (8 * GiB)
  let expected := min (budget - (6 * threshold).tdiv 10) (budget - GiB)
  let critical := min (budget - (2 * threshold).tdiv 10) (budget - GiB / 2)
  ((max expected GiB).toNat, (max critical (2 * GiB)).toNat)

/-- The constructor. `budget` is what `GetTotalMemoryBudget` says if the device can report its
memory usage. -/
def new (page_manager : PageManager) (budget : Option ℕ) (download_fits : ℕ → Bool)
    (memory : ℕ → ℕ) : BufferCache where
  m_buffers := []
  m_gpu_modified_ranges := { m_ranges := [] }
  m_memory_tracker := .new page_manager
  m_total_used_memory := 0
  m_trigger_gc_memory := (budget.map fun budget => (thresholds budget).1).getD (1024 * 1024 * 1024)
  m_critical_gc_memory :=
    (budget.map fun budget => (thresholds budget).2).getD (2 * 1024 * 1024 * 1024)
  m_gc_tick := 0
  can_report_memory_usage := budget.isSome
  download_fits := download_fits
  m_pending_operations := []
  memory := memory
  clock := 0
  latest := fun _ => 0

/-! ## Buffers -/

def alignDown (value : ℕ) : ℕ := value / CACHING_PAGE_SIZE * CACHING_PAGE_SIZE

def alignUp (value : ℕ) : Except CacheAbort ℕ :=
  if value > UINT64_MAX - (CACHING_PAGE_SIZE - 1) then .error .alignmentOverflow
  else .ok ((value + CACHING_PAGE_SIZE - 1) / CACHING_PAGE_SIZE * CACHING_PAGE_SIZE)

/-- `ResolveOverlap`: the merged range, if the candidate overlaps it. -/
def resolveOverlap (merged candidate : ℕ × ℕ) : Except CacheAbort (Option (ℕ × ℕ)) :=
  if merged.1 = 0 ∨ merged.2 = 0 ∨ candidate.1 = 0 ∨ candidate.2 = 0 ∨
      merged.2 > UINT64_MAX - merged.1 ∨ candidate.2 > UINT64_MAX - candidate.1 then
    .error .invalidOverlapMerge
  else
    let merged_end := merged.1 + merged.2
    let candidate_end := candidate.1 + candidate.2
    if merged.1 ≥ candidate_end ∨ candidate.1 ≥ merged_end then .ok none
    else
      let address := min merged.1 candidate.1
      .ok (some (address, max merged_end candidate_end - address))

/-- The loop of `GetOrCreateBuffer` over the candidates: the merged range and the overlaps. -/
def mergeOverlaps (merged : ℕ × ℕ) :
    List CachedBuffer → Except CacheAbort ((ℕ × ℕ) × List CachedBuffer)
  | [] => .ok (merged, [])
  | candidate :: rest =>
    if candidate.vaddr ≥ merged.1 + merged.2 then .ok (merged, [])
    else
      (resolveOverlap merged (candidate.vaddr, candidate.size)).bind fun resolved =>
        match resolved with
        | none => mergeOverlaps merged rest
        | some merged =>
          (mergeOverlaps merged rest).map fun result =>
            (result.1, candidate :: result.2)

/-- The first candidate, and the range merged with it if it starts before the range. -/
def firstOverlap (merged : ℕ × ℕ) (buffers : List CachedBuffer) :
    Except CacheAbort ((ℕ × ℕ) × List CachedBuffer) :=
  let from_ := buffers.dropWhile fun b => b.vaddr < merged.1
  match (buffers.takeWhile fun b => b.vaddr < merged.1).getLast? with
  | none => .ok (merged, from_)
  | some previous =>
    (resolveOverlap merged (previous.vaddr, previous.size)).map fun resolved =>
      match resolved with
      | none => (merged, from_)
      | some merged => (merged, previous :: from_)

/-- What a buffer that replaces others holds. -/
def copyFrom (overlaps : List CachedBuffer) : ℕ → ℕ :=
  overlaps.foldl (fun bytes old => overwrite bytes old.vaddr old.size old.bytes) fun _ => 0

/-- The allocation accounting for buffers that go. -/
def subtractUsed (total : ℕ) (buffers : List CachedBuffer) : Except CacheAbort ℕ :=
  buffers.foldlM (fun total b =>
    if b.size > total then .error .accountingUnderflow else .ok (total - b.size)) total

/-- The buffers without those at some addresses. -/
def eraseBuffers (addresses : List ℕ) (buffers : List CachedBuffer) : List CachedBuffer :=
  buffers.filter fun b => b.vaddr ∉ addresses

/-- The entry of a buffer is changed. -/
def modifyBuffer (address : ℕ) (f : CachedBuffer → CachedBuffer)
    (buffers : List CachedBuffer) : List CachedBuffer :=
  buffers.map fun b => if b.vaddr = address then f b else b

/-- `GetOrCreateBuffer`, with the address of the buffer. -/
def getOrCreateBuffer (vaddr size : ℕ) (s : BufferCache) : Except CacheAbort (ℕ × BufferCache) := do
  let begin_ := alignDown vaddr
  let end_ ← alignUp ((vaddr + size) % 2 ^ 64)
  match (floor? s.m_buffers vaddr).filter fun owner => owner.isInBounds vaddr size with
  | some owner =>
    return (owner.vaddr, { s with
      m_buffers := modifyBuffer owner.vaddr
        (fun b => { b with tick_accessed_last := s.m_gc_tick }) s.m_buffers })
  | none => do
      let (merged, candidates) ←
        firstOverlap (begin_, (end_ + 2 ^ 64 - begin_) % 2 ^ 64) s.m_buffers
      let (merged, overlaps) ← mergeOverlaps merged candidates
      let cached : CachedBuffer := {
        vaddr := merged.1
        size := merged.2
        bytes := copyFrom overlaps
        tick_accessed_last := s.m_gc_tick }
      let m_total_used_memory ← subtractUsed s.m_total_used_memory overlaps
      return (merged.1, { s with
        m_buffers := place cached (eraseBuffers (overlaps.map CachedBuffer.vaddr) s.m_buffers)
        m_total_used_memory := m_total_used_memory + merged.2 })

/-- The uploads of `SynchronizeBuffer`. -/
def upload (memory : ℕ → ℕ) (uploads : List (ℕ × ℕ)) (b : CachedBuffer) : CachedBuffer :=
  { b with bytes := uploads.foldl (fun bytes r => overwrite bytes r.1 r.2 memory) b.bytes }

/-- The first path of `ObtainBuffer`: a small range that only the CPU has modified is bound
without a buffer, if its bytes can be read (`transient`). -/
def obtainTransient (vaddr size : ℕ) (is_written is_read transient : Bool) (s : BufferCache) :
    Except CacheAbort (Bool × BufferCache) :=
  if is_read = true ∧ is_written = false ∧ size ≤ CACHING_PAGE_SIZE then do
    let (gpu_modified, t) ← lift .tracker (s.m_memory_tracker.isRegionGpuModified vaddr size)
    if gpu_modified then return (false, { s with m_memory_tracker := t })
    else do
      let (cpu_modified, t) ← lift .tracker (t.isRegionCpuModified vaddr size)
      return (cpu_modified && transient, { s with m_memory_tracker := t })
  else return (false, s)

def obtainBuffer (vaddr size : ℕ) (is_written is_read transient : Bool) (s : BufferCache) :
    Except CacheAbort BufferCache := do
  let (bound, s) ← obtainTransient vaddr size is_written is_read transient s
  if bound then return s
  else do
    let (address, s) ← getOrCreateBuffer vaddr size s
    let (uploads, t) ←
      lift .tracker (s.m_memory_tracker.forEachUploadRange vaddr size is_written)
    let s := { s with
      m_memory_tracker := t
      m_buffers := modifyBuffer address (upload s.memory uploads) s.m_buffers }
    if is_written then do
      let ranges ← orInvalidRange (s.m_gpu_modified_ranges.add vaddr size)
      return { s with m_gpu_modified_ranges := ranges }
    else return s

/-- A recorded command writes to a range of a buffer, if there is one. -/
def gpuWrite (vaddr size : ℕ) (s : BufferCache) : BufferCache :=
  match (floor? s.m_buffers vaddr).filter fun owner => owner.isInBounds vaddr size with
  | none => s
  | some owner =>
    let clock := s.clock + 1
    { s with
      clock := clock
      latest := overwrite s.latest vaddr size fun _ => clock
      m_buffers := modifyBuffer owner.vaddr
        (fun b => { b with bytes := overwrite b.bytes vaddr size fun _ => clock }) s.m_buffers }

/-- The CPU writes to the guest's memory. -/
def cpuWrite (vaddr size : ℕ) (s : BufferCache) : BufferCache :=
  let clock := s.clock + 1
  { s with
    clock := clock
    latest := overwrite s.latest vaddr size fun _ => clock
    memory := overwrite s.memory vaddr size fun _ => clock }

/-! ## Downloads -/

/-- `DownloadEnvelope`: the size of what is copied, in whole dwords. -/
def downloadEnvelope (copy : DownloadCopy) : Except CacheAbort ℕ :=
  if copy.size = 0 ∨ copy.source_offset > copy.owner.size ∨
      copy.size > copy.owner.size - copy.source_offset then .error .invalidDownloadCopy
  else
    let begin_ := copy.source_offset / 4 * 4
    if copy.source_offset > UINT64_MAX - copy.size ∨
        copy.source_offset + copy.size > UINT64_MAX - 3 then .error .downloadCopyOverflow
    else
      let end_ := (copy.source_offset + copy.size + 3) / 4 * 4
      if end_ > copy.owner.size then .error .downloadCopyExceedsOwner else .ok (end_ - begin_)

def alignDownload (size : ℕ) : ℕ :=
  (size + DOWNLOAD_ALIGNMENT - 1) / DOWNLOAD_ALIGNMENT * DOWNLOAD_ALIGNMENT

/-- The first loop of `RecordDownloads`. -/
def reservationSize (copies : List DownloadCopy) : Except CacheAbort ℕ :=
  copies.foldlM (fun reservation_size copy => do
    let envelope_size ← downloadEnvelope copy
    if envelope_size > UINT64_MAX - (DOWNLOAD_ALIGNMENT - 1) then .error .batchAlignmentOverflow
    else if alignDownload envelope_size > UINT64_MAX - reservation_size then .error .batchOverflow
    else .ok (reservation_size + alignDownload envelope_size)) 0

def publishDownloads (downloads : List DownloadRange) (memory : ℕ → ℕ) : ℕ → ℕ :=
  downloads.foldl (fun memory r => overwrite memory r.address r.size r.bytes) memory

/-- The downloads are taken out of the ranges. -/
def subtractDownloads (downloads : List DownloadRange) (ranges : RangeSet) :
    Except CacheAbort RangeSet :=
  downloads.foldlM (fun ranges r => orInvalidRange (ranges.subtract r.address r.size)) ranges

/-- The operation that `QueueGarbageDownload` defers, when it is run. -/
def runGarbageDownload (g : GarbageDownload) (s : BufferCache) : Except CacheAbort BufferCache := do
  let memory := publishDownloads g.downloads s.memory
  let ranges ← subtractDownloads g.downloads s.m_gpu_modified_ranges
  let t ← lift .tracker
    (s.m_memory_tracker.unmarkRegionAsGpuModified g.retire_address g.retire_size)
  let (modified, t) ← lift .tracker (t.isRegionGpuModified g.retire_address g.retire_size)
  let retained ← orInvalidRange (ranges.intersections g.retire_address g.retire_size)
  if modified = true ∨ retained ≠ [] then .error .retainedOwnership
  else do
    let t ← lift .tracker (t.untrackMemory g.retire_address g.retire_size)
    return { s with memory := memory, m_gpu_modified_ranges := ranges, m_memory_tracker := t }

/-- The scheduler runs a number of the operations that were deferred, the oldest first. -/
def runPending : ℕ → BufferCache → Except CacheAbort BufferCache
  | 0, s => .ok s
  | count + 1, s =>
    match s.m_pending_operations with
    | [] => .ok s
    | g :: rest =>
      (runGarbageDownload g { s with m_pending_operations := rest }).bind (runPending count)

/-- `RecordDownloads`. While the download buffer waits for room, the scheduler runs `waited`
operations. -/
def recordDownloads (copies : List DownloadCopy) (waited : ℕ) (s : BufferCache) :
    Except CacheAbort (List DownloadRange × BufferCache) := do
  let reservation_size ← reservationSize copies
  if reservation_size = 0 then return ([], s)
  else if s.download_fits reservation_size = false then .error .batchNotReserved
  else do
    let s ← runPending waited s
    return (copies.map fun copy => ⟨copy.address, copy.size, copy.owner.bytes⟩, s)

def isRegionRegistered (vaddr size : ℕ) (s : BufferCache) : Except CacheAbort Bool :=
  if vaddr = 0 ∨ size = 0 ∨ vaddr ≥ TRACKER_ADDRESS_SIZE ∨ size > TRACKER_ADDRESS_SIZE - vaddr then
    .error .invalidRegisteredQuery
  else
    match (s.m_buffers.takeWhile fun b => b.vaddr < vaddr + size).getLast? with
    | none => .ok false
    | some b => .ok (b.vaddr + b.size > vaddr)

/-- The loop of `ReadMemoryOnGpu` over a range of bytes. -/
def copyRange (buffers : List CachedBuffer) (range : Run) :
    ℕ → ℕ → Except CacheAbort (List DownloadCopy)
  | 0, _ => .ok []
  | fuel + 1, copied =>
    if copied < range.size then
      let copy_address := range.start + copied
      match floor? buffers copy_address with
      | none => .error .noBufferOwner
      | some cached =>
        if cached.isInBounds copy_address 1 = false then .error .outsideBufferOwner
        else
          let copy_size := min (range.size - copied) (cached.vaddr + cached.size - copy_address)
          (copyRange buffers range fuel (copied + copy_size)).map fun copies =>
            ⟨cached, copy_address - cached.vaddr, copy_address, copy_size⟩ :: copies
    else .ok []

variable (s : BufferCache)

/-- The callback of `ReadMemoryOnGpu` on the ranges that it is given. -/
def readbackCopies (func : List (ℕ × ℕ)) : Except CacheAbort (List DownloadCopy) :=
  func.foldlM (fun copies r => do
    let ranges ← orInvalidRange (s.m_gpu_modified_ranges.intersections r.1 r.2)
    ranges.foldlM (fun copies range => do
      return copies ++ (← copyRange s.m_buffers range range.size 0)) copies) []

def readMemoryOnGpu (vaddr size : ℕ) (is_write : Bool) (waited : ℕ) (s : BufferCache) :
    Except CacheAbort BufferCache := do
  let registered ← (if is_write then isRegionRegistered vaddr size s else .ok true)
  if registered = false then return s
  else do
    let (_, func, t) ←
      lift .tracker (s.m_memory_tracker.forEachDownloadRange false vaddr size)
    let s := { s with m_memory_tracker := t }
    let copies ← readbackCopies s func
    if copies.isEmpty then
      if is_write = false then return s
      else do
        let t ← lift .tracker (s.m_memory_tracker.markRegionAsCpuModified vaddr size)
        return { s with m_memory_tracker := t }
    else do
      let (downloads, s) ← recordDownloads copies waited s
      -- `FinishCurrent` runs everything that was deferred
      let s ← runPending s.m_pending_operations.length s
      let ranges ← subtractDownloads downloads s.m_gpu_modified_ranges
      let t ← lift .tracker (s.m_memory_tracker.unmarkRegionAsGpuModified vaddr size)
      let t ← (if is_write then lift .tracker (t.markRegionAsCpuModified vaddr size) else .ok t)
      return { s with
        memory := publishDownloads downloads s.memory
        m_gpu_modified_ranges := ranges
        m_memory_tracker := t }

/-- What `InvalidateRegion` does in a region, with the callback that `InvalidateMemory` gives
it. -/
def invalidatePiece (vaddr size waited : ℕ) (s : BufferCache) (p : Piece) :
    Except CacheAbort BufferCache :=
  match s.m_memory_tracker.m_regions p.index with
  | none => .ok s
  | some manager => do
      let should_flush ← lift .tracker (RegionManager.isModified .gpu manager p.offset p.bytes)
      if should_flush then readMemoryOnGpu vaddr size true waited s
      else do
        let (_, t) ← lift .tracker
          (MemoryTracker.changeState .cpu true p manager s.m_memory_tracker)
        return { s with m_memory_tracker := t }

def invalidateMemory (vaddr size waited : ℕ) (s : BufferCache) : Except CacheAbort BufferCache :=
  if vaddr = 0 ∨ size = 0 ∨ vaddr ≥ TRACKER_ADDRESS_SIZE ∨ size > TRACKER_ADDRESS_SIZE - vaddr then
    .error .invalidInvalidation
  else (MemoryTracker.pieces vaddr size).foldlM (invalidatePiece vaddr size waited) s

/-! ## The garbage collector -/

variable (device_usage : ℕ)

/-- The memory in use, as the collector sees it. -/
def usedMemory : ℕ :=
  if s.can_report_memory_usage then device_usage else s.m_total_used_memory

/-- The buffers that the collector takes: those that were not used for some time, as many as
it may take, the oldest first. `std::ranges::sort` leaves open how buffers of the same age
are ordered; `ties` decides it. -/
def collected (ties : ℕ → ℕ) (s : BufferCache) : List CachedBuffer :=
  let used := s.usedMemory device_usage
  if used < s.m_trigger_gc_memory then []
  else
    let tick := s.m_gc_tick
    let aggressive := used ≥ s.m_critical_gc_memory
    let age := min (if aggressive then 80 else 160) tick
    let limit := if aggressive then 64 else 32
    let candidates := s.m_buffers.filter fun b => age ≤ tick - min tick b.tick_accessed_last
    let older : CachedBuffer → CachedBuffer → Prop := fun a b =>
      a.tick_accessed_last < b.tick_accessed_last ∨
        (a.tick_accessed_last = b.tick_accessed_last ∧ ties a.vaddr ≤ ties b.vaddr)
    (candidates.insertionSort older).take limit

/-- The copies for a buffer that the collector takes; nothing if the GPU has not modified
it. -/
def garbageCopies (retire : CachedBuffer) (s : BufferCache) :
    Except CacheAbort (List DownloadCopy × BufferCache) := do
  let (modified, t) ←
    lift .tracker (s.m_memory_tracker.isRegionGpuModified retire.vaddr retire.size)
  if modified = false then return ([], { s with m_memory_tracker := t })
  else do
    let (_, func, t) ← lift .tracker (t.forEachDownloadRange false retire.vaddr retire.size)
    let ranges ← func.mapM fun r => orInvalidRange (s.m_gpu_modified_ranges.intersections r.1 r.2)
    return (ranges.flatten.map fun range =>
        ⟨retire, range.start - retire.vaddr, range.start, range.size⟩,
      { s with m_memory_tracker := t })

/-- The loop that finds the copies. -/
def collectCopies : List CachedBuffer → BufferCache →
    Except CacheAbort (List (CachedBuffer × List DownloadCopy) × BufferCache)
  | [], s => .ok ([], s)
  | retire :: rest, s => do
      let (copies, s) ← garbageCopies retire s
      let (found, s) ← collectCopies rest s
      return ((retire, copies) :: found, s)

def queueGarbageDownload (waited : ℕ) (copies : List DownloadCopy) (retire : CachedBuffer)
    (s : BufferCache) : Except CacheAbort BufferCache :=
  if copies.isEmpty then .ok s
  else do
    let (downloads, s) ← recordDownloads copies waited s
    return { s with
      m_pending_operations := s.m_pending_operations ++
        [⟨downloads, retire.vaddr, retire.size, s.clock⟩] }

/-- The loop that queues the downloads. -/
def queueDownloads (waited : ℕ → ℕ) :
    List (CachedBuffer × List DownloadCopy) → BufferCache → Except CacheAbort BufferCache
  | [], s => .ok s
  | (retire, copies) :: rest, s =>
    (queueGarbageDownload (waited retire.vaddr) copies retire s).bind (queueDownloads waited rest)

/-- A buffer is erased. -/
def eraseCollected (retire : CachedBuffer) : Except CacheAbort BufferCache :=
  match s.m_buffers.find? fun b => b.vaddr = retire.vaddr with
  | none => .error .collectionOwnerChanged
  | some found =>
    if found.size ≠ retire.size then .error .collectionOwnerChanged
    else do
      let (modified, t) ←
        lift .tracker (s.m_memory_tracker.isRegionGpuModified retire.vaddr retire.size)
      let t ← (if modified = false then lift .tracker (t.untrackMemory retire.vaddr retire.size)
        else .ok t)
      if retire.size > s.m_total_used_memory then .error .accountingUnderflow
      else return { s with
        m_memory_tracker := t
        m_total_used_memory := s.m_total_used_memory - retire.size
        m_buffers := eraseBuffers [retire.vaddr] s.m_buffers }

def runGarbageCollector (ties waited : ℕ → ℕ) (s : BufferCache) :
    Except CacheAbort BufferCache := do
  let retires := collected device_usage ties s
  let s := { s with
    m_gc_tick := s.m_gc_tick + 1
    m_total_used_memory := s.usedMemory device_usage }
  let (found, s) ← collectCopies retires s
  let s ← queueDownloads waited found s
  retires.foldlM eraseCollected s

/-! ## Runs -/

/-- What can happen next. `waited` is how many deferred operations the scheduler runs while a
download waits for room. -/
inductive Op
  | obtainBuffer (vaddr size : ℕ) (is_written is_read transient : Bool)
  /-- A recorded command writes to a buffer. -/
  | gpuWrite (vaddr size : ℕ)
  | readMemoryOnGpu (vaddr size : ℕ) (is_write : Bool) (waited : ℕ)
  | invalidateMemory (vaddr size waited : ℕ)
  /-- The CPU writes to the guest's memory. -/
  | cpuWrite (vaddr size : ℕ)
  | noteFault (vaddr : ℕ)
  | runGarbageCollector (device_usage : ℕ) (ties waited : ℕ → ℕ)
  /-- The scheduler runs deferred operations. -/
  | popPendingOperations (count : ℕ)

/-- The page manager takes note of a fault. -/
def noteFault (vaddr : ℕ) (s : BufferCache) : Except CacheAbort BufferCache := do
  let t ← lift .tracker (s.m_memory_tracker.noteFault vaddr)
  return { s with m_memory_tracker := t }

def step : Op → Except CacheAbort BufferCache
  | .obtainBuffer vaddr size is_written is_read transient =>
    s.obtainBuffer vaddr size is_written is_read transient
  | .gpuWrite vaddr size => .ok (s.gpuWrite vaddr size)
  | .readMemoryOnGpu vaddr size is_write waited => s.readMemoryOnGpu vaddr size is_write waited
  | .invalidateMemory vaddr size waited => s.invalidateMemory vaddr size waited
  | .cpuWrite vaddr size => .ok (s.cpuWrite vaddr size)
  | .noteFault vaddr => s.noteFault vaddr
  | .runGarbageCollector device_usage ties waited =>
    s.runGarbageCollector device_usage ties waited
  | .popPendingOperations count => runPending count s

end BufferCache

end MagnusPS5.Graphics
