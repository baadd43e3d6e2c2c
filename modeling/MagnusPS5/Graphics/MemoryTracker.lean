/-
`MemoryTracker` (`memoryTracker.h`, `memoryTracker.cpp`): the regions of the guest's
memory, made when they are first needed, and the operations on byte ranges that go
through them.

An operation takes its range apart at the borders of the regions (`pieces`) and visits
them in order. The callbacks of the upload and the download run while regions are locked
and cannot use the tracker; what they are given is returned. The callback of
`InvalidateRegion` runs without a lock and may use the tracker: it is an argument that
acts on the state.
-/
import MagnusPS5.Graphics.RegionManager

namespace MagnusPS5.Graphics

open Lib
open Common (BitArray)

abbrev REGION_COUNT : ℕ := 262144

/-- The part of a range that lies in one region. -/
structure Piece where
  index : ℕ
  offset : ℕ
  bytes : ℕ
  deriving DecidableEq

/-- `MemoryTracker`, with its page manager. -/
structure MemoryTracker where
  m_regions : ℕ → Option RegionManager
  m_page_manager : PageManager

namespace MemoryTracker

/-- The constructor. -/
def new (page_manager : PageManager) : MemoryTracker :=
  { m_regions := fun _ => none, m_page_manager := page_manager }

def validateRange (vaddr size : ℕ) : Except Abort Unit :=
  if vaddr = 0 ∨ size = 0 ∨ vaddr ≥ TRACKER_ADDRESS_SIZE ∨
      size > TRACKER_ADDRESS_SIZE - vaddr then .error .invalidTrackerRange
  else .ok ()

/-- The loop of `Iterate`, without the work on the regions. -/
def piecesLoop : ℕ → ℕ → ℕ → ℕ → List Piece
  | 0, _, _, _ => []
  | fuel + 1, remaining, index, offset =>
    if remaining ≠ 0 then
      let bytes := min (TRACKER_REGION_SIZE - offset) remaining
      ⟨index, offset, bytes⟩ :: piecesLoop fuel (remaining - bytes) (index + 1) 0
    else []

/-- The parts of a range by region. -/
def pieces (vaddr size : ℕ) : List Piece :=
  piecesLoop (size / TRACKER_REGION_SIZE + 2) size (vaddr / TRACKER_REGION_SIZE)
    (vaddr % TRACKER_REGION_SIZE)

def getOrCreateRegion (index : ℕ) (t : MemoryTracker) : Except Abort MemoryTracker :=
  match t.m_regions index with
  | some _ => return t
  | none => do
      let manager ← RegionManager.new (index * TRACKER_REGION_SIZE)
      return { t with m_regions := Function.update t.m_regions index (some manager) }

/-- What is done with the part of a range in one region: the ranges that a callback is
given, and the tracker after it. -/
abbrev Visit := Piece → RegionManager → MemoryTracker →
  Except Abort (List (ℕ × ℕ) × MemoryTracker)

/-- One round of `Iterate`. -/
def visitPiece (create : Bool) (visit : Visit) (acc : List (ℕ × ℕ) × MemoryTracker) (p : Piece) :
    Except Abort (List (ℕ × ℕ) × MemoryTracker) := do
  let t ← if create then getOrCreateRegion p.index acc.2 else pure acc.2
  match t.m_regions p.index with
  | none => return (acc.1, t)
  | some manager => do
      let (ranges, t) ← visit p manager t
      return (acc.1 ++ ranges, t)

/-- `Iterate`, for a function that returns nothing. -/
def iterate (create : Bool) (vaddr size : ℕ) (visit : Visit) (t : MemoryTracker) :
    Except Abort (List (ℕ × ℕ) × MemoryTracker) := do
  validateRange vaddr size
  (pieces vaddr size).foldlM (visitPiece create visit) ([], t)

/-- The loop of `Iterate` for a function that returns whether to stop. -/
def iterateAnyLoop (create : Bool) (test : RegionManager → ℕ → ℕ → Except Abort Bool) :
    List Piece → MemoryTracker → Except Abort (Bool × MemoryTracker)
  | [], t => return (false, t)
  | p :: rest, t => do
      let t ← if create then getOrCreateRegion p.index t else pure t
      match t.m_regions p.index with
      | none => iterateAnyLoop create test rest t
      | some manager => do
          let stop ← test manager p.offset p.bytes
          if stop then return (true, t) else iterateAnyLoop create test rest t

/-- `Iterate`, for a function that returns whether to stop. -/
def iterateAny (create : Bool) (vaddr size : ℕ)
    (test : RegionManager → ℕ → ℕ → Except Abort Bool) (t : MemoryTracker) :
    Except Abort (Bool × MemoryTracker) := do
  validateRange vaddr size
  iterateAnyLoop create test (pieces vaddr size) t

/-- A region and the page manager are put back. -/
def put (t : MemoryTracker) (index : ℕ) (result : RegionManager × PageManager) : MemoryTracker :=
  { m_regions := Function.update t.m_regions index (some result.1), m_page_manager := result.2 }

/-- `ChangeState` on the part of a range in a region. -/
def changeState (source : DirtySource) (enable : Bool) : Visit := fun p manager t => do
  let result ← RegionManager.changeState source enable manager t.m_page_manager
    (manager.m_cpu_addr + p.offset) p.bytes
  return ([], t.put p.index result)

/-- `ForEachModifiedRange` on the part of a range in a region. -/
def forEachModifiedRange (source : DirtySource) (clear : Bool) : Visit := fun p manager t => do
  let (ranges, result) ← RegionManager.forEachModifiedRange source clear manager t.m_page_manager
    (manager.m_cpu_addr + p.offset) p.bytes
  return (ranges, t.put p.index result)

def isRegionCpuModified (vaddr size : ℕ) (t : MemoryTracker) :
    Except Abort (Bool × MemoryTracker) :=
  iterateAny true vaddr size (RegionManager.isModified .cpu) t

def isRegionGpuModified (vaddr size : ℕ) (t : MemoryTracker) :
    Except Abort (Bool × MemoryTracker) :=
  iterateAny false vaddr size (RegionManager.isModified .gpu) t

def markRegionAsCpuModified (vaddr size : ℕ) (t : MemoryTracker) : Except Abort MemoryTracker :=
  (iterate true vaddr size (changeState .cpu true) t).map Prod.snd

def markRegionAsGpuModified (vaddr size : ℕ) (t : MemoryTracker) : Except Abort MemoryTracker :=
  (iterate true vaddr size (changeState .gpu true) t).map Prod.snd

def unmarkRegionAsGpuModified (vaddr size : ℕ) (t : MemoryTracker) : Except Abort MemoryTracker :=
  (iterate false vaddr size (changeState .gpu false) t).map Prod.snd

def untrackMemory (vaddr size : ℕ) (t : MemoryTracker) : Except Abort MemoryTracker := do
  let (modified, t) ← iterateAny false vaddr size (RegionManager.isModified .gpu) t
  if modified then .error .untrackGpuDirty
  else (iterate false vaddr size (changeState .cpu true) t).map Prod.snd

/-- What `InvalidateRegion` does in a region: the flush changes the state, or the pages are
marked as modified by the CPU. -/
def invalidatePiece (on_flush : MemoryTracker → Except Abort MemoryTracker) : Visit :=
  fun p manager t => do
    let should_flush ← RegionManager.isModified .gpu manager p.offset p.bytes
    if should_flush then return ([], ← on_flush t)
    else changeState .cpu true p manager t

def invalidateRegion (vaddr size : ℕ) (on_flush : MemoryTracker → Except Abort MemoryTracker)
    (t : MemoryTracker) : Except Abort MemoryTracker :=
  (iterate false vaddr size (invalidatePiece on_flush) t).map Prod.snd

/-- `ForEachDownloadRange`: the ranges given to `preflight`, those given to `func`, and the
tracker after it. -/
def forEachDownloadRange (clear : Bool) (vaddr size : ℕ) (t : MemoryTracker) :
    Except Abort (List (ℕ × ℕ) × List (ℕ × ℕ) × MemoryTracker) := do
  let (preflight, t) ← iterate false vaddr size (forEachModifiedRange .gpu false) t
  let (func, t) ← iterate false vaddr size (forEachModifiedRange .gpu false) t
  if clear then do
    let (_, t) ← iterate false vaddr size (forEachModifiedRange .gpu true) t
    return (preflight, func, t)
  else return (preflight, func, t)

/-- The first step of `ForEachUploadRange`: pages that the CPU writes all the time count as
modified. -/
def markHotPages (vaddr size : ℕ) (is_written : Bool) (t : MemoryTracker) :
    Except Abort MemoryTracker :=
  if is_written = false ∧ t.m_page_manager.hasHotPage vaddr size = true then do
    let (modified, t) ← isRegionGpuModified vaddr size t
    if modified then return t else markRegionAsCpuModified vaddr size t
  else return t

/-- `ForEachUploadRange`: the ranges given to `range_func`, and the tracker after it. -/
def forEachUploadRange (vaddr size : ℕ) (is_written : Bool) (t : MemoryTracker) :
    Except Abort (List (ℕ × ℕ) × MemoryTracker) := do
  let t ← markHotPages vaddr size is_written t
  let (_, t) ← iterate true vaddr size (fun _ _ t => return ([], t)) t
  let (ranges, t) ← iterate false vaddr size (forEachModifiedRange .cpu true) t
  if is_written then do
    let (_, t) ← iterate false vaddr size (changeState .gpu true) t
    return (ranges, t)
  else return (ranges, t)

end MemoryTracker

end MagnusPS5.Graphics
