/-
`TextureCache` (`textureCache.cpp`): which images there are, where they lie, and which of
their pages are watched for writes of the CPU.

An image has a slot, and its id is the index of the slot with the generation the slot has.
A registered image is in the owner list of every page it touches. A tracked image has a
write watcher on each page of the interval from `track_addr` to `track_addr_end`. The
backing of an image, its views, the accounting of memory, the downloads and the metadata
of surfaces are left out, and so are the locks: a call runs to its end.
-/
import MagnusPS5.Graphics.PageManagerRun
import MagnusPS5.Graphics.PageOwners

namespace MagnusPS5.Graphics

/-! ## Aborts -/

/-- The places where the texture cache stops the process. -/
inductive TextureAbort
  /-- `invalid data image range` -/
  | invalidImageRange
  /-- `invalid image overlap range` -/
  | invalidOverlapRange
  /-- `invalid image page-overlap range` -/
  | invalidPageOverlapRange
  /-- `clean image cannot complete a refresh` -/
  | cleanRefresh
  /-- `MultiLevelPageTable page is outside the guest address space` -/
  | pageOutside
  /-- `invalid image id` -/
  | invalidImageId
  /-- `stale image id` -/
  | staleImageId
  /-- `occupied free image slot` -/
  | occupiedFreeSlot
  /-- `invalid image registration` -/
  | invalidRegistration
  /-- `image registration is outside the guest address space` -/
  | registrationOutside
  /-- `registered image is outside the guest address space` -/
  | registeredOutside
  /-- `image missing from page owner index` -/
  | missingFromIndex
  /-- `deleting a GPU-modified image without resolving its contents` -/
  | deletingGpuModified
  /-- `retired image slot changed before deferred erasure` -/
  | slotChanged
  /-- `invalid image head tracking range` -/
  | invalidHeadRange
  /-- `invalid image tail tracking range` -/
  | invalidTailRange
  /-- `invalid memory-invalidation range` -/
  | invalidInvalidation
  /-- The page manager stops the process. -/
  | pages (abort : Abort)
  deriving DecidableEq

/-! ## Ranges (`imageInfo.h`) -/

structure GuestRange where
  address : ℕ
  size : ℕ
  deriving DecidableEq

variable (range : GuestRange)

def GuestRange.empty : Bool := range.address == 0 || range.size == 0

def GuestRange.valid : Bool :=
  !range.empty && decide (range.address < TRACKER_ADDRESS_SIZE) &&
    decide (range.size ≤ TRACKER_ADDRESS_SIZE - range.address)

def GuestRange.end_ : ℕ := range.address + range.size

abbrev UINT64_MAX : ℕ := 2 ^ 64 - 1

/-- A difference of two `uint64_t`. -/
def sub64 (a b : ℕ) : ℕ := (a + 2 ^ 64 - b) % 2 ^ 64

def imageRangeOverlaps (left left_size right right_size : ℕ) : Except TextureAbort Bool :=
  if left_size = 0 ∨ right_size = 0 ∨ left > UINT64_MAX - left_size ∨
      right > UINT64_MAX - right_size then
    .error .invalidOverlapRange
  else return decide (left < right + right_size) && decide (right < left + left_size)

def imagePageRangesOverlap (left left_size right right_size : ℕ) : Except TextureAbort Bool :=
  if left_size = 0 ∨ right_size = 0 ∨ left > UINT64_MAX - left_size ∨
      right > UINT64_MAX - right_size then
    .error .invalidPageOverlapRange
  else
    let left_first := left / TRACKER_PAGE_SIZE
    let left_last := (left + left_size - 1) / TRACKER_PAGE_SIZE
    let right_first := right / TRACKER_PAGE_SIZE
    let right_last := (right + right_size - 1) / TRACKER_PAGE_SIZE
    return decide (left_first ≤ right_last) && decide (right_first ≤ left_last)

/-- The check of the data range in `ImageOps::Validate`. -/
def validateImageRange : Except TextureAbort Unit :=
  if ¬ (range.address = 0 ↔ range.size = 0) ∨ (range.address ≠ 0 ∧
      (range.address ≥ TRACKER_ADDRESS_SIZE ∨ range.size > TRACKER_ADDRESS_SIZE - range.address)) then
    .error .invalidImageRange
  else return ()

/-! ## Images (`image.h`) -/

structure Image where
  /-- Which object it is: the images are numbered as they are made. -/
  serial : ℕ
  /-- `info.data` -/
  data : GuestRange
  registered : Bool := false
  query_epoch : BitVec 32 := 0#32
  track_addr : ℕ := 0
  track_addr_end : ℕ := 0
  depth_id : ImageId := {}
  cpu_dirty : Bool
  maybe_cpu_dirty : Bool := false
  maybe_hash_valid : Bool := false
  gpu_modified : Bool := false
  deriving DecidableEq

namespace Image

variable (image : Image)

def overlaps (address size : ℕ) (pages : Bool) : Except TextureAbort Bool :=
  if pages then imagePageRangesOverlap image.data.address image.data.size address size
  else imageRangeOverlaps image.data.address image.data.size address size

def invalidateCpuWrite (vaddr size : ℕ) : Except TextureAbort Image := do
  if ← imageRangeOverlaps image.data.address image.data.size vaddr size then
    return { image with cpu_dirty := true, maybe_cpu_dirty := false, maybe_hash_valid := false }
  else if ← imagePageRangesOverlap image.data.address image.data.size vaddr size then
    return { image with maybe_cpu_dirty := true }
  else return image

def isCpuDirty : Bool := image.cpu_dirty || image.maybe_cpu_dirty

/-- `MarkMaybeCpuDirty`, and `SetMaybeCpuHash` when `NeedsMaybeCpuHash`. -/
def maybeDirty : Image :=
  let image := if image.cpu_dirty then image else { image with maybe_cpu_dirty := true }
  if image.maybe_cpu_dirty && !image.maybe_hash_valid then { image with maybe_hash_valid := true }
  else image

def refreshComplete : Except TextureAbort Image :=
  if image.isCpuDirty then
    return { image with cpu_dirty := false, maybe_cpu_dirty := false, maybe_hash_valid := false }
  else .error .cleanRefresh

def isTracked : Bool := image.track_addr != 0 && image.track_addr_end != 0

end Image

/-! ## The cache -/

structure Slot where
  image : Option Image := none
  generation : BitVec 32 := 1#32

/-- `TextureCache`, with the page manager it shares with others. -/
structure TextureCache where
  slots : List Slot := []
  free_slots : List (BitVec 32) := []
  image_page_table : ImagePageTable := {}
  image_query_epoch : BitVec 32 := 0#32
  /-- The slots that wait for the scheduler to erase them, each with its retained image. -/
  deferred : List (ImageId × ℕ) := []
  next_serial : ℕ := 0
  page_manager : PageManager

namespace TextureCache

variable (c : TextureCache) (id : ImageId)

def resolveImage : Except TextureAbort Image :=
  match c.slots[id.index.toNat]? with
  | none => .error .invalidImageId
  | some slot =>
    if id.valid = false then .error .invalidImageId
    else if slot.generation ≠ id.generation then .error .staleImageId
    else
      match slot.image with
      | none => .error .staleImageId
      | some image => return image

def resolveOwner : Option Image :=
  match c.slots[id.index.toNat]? with
  | none => none
  | some slot =>
    if id.valid = false then none
    else if slot.generation = id.generation then slot.image else none

/-- A change of an image through the reference that `ResolveImage` gave. -/
def modify (c : TextureCache) (id : ImageId) (f : Image → Image) : TextureCache :=
  { c with
    slots := c.slots.modify id.index.toNat fun slot => { slot with image := slot.image.map f } }

/-- `m_page_manager.UpdatePageWatchers<track>`. -/
def updatePages (track : Bool) (address size : ℕ) : Except TextureAbort TextureCache :=
  match c.page_manager.updatePageWatchers track false address size with
  | .ok page_manager => .ok { c with page_manager }
  | .error e => .error (.pages e)

/-! ### Tracking -/

def untrackImage : Except TextureAbort TextureCache := do
  let image ← c.resolveImage id
  if image.isTracked = false then return c
  else
    let address := image.track_addr
    let size := sub64 image.track_addr_end image.track_addr
    let c := c.modify id fun image => { image with track_addr := 0, track_addr_end := 0 }
    if size ≠ 0 then c.updatePages false address size else return c

def markAsMaybeDirty : Except TextureAbort TextureCache :=
  (c.modify id Image.maybeDirty).untrackImage id

def trackImageHead : Except TextureAbort TextureCache := do
  let image ← c.resolveImage id
  if image.registered = false then return c
  else
    let image_begin := image.data.address
    if image_begin = image.track_addr then return c
    else if image.isTracked = false ∨ image_begin > image.track_addr then
      .error .invalidHeadRange
    else
      let size := sub64 image.track_addr image_begin
      let c := c.modify id fun image => { image with track_addr := image_begin }
      c.updatePages true image_begin size

def trackImageTail : Except TextureAbort TextureCache := do
  let image ← c.resolveImage id
  if image.registered = false then return c
  else
    let image_end := image.data.end_
    if image_end = image.track_addr_end then return c
    else if image.isTracked = false ∨ image.track_addr_end > image_end then
      .error .invalidTailRange
    else
      let address := image.track_addr_end
      let size := sub64 image_end address
      let c := c.modify id fun image => { image with track_addr_end := image_end }
      c.updatePages true address size

def trackImage : Except TextureAbort TextureCache := do
  let image ← c.resolveImage id
  if image.registered = false then return c
  else
    let image_begin := image.data.address
    let image_end := image.data.end_
    if c.page_manager.hasHotPage image_begin image.data.size then c.markAsMaybeDirty id
    else if image_begin = image.track_addr ∧ image_end = image.track_addr_end then return c
    else if image.isTracked = false then
      let c := c.modify id fun image =>
        { image with track_addr := image_begin, track_addr_end := image_end }
      c.updatePages true image_begin image.data.size
    else
      let c ← if image_begin < image.track_addr then c.trackImageHead id else pure c
      -- the reference still points to the image, which the head may have changed
      let image ← c.resolveImage id
      if image.track_addr_end < image_end then c.trackImageTail id else return c

def untrackImageHead : Except TextureAbort TextureCache := do
  let image ← c.resolveImage id
  let begin_ := image.data.address
  if image.isTracked = false ∨ begin_ < image.track_addr then return c
  else
    let address := pageStart (begin_ + TRACKER_PAGE_SIZE)
    let size := sub64 address begin_
    let c := c.modify id fun image => { image with track_addr := address }
    let c ← if address = image.track_addr_end then c.markAsMaybeDirty id else pure c
    if size ≠ 0 then c.updatePages false begin_ size else return c

def untrackImageTail : Except TextureAbort TextureCache := do
  let image ← c.resolveImage id
  let end_ := image.data.end_
  if image.isTracked = false ∨ image.track_addr_end < end_ then return c
  else
    let address := pageStart end_
    let size := sub64 end_ address
    let c := c.modify id fun image => { image with track_addr_end := address }
    let c ← if image.track_addr = address then c.markAsMaybeDirty id else pure c
    if size ≠ 0 then c.updatePages false address size else return c

/-! ### Registration -/

/-- The loop of `RegisterImage` over the pages. -/
def addOwner (id : ImageId) : ℕ → ℕ → ImagePageTable → Except TextureAbort ImagePageTable
  | 0, _, t => return t
  | n + 1, page, t =>
    match t.getOrCreate page with
    | none => .error .pageOutside
    | some l => addOwner id n (page + 1) (t.set page (l.pushBack id))

/-- The loop of `UnregisterImage` over the pages. -/
def removeOwner (id : ImageId) : ℕ → ℕ → ImagePageTable → Except TextureAbort ImagePageTable
  | 0, _, t => return t
  | n + 1, page, t =>
    match t.find page with
    | none => .error .missingFromIndex
    | some l =>
      let (erased, l) := l.erase id
      if erased then removeOwner id n (page + 1) (t.set page l) else .error .missingFromIndex

def registerImage : Except TextureAbort TextureCache := do
  let image ← c.resolveImage id
  if image.registered ∨ image.data.empty then .error .invalidRegistration
  else
    match ImagePageTable.tryGetPageRange image.data.address image.data.size with
    | none => .error .registrationOutside
    | some (first, last_exclusive) => do
        let image_page_table ← addOwner id (last_exclusive - first) first c.image_page_table
        return { c with image_page_table }.modify id fun image => { image with registered := true }

def unregisterImage : Except TextureAbort TextureCache := do
  let image ← c.resolveImage id
  if image.registered = false then return c
  else
    let c ← c.untrackImage id
    match ImagePageTable.tryGetPageRange image.data.address image.data.size with
    | none => .error .registeredOutside
    | some (first, last_exclusive) => do
        let image_page_table ← removeOwner id (last_exclusive - first) first c.image_page_table
        return { c with image_page_table }.modify id fun image => { image with registered := false }

/-- The slot that `InsertImage` takes: the last free one, or a new one. -/
def takeSlot : BitVec 32 × TextureCache :=
  match c.free_slots.getLast? with
  | none => (BitVec.ofNat 32 c.slots.length, { c with slots := c.slots ++ [({} : Slot)] })
  | some index => (index, { c with free_slots := c.free_slots.dropLast })

/-- `InsertImage`: the id of the new image, and the cache with it. -/
def insertImage (data : GuestRange) (uncompressed : Bool) :
    Except TextureAbort (ImageId × TextureCache) := do
  let (index, c) := c.takeSlot
  let slot := c.slots.getD index.toNat {}
  if slot.image.isSome then .error .occupiedFreeSlot
  else
    validateImageRange data
    let image : Image :=
      { serial := c.next_serial, data, cpu_dirty := !data.empty && uncompressed }
    let c := { c with
      slots := c.slots.set index.toNat { slot with image := some image }
      next_serial := c.next_serial + 1 }
    let id : ImageId := ⟨index, slot.generation⟩
    if data.empty then return (id, c)
    else
      let c ← c.registerImage id
      return (id, c)

/-- `erase_slot` of `DeleteImage`. -/
def eraseSlot (retained : ℕ) : Except TextureAbort TextureCache :=
  match c.slots[id.index.toNat]? with
  | none => .error .slotChanged
  | some slot =>
    if slot.generation ≠ id.generation ∨ slot.image.map Image.serial ≠ some retained then
      .error .slotChanged
    else
      let generation := slot.generation + 1
      let generation := if generation = 0#32 then 1#32 else generation
      return { c with
        slots := c.slots.set id.index.toNat { image := none, generation }
        free_slots := c.free_slots ++ [id.index] }

def clearGpuModified : TextureCache :=
  match c.resolveOwner id with
  | none => c
  | some _ => c.modify id fun image => { image with gpu_modified := false }

/-- `DeleteImage` from the check of its contents on. `active` is `m_scheduler.Active()`. -/
def retireImage (owner : Image) (active : Bool) : Except TextureAbort TextureCache := do
  if owner.gpu_modified then .error .deletingGpuModified
  else
    let c ← c.unregisterImage id
    if active then return { c with deferred := c.deferred ++ [(id, owner.serial)] }
    else c.eraseSlot id owner.serial

/-- `DeleteImage` of an image that is associated with a depth image. Nothing is associated
with it in turn. -/
def deleteAssociation (active : Bool) : Except TextureAbort TextureCache :=
  match c.resolveOwner id with
  | none => return c
  | some owner => if owner.registered = false then return c else c.retireImage id owner active

/-- The ids of the images that are associated with an image. -/
def associations : List ImageId :=
  (List.range c.slots.length).filterMap fun index =>
    match c.slots[index]? with
    | none => none
    | some slot =>
      if slot.image.any fun image => image.depth_id == id then
        some ⟨BitVec.ofNat 32 index, slot.generation⟩
      else none

def deleteImage (active : Bool) : Except TextureAbort TextureCache :=
  match c.resolveOwner id with
  | none => return c
  | some owner =>
    if owner.registered = false then return c
    else do
      let c ←
        if owner.depth_id.valid = false then
          (c.associations id).foldlM
            (fun c association =>
              (c.clearGpuModified association).deleteAssociation association active) c
        else pure c
      -- `owner` is the object, which the associations leave as it is
      c.retireImage id owner active

/-! ### Lookups -/

variable (address size : ℕ)

/-- The function that `FindImagesInRegion` calls for each owner of a page. -/
def visitOwner (page_overlap : Bool) (query_epoch : BitVec 32)
    (s : TextureCache × InlinePageOwnerList) (id : ImageId) :
    Except TextureAbort (TextureCache × InlinePageOwnerList) :=
  match s.1.resolveOwner id with
  | none => return s
  | some image =>
    if image.query_epoch = query_epoch then return s
    else do
      let c := s.1.modify id fun image => { image with query_epoch }
      if ← image.overlaps address size page_overlap then return (c, s.2.pushBack id)
      else return (c, s.2)

/-- The loop of `FindImagesInRegion` over the pages. -/
def visitPages (address size : ℕ) (page_overlap : Bool) (query_epoch : BitVec 32) :
    ℕ → ℕ → TextureCache × InlinePageOwnerList →
      Except TextureAbort (TextureCache × InlinePageOwnerList)
  | 0, _, s => return s
  | n + 1, page, s => do
      let s ←
        match s.1.image_page_table.find page with
        | none => pure s
        | some owners => owners.ids.foldlM (visitOwner address size page_overlap query_epoch) s
      visitPages address size page_overlap query_epoch n (page + 1) s

/-- The next epoch. Where the counter wraps, no image keeps an epoch of before. -/
def nextEpoch : TextureCache :=
  let query_epoch := c.image_query_epoch + 1
  if query_epoch = 0#32 then
    { c with
      slots := c.slots.map fun slot =>
        { slot with image := slot.image.map fun image => { image with query_epoch := 0#32 } }
      image_query_epoch := query_epoch + 1 }
  else { c with image_query_epoch := query_epoch }

def findImagesInRegion (page_overlap : Bool) :
    Except TextureAbort (TextureCache × InlinePageOwnerList) :=
  match ImagePageTable.tryGetPageRange address size with
  | none => return (c, { size_le := Nat.zero_le INLINE_CAPACITY })
  | some (first, last_exclusive) =>
    let c := c.nextEpoch
    visitPages address size page_overlap c.image_query_epoch (last_exclusive - first) first
      (c, { size_le := Nat.zero_le INLINE_CAPACITY })

/-- What `InvalidateCpuAliases` does to one image. -/
def invalidateAlias (c : TextureCache) (id : ImageId) : Except TextureAbort TextureCache :=
  let page_begin := pageStart address
  let page_end := pageStart (address + size + TRACKER_PAGE_SIZE - 1)
  match c.resolveOwner id with
  | none => return c
  | some owner =>
    if owner.depth_id.valid then return c
    else do
      if ← owner.overlaps address size false then
        let owner ← owner.invalidateCpuWrite address size
        (c.modify id fun _ => owner).untrackImage id
      else
        let image_begin := owner.data.address
        let image_end := owner.data.end_
        if page_end < image_end then c.untrackImageHead id
        else if image_begin < page_begin then c.untrackImageTail id
        else c.markAsMaybeDirty id

def invalidateCpuAliases : Except TextureAbort TextureCache := do
  let (c, found) ← c.findImagesInRegion address size true
  found.ids.foldlM (invalidateAlias address size) c

def invalidateMemory : Except TextureAbort TextureCache :=
  if (GuestRange.mk address size).valid then c.invalidateCpuAliases address size
  else .error .invalidInvalidation

/-! ### Runs -/

/-- What can happen to the cache. -/
inductive Call
  | insertImage (data : GuestRange) (uncompressed : Bool)
  | deleteImage (id : ImageId) (active : Bool)
  /-- The scheduler erases one of the slots that wait for it. -/
  | runDeferred (n : ℕ)
  | trackImage (id : ImageId)
  | invalidateMemory (address size : ℕ)
  | findImagesInRegion (address size : ℕ) (page_overlap : Bool)
  /-- `AssociateDepth` -/
  | associateDepth (id depth_id : ImageId)
  /-- `RefreshComplete` -/
  | refreshComplete (id : ImageId)
  /-- `MarkGpuModified` and `ClearGpuModified` -/
  | setGpuModified (id : ImageId) (gpu_modified : Bool)
  /-- Someone else calls the page manager. -/
  | pages (op : PageManager.Op)

/-- One call. -/
def step (c : TextureCache) : Call → Except TextureAbort TextureCache
  | .insertImage data uncompressed => (c.insertImage data uncompressed).map Prod.snd
  | .deleteImage id active => c.deleteImage id active
  | .runDeferred n =>
    match c.deferred[n]? with
    | none => return c
    | some (id, retained) =>
      { c with deferred := c.deferred.eraseIdx n }.eraseSlot id retained
  | .trackImage id => c.trackImage id
  | .invalidateMemory address size => c.invalidateMemory address size
  | .findImagesInRegion address size page_overlap =>
    (c.findImagesInRegion address size page_overlap).map Prod.fst
  | .associateDepth id depth_id => do
      let _ ← c.resolveImage id
      return c.modify id fun image => { image with depth_id }
  | .refreshComplete id => do
      let image ← c.resolveImage id
      let image ← image.refreshComplete
      return c.modify id fun _ => image
  | .setGpuModified id gpu_modified => do
      let _ ← c.resolveImage id
      return c.modify id fun image => { image with gpu_modified }
  | .pages op =>
    match c.page_manager.step op with
    | .ok page_manager => return { c with page_manager }
    | .error e => .error (.pages e)

/-- The calls one after the other. -/
def run : List Call → TextureCache → Except TextureAbort TextureCache
  | [], c => return c
  | call :: calls, c => do
      let c ← c.step call
      run calls c

/-- The cache before the first call. -/
def start (page_manager : PageManager) : TextureCache := { page_manager }

end TextureCache

end MagnusPS5.Graphics
