/-
`FindImagesInRegion` finds exactly the images that overlap a range.

An image is listed on each page it touches, and a lookup goes over all pages of its range.
The epoch tells the images it has met already: before a lookup no image has the epoch of
the lookup, also where the counter has wrapped, and each image gets it when it is met.
-/
import MagnusPS5.Graphics.TextureCacheCalls

namespace MagnusPS5.Graphics

open Lib List Option InlinePageOwnerList ImagePageTable

/-! ## Overlaps -/

/-- A byte of the image is a byte of the range, or on the same page as one. -/
def Image.Meets (image : Image) (address size : ℕ) (page_overlap : Bool) : Prop :=
  ∃ x y, (image.data.address ≤ x ∧ x < image.data.end_) ∧ (address ≤ y ∧ y < address + size) ∧
    if page_overlap then x / TRACKER_PAGE_SIZE = y / TRACKER_PAGE_SIZE else x = y

theorem range_valid {left left_size right right_size : ℕ} (hleft : 0 < left_size)
    (hleft' : left + left_size ≤ 1099511627776) (hright : 0 < right_size)
    (hright' : right + right_size ≤ 1099511627776) :
    ¬ (left_size = 0 ∨ right_size = 0 ∨ left > UINT64_MAX - left_size ∨
      right > UINT64_MAX - right_size) := by
  have hmax : UINT64_MAX = 18446744073709551615 := rfl
  omega

variable {image : Image} {address size : ℕ}

section

variable (hpos : 0 < image.data.size) (hend : image.data.end_ ≤ 1099511627776) (hsize : 0 < size)
  (hrange : address + size ≤ 1099511627776)

include hpos hend hsize hrange

theorem imageRangeOverlaps_eq :
    ∃ b, imageRangeOverlaps image.data.address image.data.size address size = .ok b ∧
      (b = true ↔ image.Meets address size false) := by
  have hdata : image.data.end_ = image.data.address + image.data.size := rfl
  refine ⟨_, if_neg (range_valid hpos hend hsize hrange), ?_⟩
  rw [Bool.and_eq_true, decide_eq_true_eq, decide_eq_true_eq]
  constructor
  · rintro ⟨h1, h2⟩
    refine ⟨max image.data.address address, max image.data.address address, by omega, by omega, rfl⟩
  · rintro ⟨x, y, hx, hy, hxy⟩
    have hsame : x = y := hxy
    omega

theorem imagePageRangesOverlap_eq :
    ∃ b, imagePageRangesOverlap image.data.address image.data.size address size = .ok b ∧
      (b = true ↔ image.Meets address size true) := by
  have hdata : image.data.end_ = image.data.address + image.data.size := rfl
  refine ⟨_, if_neg (range_valid hpos hend hsize hrange), ?_⟩
  rw [Bool.and_eq_true, decide_eq_true_eq, decide_eq_true_eq]
  constructor
  · rintro ⟨h1, h2⟩
    have h1' : image.data.address / 4096 ≤ (address + size - 1) / 4096 := h1
    have h2' : address / 4096 ≤ (image.data.address + image.data.size - 1) / 4096 := h2
    -- the byte that is later of the two first ones, or the first of the page they share
    refine ⟨max image.data.address (address / 4096 * 4096),
      max address (image.data.address / 4096 * 4096), by omega, by omega, ?_⟩
    show max image.data.address (address / 4096 * 4096) / 4096 =
      max address (image.data.address / 4096 * 4096) / 4096
    omega
  · rintro ⟨x, y, hx, hy, hxy⟩
    have hsame : x / 4096 = y / 4096 := hxy
    show image.data.address / 4096 ≤ (address + size - 1) / 4096 ∧
      address / 4096 ≤ (image.data.address + image.data.size - 1) / 4096
    omega

end

theorem overlaps_eq (page_overlap : Bool)
    (hpos : 0 < image.data.size) (hend : image.data.end_ ≤ 1099511627776) (hsize : 0 < size)
    (hrange : address + size ≤ 1099511627776) :
    ∃ b, image.overlaps address size page_overlap = .ok b ∧
      (b = true ↔ image.Meets address size page_overlap) := by
  cases page_overlap with
  | false => exact imageRangeOverlaps_eq hpos hend hsize hrange
  | true => exact imagePageRangesOverlap_eq hpos hend hsize hrange

variable {page_overlap : Bool}

theorem Image.Meets.page (h : image.Meets address size page_overlap) :
    ∃ page, image.OnPage page ∧ address / 2 ^ PAGE_BITS ≤ page ∧
      page < (address + size - 1) / 2 ^ PAGE_BITS + 1 := by
  obtain ⟨x, y, hx, hy, hxy⟩ := h
  have hdata : image.data.end_ = image.data.address + image.data.size := rfl
  -- a page of the table is made of whole pages of the tracker
  have hpage : x / 1048576 = y / 1048576 := by
    cases page_overlap with
    | false =>
      have hsame : x = y := hxy
      rw [hsame]
    | true =>
      have hsame : x / 4096 = y / 4096 := hxy
      omega
  refine ⟨x / 1048576, ⟨?_, ?_⟩, ?_, ?_⟩
  · show image.data.address / 1048576 ≤ _
    omega
  · show _ < (image.data.address + image.data.size - 1) / 1048576 + 1
    omega
  · show address / 1048576 ≤ _
    omega
  · show _ < (address + size - 1) / 1048576 + 1
    omega

theorem TextureCache.SamePlace.meets {image' : Image} (h : TextureCache.SamePlace image image')
    : image'.Meets address size page_overlap ↔ image.Meets address size page_overlap := by
  unfold Image.Meets
  rw [h.data]

namespace TextureCache

/-! ## Epochs -/

/-- The image has no epoch of a lookup. -/
abbrev unvisited (image : Image) : Image := { image with query_epoch := 0#32 }

variable {c : TextureCache} {met : List ImageId} {s : TextureCache × InlinePageOwnerList}

theorem resolveOwner_map {c' : TextureCache} {f : Image → Image}
    (h : c'.slots = c.slots.map fun slot => { slot with image := slot.image.map f })
    (id : ImageId) : c'.resolveOwner id = (c.resolveOwner id).map f := by
  unfold resolveOwner
  rw [h, getElem?_map]
  cases c.slots[id.index.toNat]? with
  | none => rfl
  | some slot =>
    dsimp only [map_some]
    split_ifs <;> rfl

/-- What a lookup begins with: the images there were, none of them with its epoch. -/
structure Fresh (c c' : TextureCache) : Prop where
  good : Good c c'
  fresh : ∀ id image', c'.resolveOwner id = some image' → image'.query_epoch ≠ c'.image_query_epoch
  back : ∀ id image', c'.resolveOwner id = some image' →
    ∃ image, c.resolveOwner id = some image ∧ SamePlace image image'
  forth : ∀ id image, c.resolveOwner id = some image →
    ∃ image', c'.resolveOwner id = some image' ∧ SamePlace image image'

theorem fresh_wrap {c' : TextureCache} (hi : c.Indexed) (hs : c.Shaped) (hc' : c' = { c with
      slots := c.slots.map fun slot => { slot with image := slot.image.map unvisited }
      image_query_epoch := 0#32 + 1 }) : Fresh c c' := by
  have hslots : c'.slots = c.slots.map fun slot => { slot with image := slot.image.map unvisited } := by
    rw [hc']
  have hresolve := resolveOwner_map hslots
  have hback : ∀ id image', c'.resolveOwner id = some image' →
      ∃ image, c.resolveOwner id = some image ∧ image' = unvisited image := by
    intro id image' himage'
    rw [hresolve] at himage'
    obtain ⟨image, himage, rfl⟩ := map_eq_some_iff.mp himage'
    exact ⟨image, himage, rfl⟩
  have hplace : ∀ image, SamePlace image (unvisited image) := fun image => ⟨rfl, rfl, rfl⟩
  refine ⟨⟨hi.of_images (by rw [hc']) (fun p hp => by rwa [hc'] at hp) (by rw [hc'])
    (fun id image' himage' => ?_) (fun id image' himage' => ?_) fun id image himage _ => ?_,
    ⟨fun k slot image' hslot himage' => ?_, fun x => ?_, ?_⟩, by rw [hc']⟩,
    fun id image' himage' => ?_, fun id image' himage' => ?_, fun id image himage => ?_⟩
  · obtain ⟨image, -, rfl⟩ := hback id image' himage'
    exact Nat.zero_le _
  · obtain ⟨image, himage, rfl⟩ := hback id image' himage'
    exact .inl ⟨image, himage, hplace image⟩
  · refine ⟨unvisited image, ?_, hplace image⟩
    rw [hresolve, himage]
    rfl
  · rw [hslots, getElem?_map] at hslot
    obtain ⟨slot0, hslot0, rfl⟩ := map_eq_some_iff.mp hslot
    obtain ⟨image, himage, rfl⟩ := map_eq_some_iff.mp himage'
    have hinterval : SameInterval image (unvisited image) := ⟨rfl, rfl, rfl, rfl⟩
    exact hinterval.shaped (hs k slot0 image hslot0 himage)
  · unfold watchers
    rw [hslots, countP_map, hc']
    apply congrArg fun n => (c.page_manager.page x).write_watchers + n
    apply countP_congr
    intro slot _
    show (slot.image.any fun image => image.tracks x) = true ↔
      ((slot.image.map unvisited).any fun image => image.tracks x) = true
    rw [Option.any_map]
    rfl
  · rw [hc']
    exact reaches_refl _
  · obtain ⟨image, -, rfl⟩ := hback id image' himage'
    have hone : (0#32 : BitVec 32) ≠ 0#32 + 1 := by decide
    rw [hc']
    exact hone
  · obtain ⟨image, himage, rfl⟩ := hback id image' himage'
    exact ⟨image, himage, hplace image⟩
  · refine ⟨unvisited image, ?_, hplace image⟩
    rw [hresolve, himage]
    rfl

/-- **The next epoch** is one that no image has, also where the counter wraps. -/
theorem nextEpoch_fresh (hi : c.Indexed) (hs : c.Shaped) : Fresh c c.nextEpoch := by
  unfold nextEpoch
  by_cases hwrap : c.image_query_epoch + 1 = 0#32
  · rw [if_pos hwrap, hwrap]
    exact fresh_wrap hi hs rfl
  · rw [if_neg hwrap]
    have hlt : c.image_query_epoch.toNat < (c.image_query_epoch + 1).toNat := by
      have hmod : (c.image_query_epoch + 1).toNat = (c.image_query_epoch.toNat + 1) % 2 ^ 32 :=
        BitVec.toNat_add _ _
      have hne : (c.image_query_epoch + 1).toNat ≠ 0 := by
        intro hzero
        exact hwrap (BitVec.eq_of_toNat_eq hzero)
      omega
    refine ⟨⟨⟨hi.owners, hi.nodup, fun id image h => (hi.epochs id image h).trans hlt.le, hi.retired,
      hi.old, hi.serials⟩, ⟨hs, fun _ => rfl, reaches_refl _⟩, le_rfl⟩,
      fun id image' himage' hsame => ?_, fun _ image' h => ⟨image', h, rfl, rfl, rfl⟩,
      fun _ image h => ⟨image, h, rfl, rfl, rfl⟩⟩
    have hold := hi.epochs id image' himage'
    rw [hsame] at hold
    exact absurd hold (Nat.not_le.mpr hlt)

/-! ## The lookup -/

/-- Where a lookup that began with `c` has got to, when it has met the images of `met`. -/
structure Visited (c : TextureCache) (address size : ℕ) (page_overlap : Bool) (met : List ImageId)
    (s : TextureCache × InlinePageOwnerList) : Prop where
  kept : Kept c s.1
  table : s.1.image_page_table = c.image_page_table
  epoch : s.1.image_query_epoch = c.image_query_epoch
  deferred : s.1.deferred = c.deferred
  next_serial : s.1.next_serial = c.next_serial
  images : ∀ id, s.1.resolveOwner id = (c.resolveOwner id).map fun image =>
    if id ∈ met then { image with query_epoch := c.image_query_epoch } else image
  nodup : s.2.ids.Nodup
  found : ∀ id, id ∈ s.2.ids ↔ id ∈ met ∧ ∃ image, c.resolveOwner id = some image ∧
    image.overlaps address size page_overlap = .ok true

theorem Visited.good (hi : c.Indexed)
    (h : Visited c address size page_overlap met s) : Good c s.1 := by
  have hback : ∀ id image', s.1.resolveOwner id = some image' →
      ∃ image, c.resolveOwner id = some image ∧ SamePlace image image' ∧
        (image'.query_epoch = image.query_epoch ∨ image'.query_epoch = c.image_query_epoch) := by
    intro id image' himage'
    rw [h.images] at himage'
    obtain ⟨image, himage, rfl⟩ := map_eq_some_iff.mp himage'
    refine ⟨image, himage, ?_⟩
    split_ifs
    · exact ⟨⟨rfl, rfl, rfl⟩, Or.inr rfl⟩
    · exact ⟨⟨rfl, rfl, rfl⟩, Or.inl rfl⟩
  refine ⟨hi.of_images h.table (fun p hp => h.deferred ▸ hp) h.next_serial.ge
    (fun id image' himage' => ?_) (fun id image' himage' => ?_) fun id image himage _ => ?_,
    h.kept, h.next_serial.ge⟩
  · obtain ⟨image, himage, -, hepoch⟩ := hback id image' himage'
    rw [h.epoch]
    rcases hepoch with hepoch | hepoch
    · rw [hepoch]
      exact hi.epochs id image himage
    · rw [hepoch]
  · obtain ⟨image, himage, hsame, -⟩ := hback id image' himage'
    exact .inl ⟨image, himage, hsame⟩
  · have hnow := h.images id
    rw [himage, map_some] at hnow
    refine ⟨_, hnow, ?_⟩
    split_ifs <;> exact ⟨rfl, rfl, rfl⟩

/-- Nothing can fail. -/
abbrev Never (_ : TextureAbort) : Prop := False

/-- The owners of the pages from `page` on. -/
def listed (t : ImagePageTable) (n page : ℕ) : List ImageId :=
  (List.range' page n).flatMap t.owners

section

variable (hfresh : ∀ id image, c.resolveOwner id = some image →
  image.query_epoch ≠ c.image_query_epoch)

include hfresh

/-- **One owner of a page.** -/
theorem visitOwner_yields (h : Visited c address size page_overlap met s) {id : ImageId}
    (himage : c.resolveOwner id = some image) {b : Bool}
    (hover : image.overlaps address size page_overlap = .ok b) :
    Yields Never (visitOwner address size page_overlap c.image_query_epoch s id)
      (Visited c address size page_overlap (met ++ [id])) := by
  unfold visitOwner
  have hnow := h.images id
  rw [himage, map_some] at hnow
  rw [hnow]
  dsimp only
  by_cases hmet : id ∈ met
  · -- the image has been met on another page
    rw [if_pos hmet, if_pos rfl]
    have hmem : ∀ i, i ∈ met ++ [id] ↔ i ∈ met := by
      intro i
      rw [mem_append, mem_singleton]
      exact or_iff_left_of_imp fun hi => hi ▸ hmet
    refine ⟨h.kept, h.table, h.epoch, h.deferred, h.next_serial, fun i => ?_, h.nodup, fun i => ?_⟩
    · rw [h.images]
      simp only [hmem]
    · rw [h.found, hmem]
  · rw [if_neg hmet] at hnow
    rw [if_neg hmet, if_neg (hfresh id image himage), hover]
    have hmem : ∀ i, i ∈ met ++ [id] ↔ i ∈ met ∨ i = id := by
      intro i
      rw [mem_append, mem_singleton]
    have hinterval : SameInterval image { image with query_epoch := c.image_query_epoch } :=
      ⟨rfl, rfl, rfl, rfl⟩
    have hkept := kept_modify h.kept.shaped hnow (f := fun image : Image =>
      { image with query_epoch := c.image_query_epoch })
      (hinterval.shaped (h.kept.shaped.owner hnow)) (fun x => hinterval.share x)
      s.1.image_page_table
    have himages : ∀ i, (s.1.modify id fun image => { image with
        query_epoch := c.image_query_epoch }).resolveOwner i = (c.resolveOwner i).map fun image =>
        if i ∈ met ++ [id] then { image with query_epoch := c.image_query_epoch } else image := by
      intro i
      rw [resolveOwner_modify hnow, h.images]
      by_cases hid : i = id
      · subst hid
        rw [if_pos rfl, himage]
        simp
      · rw [if_neg hid]
        simp [hid]
    have hnot : id ∉ s.2.ids := fun hfound => hmet ((h.found id).mp hfound).1
    -- what the lookup finds with this image
    have hfound : ∀ i, (i ∈ met ++ [id] ∧ ∃ image, c.resolveOwner i = some image ∧
        image.overlaps address size page_overlap = .ok true) ↔
        i ∈ s.2.ids ∨ (i = id ∧ b = true) := by
      intro i
      rw [hmem, h.found]
      constructor
      · rintro ⟨hmet | rfl, image', himage', hover'⟩
        · exact .inl ⟨hmet, image', himage', hover'⟩
        · obtain rfl : image = image' := some.inj (himage.symm.trans himage')
          exact .inr ⟨rfl, Except.ok.inj (hover.symm.trans hover')⟩
      · rintro (⟨hmet, hexists⟩ | ⟨rfl, rfl⟩)
        · exact ⟨Or.inl hmet, hexists⟩
        · exact ⟨Or.inr rfl, image, himage, hover⟩
    cases b with
    | false =>
      refine ⟨h.kept.trans hkept, h.table, h.epoch, h.deferred, h.next_serial, himages, h.nodup,
        fun i => ?_⟩
      rw [hfound]
      simp
    | true =>
      refine ⟨h.kept.trans hkept, h.table, h.epoch, h.deferred, h.next_serial, himages, ?_,
        fun i => ?_⟩
      · rw [ids_pushBack]
        exact h.nodup.append (nodup_singleton id) (disjoint_singleton.mpr hnot)
      · rw [hfound, ids_pushBack, mem_append, mem_singleton]
        simp

theorem visitOwners_yields (l : List ImageId)
    (hl : ∀ id ∈ l, ∃ image b, c.resolveOwner id = some image ∧
      image.overlaps address size page_overlap = .ok b)
    (h : Visited c address size page_overlap met s) :
    Yields Never (l.foldlM (visitOwner address size page_overlap c.image_query_epoch) s)
      (Visited c address size page_overlap (met ++ l)) := by
  induction l generalizing met s with
  | nil =>
    rw [append_nil]
    exact h
  | cons id l ih =>
    obtain ⟨image, b, himage, hover⟩ := hl id mem_cons_self
    rw [foldlM_cons]
    refine (visitOwner_yields hfresh h himage hover).bind fun s1 h1 => ?_
    have hrest := ih (fun i hi => hl i (mem_cons_of_mem id hi)) h1
    rw [append_assoc, singleton_append] at hrest
    exact hrest

/-- **The loop over the pages.** -/
theorem visitPages_yields (hl : ∀ page, ∀ id ∈ c.image_page_table.owners page, ∃ image b,
      c.resolveOwner id = some image ∧ image.overlaps address size page_overlap = .ok b)
    (n page : ℕ) (h : Visited c address size page_overlap met s) :
    Yields Never (visitPages address size page_overlap c.image_query_epoch n page s)
      (Visited c address size page_overlap (met ++ listed c.image_page_table n page)) := by
  induction n generalizing page met s with
  | zero =>
    unfold listed
    rw [range'_zero, flatMap_nil, append_nil]
    exact h
  | succ n ih =>
    unfold visitPages
    have hlater : ∀ s1, Visited c address size page_overlap
        (met ++ c.image_page_table.owners page) s1 →
        Yields Never (visitPages address size page_overlap c.image_query_epoch n (page + 1) s1)
          (Visited c address size page_overlap
            (met ++ listed c.image_page_table (n + 1) page)) := by
      intro s1 h1
      have hrest := ih (page + 1) h1
      rw [append_assoc] at hrest
      exact hrest
    rw [h.table]
    cases hfind : c.image_page_table.find page with
    | none =>
      have hnone : c.image_page_table.owners page = [] := by
        unfold owners
        rw [hfind]
        rfl
      apply hlater s
      rw [hnone, append_nil]
      exact h
    | some owners =>
      have hsome := owners_of_find hfind
      refine .bind ?_ hlater
      rw [hsome]
      exact visitOwners_yields hfresh _ (fun id hid => hl page id (hsome ▸ hid)) h

end

/-- **`FindImagesInRegion`** returns, for a range in the address space, each registered image
that overlaps the range, and each of them once. -/
theorem findImagesInRegion_exact (hi : c.Indexed) (hs : c.Shaped)
    (hsize : 0 < size) (hrange : address + size ≤ ADDRESS_SPACE_SIZE) (page_overlap : Bool) :
    Yields Never (c.findImagesInRegion address size page_overlap) fun r => Good c r.1 ∧
      (∀ id image, c.resolveOwner id = some image →
        ∃ image', r.1.resolveOwner id = some image' ∧ SamePlace image image') ∧
      (∀ id image', r.1.resolveOwner id = some image' →
        ∃ image, c.resolveOwner id = some image ∧ SamePlace image image') ∧
      r.2.ids.Nodup ∧ ∀ id, id ∈ r.2.ids ↔ ∃ image, c.resolveOwner id = some image ∧
        image.registered = true ∧ image.Meets address size page_overlap := by
  unfold findImagesInRegion
  have hpages := tryGetPageRange_eq_some.mpr ⟨hsize, hrange, rfl, rfl⟩
  rw [hpages]
  obtain ⟨hgood, hfresh, hsame, hsame'⟩ := nextEpoch_fresh hi hs
  have hover : ∀ id image, c.nextEpoch.resolveOwner id = some image → image.registered = true →
      ∃ b, image.overlaps address size page_overlap = .ok b ∧
        (b = true ↔ image.Meets address size page_overlap) := by
    intro id image himage hregistered
    obtain ⟨-, hpos, hend⟩ := (hgood.kept.shaped.owner himage).placed hregistered
    exact overlaps_eq page_overlap hpos hend hsize hrange
  have hstart : Visited c.nextEpoch address size page_overlap [] (c.nextEpoch, {}) := by
    refine ⟨.refl hgood.kept.shaped, rfl, rfl, rfl, rfl, fun id => ?_, nodup_nil, fun id => ?_⟩
    · simp
    · simp
  refine (visitPages_yields hfresh (fun page id hid => ?_) _ _ hstart).mono fun r hr => ?_
  · obtain ⟨image, himage, hregistered, -⟩ := (hgood.indexed.owners page id).mp hid
    obtain ⟨b, hb, -⟩ := hover id image himage hregistered
    exact ⟨image, b, himage, hb⟩
  rw [nil_append] at hr
  have hlast := hr.good hgood.indexed
  refine ⟨⟨hlast.indexed, hgood.kept.trans hlast.kept, hgood.next_serial.trans hlast.next_serial⟩,
    fun id image himage => ?_, fun id image' himage' => ?_, hr.nodup, fun id => ?_⟩
  · obtain ⟨image', himage', hplace⟩ := hsame' id image himage
    have hnow := hr.images id
    rw [himage', map_some] at hnow
    refine ⟨_, hnow, ?_⟩
    split_ifs <;> exact ⟨hplace.serial, hplace.data, hplace.registered⟩
  · rw [hr.images id] at himage'
    obtain ⟨image1, himage1, rfl⟩ := map_eq_some_iff.mp himage'
    obtain ⟨image, himage, hplace⟩ := hsame id image1 himage1
    refine ⟨image, himage, ?_⟩
    split_ifs <;> exact ⟨hplace.serial, hplace.data, hplace.registered⟩
  rw [hr.found]
  constructor
  · rintro ⟨hmet, image', himage', hoverlaps⟩
    obtain ⟨page, -, howner⟩ := mem_flatMap.mp hmet
    obtain ⟨image'', himage'', hregistered, -⟩ := (hgood.indexed.owners page id).mp howner
    obtain rfl : image' = image'' := some.inj (himage'.symm.trans himage'')
    obtain ⟨b, hb, hmeets⟩ := hover id image' himage' hregistered
    obtain rfl : b = true := Except.ok.inj (hb.symm.trans hoverlaps)
    obtain ⟨image, himage, hplace⟩ := hsame id image' himage'
    refine ⟨image, himage, hplace.registered.symm.trans hregistered, ?_⟩
    exact hplace.meets.mp (hmeets.mp rfl)
  · rintro ⟨image, himage, hregistered, hmeets⟩
    obtain ⟨image', himage', hplace⟩ := hsame' id image himage
    have hregistered' := hplace.registered.trans hregistered
    have hmeets' := hplace.meets.mpr hmeets
    obtain ⟨b, hb, hiff⟩ := hover id image' himage' hregistered'
    obtain rfl := hiff.mpr hmeets'
    refine ⟨?_, image', himage', hb⟩
    -- the image is an owner of a page that it shares with the range
    obtain ⟨page, hpage, h1, h2⟩ := hmeets'.page
    refine mem_flatMap.mpr ⟨page, ?_, ?_⟩
    · rw [mem_range'_1]
      omega
    · exact (hgood.indexed.owners page id).mpr ⟨image', himage', hregistered', hpage⟩

end TextureCache

end MagnusPS5.Graphics
