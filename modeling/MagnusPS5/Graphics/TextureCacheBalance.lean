/-
The balance of the write watchers over a run of the texture cache.

The watchers of a page are those of the images that track it and those of the other users
of the page manager. A write of the CPU takes away what images track on the pages it
touches, and an image that is removed tracks nothing; so a page is protected while an image
tracks it and no longer.
-/
import MagnusPS5.Graphics.TextureCacheRun

namespace MagnusPS5.Graphics.TextureCache

open Lib
open Graphics.PageManager (OnRange)
open Kernel (GuestAddressSpace)
open PageManager Image List

/-! ## One image is replaced -/

/-- Only the image of the id is another one. -/
def Replaced (c c' : TextureCache) (id : ImageId) (image' : Image) : Prop :=
  ∀ i, c'.resolveOwner i = if i = id then some image' else c.resolveOwner i

variable {c c1 c' : TextureCache} {id : ImageId} {image image' : Image} {address size x : ℕ}

theorem Replaced.refl (h : c.resolveOwner id = some image) : Replaced c c id image := by
  intro i
  by_cases hi : i = id
  · rw [if_pos hi, hi, h]
  · rw [if_neg hi]

theorem Replaced.trans {c2 : TextureCache} {image1 image2 : Image}
    (h : Replaced c c1 id image1) (h' : Replaced c1 c2 id image2) : Replaced c c2 id image2 := by
  intro i
  rw [h' i]
  by_cases hi : i = id
  · rw [if_pos hi, if_pos hi]
  · rw [if_neg hi, if_neg hi, h i, if_neg hi]

theorem Replaced.owner (h : Replaced c c' id image') : c'.resolveOwner id = some image' := by
  rw [h id, if_pos rfl]

theorem Replaced.updatePages (h : Replaced c c1 id image') {track : Bool}
    (hc : c1.updatePages track address size = .ok c') : Replaced c c' id image' := by
  intro i
  rw [resolveOwner_congr (updatePages_slots hc) i]
  exact h i

theorem untrackImage_replaced
    (h : c.resolveOwner id = some image) (hc : c.untrackImage id = .ok c') :
    ∃ image', Replaced c c' id image' ∧ image'.depth_id = image.depth_id ∧
      image'.isTracked = false := by
  unfold untrackImage at hc
  rw [resolveImage_eq_ok.mpr h] at hc
  change (if image.isTracked = false then _ else _) = _ at hc
  by_cases htracked : image.isTracked = false
  · rw [if_pos htracked] at hc
    cases hc
    exact ⟨image, .refl h, rfl, htracked⟩
  · rw [if_neg htracked] at hc
    have hfirst : Replaced c (c.modify id cleared) id (cleared image) := resolveOwner_modify h _
    refine ⟨cleared image, ?_, rfl, rfl⟩
    split at hc
    · exact hfirst.updatePages hc
    · cases hc
      exact hfirst

theorem depth_id_maybeDirty (image : Image) : image.maybeDirty.depth_id = image.depth_id := by
  unfold maybeDirty
  dsimp only
  split_ifs <;> rfl

section

variable (h : c.resolveOwner id = some image)

include h

theorem markAsMaybeDirty_replaced (hc : c.markAsMaybeDirty id = .ok c') :
    ∃ image', Replaced c c' id image' ∧ image'.depth_id = image.depth_id ∧
      image'.isTracked = false := by
  have hdirty : Replaced c (c.modify id maybeDirty) id image.maybeDirty :=
    resolveOwner_modify h _
  obtain ⟨image', hreplaced, hdepth, huntracked⟩ := untrackImage_replaced hdirty.owner hc
  exact ⟨image', hdirty.trans hreplaced, hdepth.trans (depth_id_maybeDirty image), huntracked⟩

theorem shrink_replaced {f : Image → Image}
    (hdepth : (f image).depth_id = image.depth_id) {still empty : Prop} [Decidable still]
    [Decidable empty] (hc : (if image.isTracked = false ∨ still then return c else do
      let c ← if empty then (c.modify id f).markAsMaybeDirty id else pure (c.modify id f)
      if size ≠ 0 then c.updatePages false address size else return c) = .ok c') :
    ∃ image', Replaced c c' id image' ∧ image'.depth_id = image.depth_id ∧
      (image'.isTracked = false ∨ (image' = image ∧ still) ∨ image' = f image) := by
  by_cases hskip : image.isTracked = false ∨ still
  · rw [if_pos hskip] at hc
    cases hc
    exact ⟨image, .refl h, rfl, hskip.imp_right fun hstill => .inl ⟨rfl, hstill⟩⟩
  rw [if_neg hskip] at hc
  have hfirst : Replaced c (c.modify id f) id (f image) := resolveOwner_modify h _
  have hlast : ∀ c1 image', Replaced c c1 id image' →
      (if size ≠ 0 then c1.updatePages false address size else return c1) = .ok c' →
      Replaced c c' id image' := by
    intro c1 image' h1 hc1
    split at hc1
    · exact h1.updatePages hc1
    · cases hc1
      exact h1
  by_cases hempty : empty
  · rw [if_pos hempty] at hc
    obtain ⟨c1, hmark, hrest⟩ := bind_eq_ok.mp hc
    obtain ⟨image', hreplaced, hdepth', huntracked⟩ := markAsMaybeDirty_replaced hfirst.owner hmark
    exact ⟨image', hlast c1 image' (hfirst.trans hreplaced) hrest, hdepth'.trans hdepth,
      .inl huntracked⟩
  · rw [if_neg hempty] at hc
    exact ⟨f image, hlast _ _ hfirst hc, hdepth, .inr (.inr rfl)⟩

theorem untrackImageHead_replaced (hc : c.untrackImageHead id = .ok c') :
    ∃ image', Replaced c c' id image' ∧ image'.depth_id = image.depth_id ∧
      (image'.isTracked = false ∨
        (image' = image ∧ image.data.address < image.track_addr) ∨
        image'.track_addr = pageStart (image.data.address + TRACKER_PAGE_SIZE)) := by
  unfold untrackImageHead at hc
  rw [resolveImage_eq_ok.mpr h] at hc
  obtain ⟨image', hreplaced, hdepth, hstate⟩ := shrink_replaced h (f := fun image' : Image =>
    { image' with track_addr := pageStart (image.data.address + TRACKER_PAGE_SIZE) }) rfl hc
  refine ⟨image', hreplaced, hdepth, hstate.imp_right (.imp_right fun heq => ?_)⟩
  rw [heq]

theorem untrackImageTail_replaced (hc : c.untrackImageTail id = .ok c') :
    ∃ image', Replaced c c' id image' ∧ image'.depth_id = image.depth_id ∧
      (image'.isTracked = false ∨
        (image' = image ∧ image.track_addr_end < image.data.end_) ∨
        image'.track_addr_end = pageStart image.data.end_) := by
  unfold untrackImageTail at hc
  rw [resolveImage_eq_ok.mpr h] at hc
  obtain ⟨image', hreplaced, hdepth, hstate⟩ := shrink_replaced h (f := fun image' : Image =>
    { image' with track_addr_end := pageStart image.data.end_ }) rfl hc
  refine ⟨image', hreplaced, hdepth, hstate.imp_right (.imp_right fun heq => ?_)⟩
  rw [heq]

end

/-! ## What a write of the CPU takes away -/

theorem tracks_untracked (h : image.isTracked = false) (x : ℕ) : image.tracks x = false := by
  unfold tracks
  rw [h]
  rfl

theorem invalidateCpuWrite_depth_id {vaddr : ℕ}
    (h : image.invalidateCpuWrite vaddr size = .ok image') : image'.depth_id = image.depth_id := by
  obtain ⟨bytes, -, h⟩ := bind_eq_ok.mp h
  split at h
  · cases h
    rfl
  · obtain ⟨pages, -, h⟩ := bind_eq_ok.mp h
    split at h <;>
    · cases h
      rfl

theorem not_tracks_head {first : ℕ} (hx : x / 4096 ≤ first / 4096)
    (hhead : first / 4096 < image.track_addr / 4096) : image.tracks x = false := by
  by_contra h
  obtain ⟨-, hle, -⟩ := tracks_eq.mp (by simpa using h)
  omega

theorem not_tracks_tail {last : ℕ} (hx : last / 4096 ≤ x / 4096)
    (hpage : image.track_addr_end % 4096 = 0) (hpos : 0 < image.track_addr_end)
    (htail : image.track_addr_end ≤ last) : image.tracks x = false := by
  by_contra h
  obtain ⟨-, -, hle⟩ := tracks_eq.mp (by simpa using h)
  omega

/-- **One image** that has a page in common with the range. It tracks none of the pages of the
range any more, unless it stands for a depth image. -/
theorem invalidateAlias_frees (hs : c.Shaped)
    (himage : c.resolveOwner id = some image) (hregistered : image.registered = true)
    (hsize : 0 < size) (hrange : address + size ≤ 1099511627776)
    (hmeets : image.Meets address size true) (hc : invalidateAlias address size c id = .ok c') :
    ∃ image', Replaced c c' id image' ∧ image'.depth_id = image.depth_id ∧
      (image.depth_id.valid = false → ∀ x, OnRange address size x → image'.tracks x = false) := by
  unfold invalidateAlias at hc
  rw [himage] at hc
  dsimp only at hc
  by_cases hdepth : image.depth_id.valid = true
  · rw [if_pos hdepth] at hc
    cases hc
    refine ⟨image, .refl himage, rfl, fun hnone => ?_⟩
    nomatch (hdepth.symm.trans hnone)
  rw [if_neg hdepth] at hc
  have hshaped := hs.owner himage
  have hplaced := hshaped.placed hregistered
  obtain ⟨b, hb, hbytes⟩ := overlaps_eq false hplaced.2.1 hplaced.2.2 hsize hrange
  rw [hb] at hc
  change (if b = true then _ else _) = _ at hc
  by_cases hover : b = true
  · -- the image is not tracked at all
    rw [if_pos hover] at hc
    obtain ⟨image1, hwrite, huntrack⟩ := bind_eq_ok.mp hc
    have hfirst : Replaced c (c.modify id fun _ => image1) id image1 :=
      resolveOwner_modify himage _
    obtain ⟨image', hreplaced, hdepth', huntracked⟩ := untrackImage_replaced hfirst.owner huntrack
    refine ⟨image', hfirst.trans hreplaced, ?_, fun _ x _ => tracks_untracked huntracked x⟩
    exact hdepth'.trans (invalidateCpuWrite_depth_id hwrite)
  rw [if_neg hover] at hc
  have hapart : ¬ image.Meets address size false := fun h => hover (hbytes.mpr h)
  have hends := ends_apart hplaced.2.1 hsize hapart
  by_cases hhead : pageStart (address + size + TRACKER_PAGE_SIZE - 1) < image.data.end_
  · -- the range ends on the page that the image begins in
    rw [if_pos hhead] at hc
    obtain ⟨image', hreplaced, hdepth', hstate⟩ := untrackImageHead_replaced himage hc
    refine ⟨image', hreplaced, hdepth', fun _ x hx => ?_⟩
    obtain ⟨-, hlast⟩ := onRange_iff.mp hx
    have hbefore : address + size ≤ image.data.address := by
      refine hends.resolve_right fun hbehind => ?_
      have hbounds := pageStart_bounds (address + size + TRACKER_PAGE_SIZE - 1)
      have htracker : TRACKER_PAGE_SIZE = 4096 := rfl
      omega
    have hfirst : x / 4096 ≤ image.data.address / 4096 :=
      hlast.trans (Nat.div_le_div_right (by omega))
    rcases hstate with huntracked | ⟨rfl, hgone⟩ | hcut
    · exact tracks_untracked huntracked x
    · by_cases htracked : image'.isTracked = true
      · obtain ⟨haligned, -, -⟩ := (hshaped.start htracked).resolve_left hgone.ne'
        exact not_tracks_head hfirst (by omega)
      · exact tracks_untracked (by simpa using htracked) x
    · refine not_tracks_head hfirst ?_
      rw [hcut, pageStart_eq]
      have htracker : TRACKER_PAGE_SIZE = 4096 := rfl
      omega
  rw [if_neg hhead] at hc
  by_cases htail : image.data.address < pageStart address
  · -- the range begins on the page that the image ends in
    rw [if_pos htail] at hc
    obtain ⟨image', hreplaced, hdepth', hstate⟩ := untrackImageTail_replaced himage hc
    refine ⟨image', hreplaced, hdepth', fun _ x hx => ?_⟩
    obtain ⟨hfirst, -⟩ := onRange_iff.mp hx
    have hbehind : image.data.end_ ≤ address := by
      have hbounds := pageStart_bounds address
      omega
    have hlast : image.data.end_ / 4096 ≤ x / 4096 :=
      (Nat.div_le_div_right hbehind).trans hfirst
    rcases hstate with huntracked | ⟨rfl, hgone⟩ | hcut
    · exact tracks_untracked huntracked x
    · by_cases htracked : image'.isTracked = true
      · obtain ⟨haligned, hinside, -⟩ := (hshaped.stop htracked).resolve_left hgone.ne
        have hpos := hshaped.some_byte htracked
        exact not_tracks_tail hlast haligned (by omega) hinside.le
      · exact tracks_untracked (by simpa using htracked) x
    · by_cases hpos : 0 < image'.track_addr_end
      · refine not_tracks_tail hlast ?_ hpos ?_
        · rw [hcut, pageStart_eq]
          exact Nat.mul_mod_left _ _
        · rw [hcut]
          exact (pageStart_bounds image.data.end_).1
      · refine tracks_untracked ?_ x
        unfold isTracked
        have hzero : image'.track_addr_end = 0 := by omega
        rw [hzero]
        simp
  · rw [if_neg htail] at hc
    obtain ⟨image', hreplaced, hdepth', huntracked⟩ := markAsMaybeDirty_replaced himage hc
    exact ⟨image', hreplaced, hdepth', fun _ x _ => tracks_untracked huntracked x⟩

theorem page_iff_byte {first last page : ℕ} (h : first < last) :
    first / 4096 ≤ page ∧ page ≤ (last - 1) / 4096 ↔
      ∃ byte, (first ≤ byte ∧ byte < last) ∧ byte / 4096 = page := by
  constructor
  · rintro ⟨h1, h2⟩
    by_cases hstart : first ≤ page * 4096
    · exact ⟨page * 4096, ⟨hstart, by omega⟩, Nat.mul_div_cancel page (by decide)⟩
    · exact ⟨first, ⟨le_rfl, h⟩, by omega⟩
  · rintro ⟨byte, ⟨h1, h2⟩, rfl⟩
    exact ⟨Nat.div_le_div_right h1, Nat.div_le_div_right (by omega)⟩

/-- **What an image tracks** are the pages of the bytes between `track_addr` and
`track_addr_end`. -/
theorem tracks_iff_byte (hs : image.Shaped) :
    image.tracks x = true ↔ ∃ byte, (image.track_addr ≤ byte ∧ byte < image.track_addr_end) ∧
      byte / TRACKER_PAGE_SIZE = x / TRACKER_PAGE_SIZE := by
  by_cases htracked : image.isTracked = true
  · rw [tracks_eq, and_iff_right htracked]
    exact page_iff_byte (hs.some_byte htracked)
  · have huntracked : image.isTracked = false := by simpa using htracked
    obtain ⟨hfirst, hlast⟩ := hs.untracked huntracked
    rw [tracks_untracked huntracked, hlast]
    constructor
    · intro h
      cases h
    · rintro ⟨byte, ⟨-, h⟩, -⟩
      omega

theorem interval_within (hs : image.Shaped) {byte : ℕ}
    (h : image.track_addr ≤ byte ∧ byte < image.track_addr_end) :
    image.registered = true ∧ image.data.address ≤ byte ∧ byte < image.data.end_ := by
  have htracked : image.isTracked = true := by
    by_contra hnot
    have hlast := (hs.untracked (by simpa using hnot)).2
    omega
  refine ⟨hs.registered htracked, ?_, ?_⟩
  · rcases hs.start htracked with hstart | hstart <;> omega
  · rcases hs.stop htracked with hstop | hstop <;> omega

theorem meets_of_tracks (hs : image.Shaped)
    (hsize : 0 < size) (hx : OnRange address size x) (htracks : image.tracks x = true) :
    image.registered = true ∧ image.Meets address size true := by
  obtain ⟨byte, hbyte, hpage⟩ := (tracks_iff_byte hs).mp htracks
  obtain ⟨hregistered, hin⟩ := interval_within hs hbyte
  obtain ⟨y, hy, hy'⟩ := (page_iff_byte (show address < address + size by omega)).mp
    (onRange_iff.mp hx)
  exact ⟨hregistered, byte, y, hin, hy, hpage.trans hy'.symm⟩

theorem invalidateAliases_frees (hsize : 0 < size)
    (hrange : address + size ≤ 1099511627776) {ids : List ImageId}
    (hmeets : ∀ id ∈ ids, ∃ image, c1.resolveOwner id = some image ∧ image.registered = true ∧
      image.Meets address size true) (l : List ImageId) {c2 c3 : TextureCache} (hnodup : l.Nodup)
    (hl : ∀ id ∈ l, id ∈ ids) (h : Watching c1 c2)
    (hc : l.foldlM (invalidateAlias address size) c2 = .ok c3) :
    (∀ i, i ∉ l → c3.resolveOwner i = c2.resolveOwner i) ∧
      ∀ i ∈ l, ∃ image', c3.resolveOwner i = some image' ∧ (image'.depth_id.valid = false →
        ∀ x, OnRange address size x → image'.tracks x = false) := by
  induction l generalizing c2 with
  | nil =>
    cases hc
    exact ⟨fun i _ => rfl, fun i hi => nomatch hi⟩
  | cons id l ih =>
    rw [foldlM_cons] at hc
    obtain ⟨c, hfirst, hrest⟩ := bind_eq_ok.mp hc
    obtain ⟨hnew, hnodup'⟩ := nodup_cons.mp hnodup
    obtain ⟨image1, himage1, hregistered, hmeet⟩ := hmeets id (hl id mem_cons_self)
    obtain ⟨image, himage, hentry⟩ := h.outline.still himage1
    have hplace := samePlace_of_entry hentry
    have hregistered' := hplace.registered.trans hregistered
    have hmeet' := hplace.meets.mpr hmeet
    obtain ⟨image', hreplaced, hdepth, hfree⟩ :=
      invalidateAlias_frees h.shaped himage hregistered' hsize hrange hmeet' hfirst
    have hwatching : Watching c2 c :=
      (invalidateAlias_watching h.shaped himage hregistered' hsize hrange hmeet').of_ok hfirst
    obtain ⟨hout, hin⟩ := ih hnodup' (fun i hi => hl i (mem_cons_of_mem id hi))
      (h.trans hwatching) hrest
    refine ⟨fun i hi => ?_, fun i hi => ?_⟩
    · have hne : i ≠ id := fun h => hi (h ▸ .head _)
      rw [hout i fun h => hi (mem_cons_of_mem id h), hreplaced i, if_neg hne]
    · rcases mem_cons.mp hi with rfl | hi
      · -- no later step comes back to the image
        refine ⟨image', ?_, fun hnone => hfree (hdepth ▸ hnone)⟩
        rw [hout i hnew, hreplaced.owner]
      · exact hin i hi

/-- **After a write of the CPU** no image tracks a page of the range, but for those that stand
for a depth image. -/
theorem invalidateCpuAliases_frees (hi : c.Indexed) (hs : c.Shaped)
    (hsize : 0 < size) (hrange : address + size ≤ 1099511627776)
    (hc : c.invalidateCpuAliases address size = .ok c')
    (himage : c'.resolveOwner id = some image) (hdepth : image.depth_id.valid = false)
    (hx : OnRange address size x) : image.tracks x = false := by
  obtain ⟨⟨c1, found⟩, hfind, hloop⟩ := bind_eq_ok.mp hc
  obtain ⟨hgood, hstay, hback, hnodup, hfound⟩ :=
    (findImagesInRegion_exact hi hs hsize hrange true).of_ok hfind
  have hmeets : ∀ id ∈ found.ids, ∃ image, c1.resolveOwner id = some image ∧
      image.registered = true ∧ image.Meets address size true := by
    intro id hid
    obtain ⟨image, himage, hregistered, hmeet⟩ := (hfound id).mp hid
    obtain ⟨image1, himage1, hplace⟩ := hstay id image himage
    exact ⟨image1, himage1, hplace.registered.trans hregistered, hplace.meets.mpr hmeet⟩
  obtain ⟨hout, hin⟩ := invalidateAliases_frees hsize hrange hmeets found.ids hnodup
    (fun _ h => h) (.refl hgood.kept.shaped) hloop
  by_cases hid : id ∈ found.ids
  · obtain ⟨image', himage', hfree⟩ := hin id hid
    obtain rfl : image = image' := Option.some.inj (himage.symm.trans himage')
    exact hfree hdepth x hx
  · -- an image that tracks a page of the range has been found
    rw [hout id hid] at himage
    by_contra htracks
    obtain ⟨hregistered, hmeet⟩ :=
      meets_of_tracks (hgood.kept.shaped.owner himage) hsize hx (by simpa using htracks)
    obtain ⟨image0, himage0, hplace⟩ := hback id image himage
    apply hid
    exact (hfound id).mpr ⟨image0, himage0, hplace.registered.symm.trans hregistered,
      hplace.meets.mp hmeet⟩

/-! ## What a removal takes away -/

theorem eraseSlot_gone {retained : ℕ}
    (h : c.eraseSlot id retained = .ok c') : c'.resolveOwner id = none := by
  unfold eraseSlot at h
  cases hslot : c.slots[id.index.toNat]? with
  | none =>
    rw [hslot] at h
    cases h
  | some slot =>
    rw [hslot] at h
    dsimp only at h
    split at h
    · cases h
    · have hc' := (Except.ok.inj h).symm
      rw [resolveOwner_set hslot (congrArg slots hc'), if_pos rfl]
      split_ifs <;> rfl

theorem retireImage_gone (hi : c.Indexed) (hs : c.Shaped)
    {owner : Image} {active : Bool} (h : c.retireImage id owner active = .ok c')
    (himage : c'.resolveOwner id = some image) : image.registered = false := by
  unfold retireImage at h
  split at h
  · cases h
  · obtain ⟨c1, hunregister, hrest⟩ := bind_eq_ok.mp h
    have hunregistered := ((unregisterImage_yields hi hs id).of_ok hunregister).2
    split at hrest
    · cases hrest
      exact hunregistered image himage
    · rw [eraseSlot_gone hrest] at himage
      cases himage

/-- **After its removal** an image is not registered any more, or not there. -/
theorem deleteImage_gone (hi : c.Indexed) (hs : c.Shaped)
    {active : Bool} (h : c.deleteImage id active = .ok c')
    (himage : c'.resolveOwner id = some image) : image.registered = false := by
  unfold deleteImage at h
  cases howner : c.resolveOwner id with
  | none =>
    rw [howner] at h
    cases h
    rw [howner] at himage
    cases himage
  | some owner =>
    rw [howner] at h
    dsimp only at h
    split at h
    next hunregistered =>
      cases h
      cases howner.symm.trans himage
      exact hunregistered
    · -- the associations are removed before, whatever they are
      split at h
      · obtain ⟨c1, hloop, hretire⟩ := bind_eq_ok.mp h
        have hgood := (good_foldlM deleteAssociations_yields _ hi hs).of_ok hloop
        exact retireImage_gone hgood.indexed hgood.kept.shaped hretire himage
      · exact retireImage_gone hi hs h himage

/-! ## The balance of a run -/

/-- What a call of someone else adds to the write watchers of the page of an address. -/
def Call.delta (x : ℕ) : Call → ℤ
  | .pages op => op.delta x
  | _ => 0

/-- The write watchers that the other users of the page manager have on the page of an address. -/
def others (calls : List Call) (x : ℕ) : ℤ := (calls.map (Call.delta x)).sum

theorem delta_own {call : Call} (h : call.own = true) (x : ℕ) : call.delta x = 0 := by
  cases call with
  | pages op => cases h
  | _ => rfl

/-- **One call** changes the write watchers of a page as the images that track it change, and
by what the call adds if it is not one of the cache. -/
theorem step_balance (hi : c.Indexed) (hs : c.Shaped) {call : Call} (h : c.step call = .ok c') :
    Reaches c.page_manager c'.page_manager ∧ ∀ x,
      ((c'.page_manager.page x).write_watchers : ℤ) + c.watchers x =
        (c.page_manager.page x).write_watchers + c'.watchers x + call.delta x := by
  cases hown : call.own with
  | true =>
    have hkept := ((step_good hi hs hown).of_ok h).kept
    refine ⟨hkept.pages, fun x => ?_⟩
    have hx := hkept.watchers x
    rw [delta_own hown x]
    omega
  | false =>
    cases call with
    | pages op =>
      obtain ⟨hop, hc'⟩ := step_pages h
      refine ⟨reaches_step hop, fun x => ?_⟩
      have hx := step_delta hop x
      have hsame : c'.watchers x = c.watchers x := by
        rw [hc']
        rfl
      show _ = _ + op.delta x
      omega
    | _ => cases hown

/-- **Runs.** -/
theorem run_balance {calls : List Call} (hi : c.Indexed) (hs : c.Shaped)
    (h : run calls c = .ok c') :
    Reaches c.page_manager c'.page_manager ∧ ∀ x,
      ((c'.page_manager.page x).write_watchers : ℤ) + c.watchers x =
        (c.page_manager.page x).write_watchers + c'.watchers x + others calls x := by
  induction calls generalizing c with
  | nil =>
    cases h
    exact ⟨reaches_refl _, fun x => (add_zero _).symm⟩
  | cons call calls ih =>
    obtain ⟨c1, hstep, hrest⟩ := bind_eq_ok.mp h
    obtain ⟨hi1, hs1⟩ := step_invariant hi hs hstep
    obtain ⟨hpages, hfirst⟩ := step_balance hi hs hstep
    obtain ⟨hpages', hlater⟩ := ih hi1 hs1 hrest
    refine ⟨hpages.trans hpages', fun x => ?_⟩
    have h1 := hfirst x
    have h2 := hlater x
    have hothers : others (call :: calls) x = call.delta x + others calls x := sum_cons
    omega

/-- **The balance of the write watchers**, after any run of the cache beside other users of the
page manager. An image has one watcher on each page of its tracked bytes and no other; no call
of the cache finds a watcher missing; what the CPU writes and what is removed is not tracked
any more; and the last protection of a page is the one its watchers prescribe, but for pages
that the hot-page escape has opened. -/
theorem watcher_balance {hot_page_escape : Bool} {guest : Option GuestAddressSpace}
    {calls : List Call} {c : TextureCache}
    (hrun : run calls (start (PageManager.start hot_page_escape guest)) = .ok c) :
    (∀ x, ((c.page_manager.page x).write_watchers : ℤ) = others calls x + c.watchers x) ∧
    (∀ slot ∈ c.slots, ∀ image, slot.image = some image → ∀ x,
      (image.tracks x = true ↔ ∃ byte, (image.track_addr ≤ byte ∧ byte < image.track_addr_end) ∧
        byte / TRACKER_PAGE_SIZE = x / TRACKER_PAGE_SIZE) ∧
      (image.registered = false → image.tracks x = false)) ∧
    ((∀ x, 0 ≤ others calls x) → ∀ call abort, call.own = true →
      c.step call = .error (.pages abort) → PageManager.Balanced abort) ∧
    (∀ id active c', c.step (.deleteImage id active) = .ok c' → ∀ image,
      c'.resolveOwner id = some image → ∀ x, image.tracks x = false) ∧
    (∀ address size c', c.step (.invalidateMemory address size) = .ok c' → ∀ id image,
      c'.resolveOwner id = some image → image.depth_id.valid = false → ∀ x,
        OnRange address size x → image.tracks x = false) ∧
    (∃ ops log, PageManager.run ops (PageManager.start hot_page_escape guest, []) =
      .ok (c.page_manager, log)) ∧
    ∀ ops log, PageManager.run ops (PageManager.start hot_page_escape guest, []) =
        .ok (c.page_manager, log) →
      (∀ x, others calls x + c.watchers x ≠ 0 → (c.page_manager.page x).managed = true) ∧
      ∀ x, (c.page_manager.page x).managed = true → PageManager.lastProtection log x =
        some (if hot_page_escape = true ∧ (c.page_manager.page x).faults ≥ 3 then .readWrite
          else if (c.page_manager.page x).access_watchers ≠ 0 then .noAccess
          else if others calls x + c.watchers x ≠ 0 then .readOnly else .readWrite) := by
  obtain ⟨hi0, hs0⟩ := start_invariant (.start hot_page_escape guest)
  obtain ⟨hi, hs⟩ := run_invariant hi0 hs0 hrun
  obtain ⟨hpages, hwatchers⟩ := run_balance hi0 hs0 hrun
  have hbalance : ∀ x, ((c.page_manager.page x).write_watchers : ℤ) =
      others calls x + c.watchers x := by
    intro x
    have hx := hwatchers x
    have hnone : (start (.start hot_page_escape guest)).watchers x = 0 := rfl
    have hnew : (((start (.start hot_page_escape guest)).page_manager.page
      x).write_watchers : ℤ) = 0 := rfl
    omega
  have hremoved : ∀ (c' : TextureCache), c'.Shaped → ∀ id image,
      c'.resolveOwner id = some image → image.registered = false → ∀ x, image.tracks x = false := by
    intro c' hs' id image himage hunregistered x
    refine tracks_untracked ?_ x
    by_contra htracked
    have hregistered := (hs'.owner himage).registered (by simpa using htracked)
    rw [hunregistered] at hregistered
    cases hregistered
  refine ⟨hbalance, ?_, ?_, ?_, ?_, hpages [], ?_⟩
  · intro slot hslot image himage x
    obtain ⟨i, hi'⟩ := List.getElem?_of_mem hslot
    have hshaped := hs i slot image hi' himage
    refine ⟨tracks_iff_byte hshaped, fun hunregistered => ?_⟩
    by_contra htracks
    obtain ⟨byte, hbyte, -⟩ := (tracks_iff_byte hshaped).mp (by simpa using htracks)
    have hregistered := (interval_within hshaped hbyte).1
    rw [hunregistered] at hregistered
    cases hregistered
  · intro hothers call abort hown herror
    refine (step_good hi hs hown).of_error herror (fun x => ?_) abort rfl
    have h1 := hbalance x
    have h2 := hothers x
    omega
  · intro id active c' hstep image himage
    exact hremoved c' (step_invariant hi hs hstep).2 id image himage
      (deleteImage_gone hi hs hstep himage)
  · intro address size c' hstep id image himage hdepth x hx
    obtain ⟨hsize, hrange, hc'⟩ := invalidateMemory_ok hstep
    exact invalidateCpuAliases_frees hi hs hsize hrange hc' himage hdepth hx
  · intro ops log hops
    obtain ⟨hfollowed, hescape, -⟩ :=
      PageManager.run_followed ops (PageManager.followed_start _ _) hops
    have hescape' : c.page_manager.hot_page_escape = hot_page_escape := hescape
    refine ⟨fun x hx => ?_, fun x hx => ?_⟩
    · -- a page that nobody has watched has no watchers
      by_contra hunmanaged
      have hplain := hfollowed.plain x (by simpa using hunmanaged)
      have hzero := hbalance x
      rw [hplain] at hzero
      exact hx hzero.symm
    · rw [hfollowed.settled x hx, hescape']
      unfold PageState.perms
      have hiff : (c.page_manager.page x).write_watchers ≠ 0 ↔
          others calls x + c.watchers x ≠ 0 := by
        have hx' := hbalance x
        omega
      simp only [hiff]

/-- Two images that share a page. The CPU writes in front of both, on the first page: the one
is not tracked any more, and the other is without its head. -/
def twoImages : List Call :=
  [.insertImage ⟨0x10400, 0x800⟩ false, .insertImage ⟨0x10800, 0x1000⟩ false,
    .trackImage ⟨0#32, 1#32⟩, .trackImage ⟨1#32, 1#32⟩, .invalidateMemory 0x10000 0x100]

theorem watcher_balance_two :
    ∃ c, run twoImages (start (PageManager.start false (some TrackedMemory.oneRange))) = .ok c ∧
      c.watchers 0x10000 = 0 ∧ c.watchers 0x11000 = 1 ∧
      (∀ x, ((c.page_manager.page x).write_watchers : ℤ) = c.watchers x) ∧
      ∀ call abort, call.own = true → c.step call = .error (.pages abort) →
        PageManager.Balanced abort := by
  have hvalues : (run twoImages (start (.start false
      (some TrackedMemory.oneRange)))).toOption.map
      (fun c => (c.watchers 0x10000, c.watchers 0x11000)) = some (0, 1) := by
    decide +kernel
  obtain ⟨c, hrun, hc⟩ := ok_of_toOption hvalues
  obtain ⟨hfirst, hsecond⟩ := Prod.mk.inj hc
  obtain ⟨hbalance, -, hsound, -⟩ := watcher_balance hrun
  have hothers : ∀ x, others twoImages x = 0 := fun x => rfl
  refine ⟨c, hrun, hfirst, hsecond, fun x => ?_, hsound fun x => (hothers x).ge⟩
  have hx := hbalance x
  rw [hothers x] at hx
  omega

/-- Three reads of a page that the GPU has written to, beside an image that is tracked on it. -/
def threeReads : List Call :=
  let read : List Call := [.pages (.update true true 0x10000 0x1000), .pages (.noteFault 0x10000),
    .pages (.update false true 0x10000 0x1000)]
  [.insertImage ⟨0x10000, 0x1000⟩ false, .trackImage ⟨0#32, 1#32⟩] ++ read ++ read ++ read

/-- With the hot-page escape a page is opened while an image tracks it. -/
theorem hot_page_tracked :
    ∃ c, run threeReads (start (PageManager.start true (some TrackedMemory.oneRange))) = .ok c ∧
      c.watchers 0x10000 = 1 ∧ others threeReads 0x10000 = 0 ∧
      ∀ ops log, PageManager.run ops
          (PageManager.start true (some TrackedMemory.oneRange), []) = .ok (c.page_manager, log) →
        PageManager.lastProtection log 0x10000 = some .readWrite := by
  have hvalues : (run threeReads (start (PageManager.start true
      (some TrackedMemory.oneRange)))).toOption.map
      (fun c => (c.watchers 0x10000, (c.page_manager.page 0x10000).managed,
        (c.page_manager.page 0x10000).faults)) = some (1, true, 3) := by
    decide +kernel
  obtain ⟨c, hrun, hc⟩ := ok_of_toOption hvalues
  obtain ⟨hwatchers, hrest⟩ := Prod.mk.inj hc
  obtain ⟨hmanaged, hfaults⟩ := Prod.mk.inj hrest
  refine ⟨c, hrun, hwatchers, rfl, fun ops log hops => ?_⟩
  obtain ⟨hfollowed, hescape, -⟩ :=
    PageManager.run_followed ops (PageManager.followed_start _ _) hops
  rw [hfollowed.settled 0x10000 hmanaged, hescape]
  exact congrArg some (if_pos ⟨rfl, hfaults.ge⟩)

end MagnusPS5.Graphics.TextureCache
