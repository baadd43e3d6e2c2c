/-
The write watchers of the tracked images.

An image that is tracked in an interval of bytes has one write watcher on each page the
interval touches. Everything that changes an interval makes the change of the page manager
that belongs to it: where the head or the tail of an image is untracked, its interval ends
at the page boundary, and so the pages that are given up and the pages that stay are apart.
-/
import MagnusPS5.Graphics.PageManagerIntervals
import MagnusPS5.Graphics.TextureCacheIndex

namespace MagnusPS5.Graphics

open Lib Image PageManager Option List

/-! ## The interval of an image -/

/-- The page of the address is one that the image tracks. -/
def Image.tracks (image : Image) (x : ℕ) : Bool :=
  image.isTracked && decide (image.track_addr / 4096 ≤ x / 4096) &&
    decide (x / 4096 ≤ (image.track_addr_end - 1) / 4096)

/-- The watchers that an image has on the page of the address. -/
def Image.share (image : Image) (x : ℕ) : ℕ := if image.tracks x then 1 else 0

/-- What holds of an image between the calls. The interval is the image, but for its head
or its tail up to a page boundary. -/
structure Image.Shaped (image : Image) : Prop where
  placed : image.registered = true →
    0 < image.data.address ∧ 0 < image.data.size ∧ image.data.end_ ≤ 1099511627776
  untracked : image.isTracked = false → image.track_addr = 0 ∧ image.track_addr_end = 0
  registered : image.isTracked = true → image.registered = true
  start : image.isTracked = true → image.track_addr = image.data.address ∨
    (image.track_addr % 4096 = 0 ∧ image.data.address < image.track_addr ∧
      image.track_addr ≤ image.data.address + 4096)
  stop : image.isTracked = true → image.track_addr_end = image.data.end_ ∨
    (image.track_addr_end % 4096 = 0 ∧ image.track_addr_end < image.data.end_ ∧
      image.data.end_ < image.track_addr_end + 4096)
  some_byte : image.isTracked = true → image.track_addr < image.track_addr_end

variable {image : Image} {x size : ℕ}

theorem Image.isTracked_eq :
    image.isTracked = true ↔ image.track_addr ≠ 0 ∧ image.track_addr_end ≠ 0 := by
  unfold isTracked
  simp

theorem Image.tracks_eq :
    image.tracks x = true ↔ image.isTracked = true ∧ image.track_addr / 4096 ≤ x / 4096 ∧
      x / 4096 ≤ (image.track_addr_end - 1) / 4096 := by
  unfold tracks
  simp [and_assoc]

theorem PageManager.onRange_iff {vaddr : ℕ} : PageManager.OnRange vaddr size x ↔
      vaddr / 4096 ≤ x / 4096 ∧ x / 4096 ≤ (vaddr + size - 1) / 4096 := by
  unfold PageManager.OnRange pageStart TRACKER_PAGE_SIZE
  omega

namespace TextureCache

/-- The watchers that all images have on the page of the address. -/
def watchers (c : TextureCache) (x : ℕ) : ℕ :=
  c.slots.countP fun slot => slot.image.any fun image => image.tracks x

/-- Every image of the cache has the shape. -/
def Shaped (c : TextureCache) : Prop :=
  ∀ (i : ℕ) (slot : Slot) (image : Image), c.slots[i]? = some slot → slot.image = some image →
    image.Shaped

variable {c c' : TextureCache} {id : ImageId}

theorem Shaped.owner (h : c.Shaped) (himage : c.resolveOwner id = some image) : image.Shaped := by
  obtain ⟨-, slot, hslot, -, hslotImage⟩ := resolveOwner_eq_some.mp himage
  exact h _ slot image hslot hslotImage

theorem countP_modify {α : Type} (p : α → Bool) (g : α → α) {l : List α} {i : ℕ} {a : α}
    (h : l[i]? = some a) :
    (l.modify i g).countP p + (if p a then 1 else 0) = l.countP p + if p (g a) then 1 else 0 := by
  induction l generalizing i with
  | nil => cases h
  | cons b l ih =>
    cases i with
    | zero =>
      cases h
      rw [modify_zero_cons, countP_cons, countP_cons]
      omega
    | succ i =>
      have hrest := ih (i := i) h
      rw [modify_succ_cons, countP_cons, countP_cons]
      omega

/-- **A change of one image** changes the watchers by what it tracks. -/
theorem watchers_modify (h : c.resolveOwner id = some image) (f : Image → Image) (x : ℕ) :
    (c.modify id f).watchers x + image.share x = c.watchers x + (f image).share x := by
  obtain ⟨-, slot, hslot, -, himage⟩ := resolveOwner_eq_some.mp h
  have hcount := countP_modify (fun slot : Slot => slot.image.any fun image => image.tracks x)
    (fun slot => { slot with image := slot.image.map f }) hslot
  simp only [himage, map_some, any_some] at hcount
  exact hcount

variable {f : Image → Image} {c1 c2 : TextureCache} {address : ℕ} {image' : Image}

theorem shaped_modify (hs : c.Shaped)
    (h : c.resolveOwner id = some image) (hf : (f image).Shaped) : (c.modify id f).Shaped := by
  obtain ⟨-, slot, hslot, -, himage⟩ := resolveOwner_eq_some.mp h
  intro i slot' image' hslot' himage'
  rw [slots_modify] at hslot'
  by_cases hi : i = id.index.toNat
  · subst hi
    rw [hslot] at hslot'
    simp only [map_some, if_true, some.injEq] at hslot'
    subst hslot'
    simp only [himage, Option.map_some, some.injEq] at himage'
    exact himage' ▸ hf
  · simp only [hi, if_false, Option.map_id'] at hslot'
    exact hs i slot' image' hslot' himage'

theorem modify_modify (c : TextureCache) (id : ImageId) (f g : Image → Image) :
    (c.modify id f).modify id g = c.modify id fun image => g (f image) := by
  unfold modify
  rw [modify_modify_eq]
  congr 2
  funext slot
  simp [Option.map_map, Function.comp_def]

/-! ## Changes that keep the books -/

/-- Some calls to the page manager lead from the one to the other. -/
def Reaches (m m' : PageManager) : Prop :=
  ∀ log, ∃ ops log', PageManager.run ops (m, log) = .ok (m', log')

theorem reaches_refl (m : PageManager) : Reaches m m := fun log => ⟨[], log, rfl⟩

theorem run_append {ops ops' : List PageManager.Op} {s s' : PageManager × List ProtectCall}
    (h : PageManager.run ops s = .ok s') :
    PageManager.run (ops ++ ops') s = PageManager.run ops' s' := by
  induction ops generalizing s with
  | nil =>
    cases h
    rfl
  | cons op ops ih =>
    obtain ⟨m, log⟩ := s
    obtain ⟨m1, hstep, hrest⟩ := bind_eq_ok.mp h
    show (m.step op >>= fun m' => PageManager.run (ops ++ ops') (m', log ++ m.calls op)) = _
    rw [hstep]
    exact ih hrest

theorem Reaches.trans {m m1 m2 : PageManager} (h : Reaches m m1) (h' : Reaches m1 m2) :
    Reaches m m2 := by
  intro log
  obtain ⟨ops, log1, hrun⟩ := h log
  obtain ⟨ops', log2, hrun'⟩ := h' log1
  exact ⟨ops ++ ops', log2, (run_append hrun).trans hrun'⟩

theorem reaches_step {m m' : PageManager} {op : PageManager.Op} (h : m.step op = .ok m') :
    Reaches m m' := by
  intro log
  refine ⟨[op], log ++ m.calls op, ?_⟩
  show (m.step op >>= fun m' => PageManager.run [] (m', log ++ m.calls op)) = _
  rw [h]
  rfl

/-- The images keep their shape, and the page manager has the watchers they have more or
less. -/
structure Kept (c c' : TextureCache) : Prop where
  shaped : c'.Shaped
  watchers : ∀ x, (c'.page_manager.page x).write_watchers + c.watchers x =
    (c.page_manager.page x).write_watchers + c'.watchers x
  pages : Reaches c.page_manager c'.page_manager

/-- The call only changes what the images track, and the page manager with it. -/
structure Watching (c c' : TextureCache) : Prop extends Kept c c' where
  outline : SameOutline c c'

/-- Every watcher that an image should have is there. -/
def Covered (c : TextureCache) : Prop :=
  ∀ x, c.watchers x ≤ (c.page_manager.page x).write_watchers

/-- An error that does not say that a watcher is missing, unless one was. -/
def Sound (c : TextureCache) (e : TextureAbort) : Prop :=
  c.Covered → ∀ abort, e = .pages abort → PageManager.Balanced abort

theorem Kept.refl (hs : c.Shaped) : Kept c c where
  shaped := hs
  watchers _ := rfl
  pages := reaches_refl _

theorem Kept.trans (h : Kept c c1) (h' : Kept c1 c2) : Kept c c2 where
  shaped := h'.shaped
  watchers x := by
    have h1 := h.watchers x
    have h2 := h'.watchers x
    omega
  pages := h.pages.trans h'.pages

theorem Kept.covered (h : Kept c c') (hc : c.Covered) : c'.Covered := by
  intro x
  have h1 := h.watchers x
  have h2 := hc x
  omega

theorem Kept.sound (h : Kept c c') {e : TextureAbort}
    (he : Sound c' e) : Sound c e := fun hc => he (h.covered hc)

theorem Watching.refl (hs : c.Shaped) : Watching c c where
  toKept := .refl hs
  outline := rfl

theorem Watching.trans (h : Watching c c1) (h' : Watching c1 c2) : Watching c c2 where
  toKept := h.toKept.trans h'.toKept
  outline := h.outline.trans h'.outline

theorem Watching.bind {x : Except TextureAbort TextureCache}
    {f : TextureCache → Except TextureAbort TextureCache} (hx : Yields (Sound c) x (Watching c))
    (hf : ∀ c1, Watching c c1 → Yields (Sound c1) (f c1) (Watching c1)) :
    Yields (Sound c) (x >>= f) (Watching c) := by
  refine hx.bind fun c1 h1 => ?_
  exact ((hf c1 h1).mono fun c2 h2 => h1.trans h2).mono_error fun e he => h1.toKept.sound he

section

variable (hs : c.Shaped) (h : c.resolveOwner id = some image)
  (hentry : entry (f image) = entry image) (hf : (f image).Shaped)

include hs h hentry hf

theorem watching_modify
    (hshare : ∀ x, (f image).share x = image.share x) : Watching c (c.modify id f) where
  outline := outline_modify h hentry
  shaped := shaped_modify hs h hf
  watchers x := by
    have hw := watchers_modify h f x
    rw [hshare x] at hw
    show (c.page_manager.page x).write_watchers + _ = _
    omega
  pages := reaches_refl _

/-- **Changing an image with its pages.** The pages of the range are those that the image
begins to track or no longer tracks. -/
theorem watching_update (track : Bool) (address size : ℕ)
    (hshare : ∀ x, (if track then (f image).share x else image.share x) =
      (if track then image.share x else (f image).share x) +
        if PageManager.OnRange address size x then 1 else 0) :
    Yields (Sound c) ((c.modify id f).updatePages track address size) (Watching c) := by
  unfold updatePages
  have hmanager : (c.modify id f).page_manager = c.page_manager := rfl
  rw [hmanager]
  cases hupdate : c.page_manager.updatePageWatchers track false address size with
  | error abort =>
    intro hcovered abort' habort
    cases habort
    cases track with
    | true => exact (updatePageWatchers_grows _ _ _).of_error hupdate
    | false =>
      refine (updatePageWatchers_shrinks _ fun x hx => ?_).of_error hupdate
      -- the image is one of those that watch the page
      have hx' := hshare x
      rw [if_neg (by simp), if_neg (by simp), if_pos hx] at hx'
      have hw := watchers_modify h f x
      have hc := hcovered x
      omega
  | ok page_manager =>
    have hpages := (updatePageWatchers_updated hupdate).pages
    have hstep : c.page_manager.step (.update track false address size) = .ok page_manager :=
      hupdate
    refine ⟨⟨shaped_modify hs h hf, fun x => ?_, reaches_step hstep⟩, outline_modify h hentry⟩
    have hw := watchers_modify h f x
    have hx' := hshare x
    show (page_manager.page x).write_watchers + c.watchers x =
      (c.page_manager.page x).write_watchers + (c.modify id f).watchers x
    rw [hpages x]
    by_cases hon : PageManager.OnRange address size x
    · rw [if_pos hon] at hx'
      rw [if_pos ⟨hon.1, hon.2, rfl⟩]
      cases track with
      | true =>
        rw [if_pos rfl, if_pos rfl] at hx'
        show (c.page_manager.page x).write_watchers + 1 + c.watchers x = _
        omega
      | false =>
        rw [if_neg (by simp), if_neg (by simp)] at hx'
        have hhad := updatePageWatchers_had hupdate hon
        show (c.page_manager.page x).write_watchers - 1 + c.watchers x = _
        omega
    · rw [if_neg hon] at hx'
      rw [if_neg fun hc => hon ⟨hc.1, hc.2.1⟩]
      cases track with
      | true =>
        rw [if_pos rfl, if_pos rfl] at hx'
        omega
      | false =>
        rw [if_neg (by simp), if_neg (by simp)] at hx'
        omega

end

/-! ## Untracking -/

theorem resolveOwner_congr (h : c'.slots = c.slots) (id : ImageId) :
    c'.resolveOwner id = c.resolveOwner id := by
  unfold resolveOwner
  rw [h]

theorem updatePages_slots {track : Bool}
    (h : c.updatePages track address size = .ok c') : c'.slots = c.slots := by
  unfold updatePages at h
  split at h
  · cases h
    rfl
  · cases h

theorem sub64_eq {a b : ℕ} (h : b ≤ a) (ha : a < 2 ^ 64) : sub64 a b = a - b := by
  unfold sub64
  omega

theorem sound_of_ne {e : TextureAbort} (h : ∀ abort, e ≠ .pages abort) :
    Sound c e := fun _ abort habort => absurd habort (h abort)

theorem resolveImage_yields (c : TextureCache) (id : ImageId) :
    Yields (Sound c) (c.resolveImage id) fun image => c.resolveOwner id = some image := by
  cases himage : c.resolveImage id with
  | ok image => exact resolveImage_eq_ok.mp himage
  | error e =>
    refine sound_of_ne fun abort habort => ?_
    subst habort
    unfold resolveImage at himage
    split at himage
    · cases himage
    · split_ifs at himage
      · cases himage
      · cases himage
      · split at himage <;> cases himage

/-- An image with nothing tracked. -/
abbrev cleared (image : Image) : Image := { image with track_addr := 0, track_addr_end := 0 }

theorem share_untracked (h : image.isTracked = false) (x : ℕ) : image.share x = 0 := by
  unfold share tracks
  rw [h]
  rfl

theorem share_tracked (h : image.isTracked = true) (x : ℕ) :
    image.share x = if image.track_addr / 4096 ≤ x / 4096 ∧
      x / 4096 ≤ (image.track_addr_end - 1) / 4096 then 1 else 0 := by
  unfold share
  by_cases hx : image.track_addr / 4096 ≤ x / 4096 ∧ x / 4096 ≤ (image.track_addr_end - 1) / 4096
  · rw [if_pos hx, if_pos (tracks_eq.mpr ⟨h, hx⟩)]
  · rw [if_neg hx, if_neg fun htracks => hx (tracks_eq.mp htracks).2]

theorem onRange_count {first last : ℕ} (hfirst : address = first) (hlast : address + size = last) :
    (if PageManager.OnRange address size x then 1 else 0) =
      if first / 4096 ≤ x / 4096 ∧ x / 4096 ≤ (last - 1) / 4096 then 1 else 0 := by
  subst hfirst hlast
  by_cases hx : PageManager.OnRange address size x
  · rw [if_pos hx, if_pos (onRange_iff.mp hx)]
  · rw [if_neg hx, if_neg fun hc => hx (onRange_iff.mpr hc)]

theorem isTracked_cleared (image : Image) : (cleared image).isTracked = false := rfl

theorem shaped_cleared (h : image.registered = true →
      0 < image.data.address ∧ 0 < image.data.size ∧ image.data.end_ ≤ 1099511627776) :
    (cleared image).Shaped where
  placed := h
  untracked _ := ⟨rfl, rfl⟩
  registered htracked := absurd htracked (by simp [isTracked_cleared])
  start htracked := absurd htracked (by simp [isTracked_cleared])
  stop htracked := absurd htracked (by simp [isTracked_cleared])
  some_byte htracked := absurd htracked (by simp [isTracked_cleared])

/-- An interval that is the image, but for its head or its tail up to a page boundary. -/
theorem shaped_interval (hs : image.Shaped) (hregistered : image.registered = true)
    {first last : ℕ} (hlt : first < last)
    (hstart : first = image.data.address ∨ (first % 4096 = 0 ∧ image.data.address < first ∧
      first ≤ image.data.address + 4096))
    (hstop : last = image.data.end_ ∨ (last % 4096 = 0 ∧ last < image.data.end_ ∧
      image.data.end_ < last + 4096)) :
    isTracked { image with track_addr := first, track_addr_end := last } = true ∧
      Image.Shaped { image with track_addr := first, track_addr_end := last } := by
  have hplaced := hs.placed hregistered
  have hstill : isTracked { image with track_addr := first, track_addr_end := last } = true :=
    isTracked_eq.mpr ⟨show first ≠ 0 by omega, show last ≠ 0 by omega⟩
  exact ⟨hstill,
    { placed := hs.placed
      untracked := fun h => absurd h (by simp [hstill])
      registered := fun _ => hregistered
      start := fun _ => hstart
      stop := fun _ => hstop
      some_byte := fun _ => hlt }⟩

theorem track_addr_end_le (hs : image.Shaped) (h : image.isTracked = true) :
    image.track_addr_end ≤ 1099511627776 := by
  have hplaced := hs.placed (hs.registered h)
  rcases hs.stop h with hstop | hstop <;> omega

theorem yields_resolved {β : Type} {x : Image → Except TextureAbort β} {post : β → Prop}
    (himage : c.resolveOwner id = some image) (h : Yields (Sound c) (x image) post) :
    Yields (Sound c) (c.resolveImage id >>= x) post := by
  rw [resolveImage_eq_ok.mpr himage]
  exact h

theorem tracked_of_not {other : Prop} (h : ¬ (image.isTracked = false ∨ other)) :
    image.isTracked = true := by
  by_contra hnot
  exact h (.inl (by simpa using hnot))

/-- **`UntrackImage`.** Afterwards the image is not tracked. -/
theorem untrackImage_yields (hs : c.Shaped) (id : ImageId)
    (himage : c.resolveOwner id = some image) :
    Yields (Sound c) (c.untrackImage id) fun c' => Watching c c' ∧
      ∃ image', c'.resolveOwner id = some image' ∧ image'.isTracked = false := by
  refine yields_resolved himage ?_
  have hshaped := hs.owner himage
  refine yields_ite (fun huntracked => ⟨.refl hs, image, himage, huntracked⟩) fun htracked => ?_
  have htracked' : image.isTracked = true := by simpa using htracked
  have hlt := hshaped.some_byte htracked'
  have hend := track_addr_end_le hshaped htracked'
  have hsize : sub64 image.track_addr_end image.track_addr =
      image.track_addr_end - image.track_addr := sub64_eq hlt.le (by omega)
  rw [hsize, if_pos (by omega)]
  have hwatching := watching_update hs himage (f := cleared) rfl (shaped_cleared hshaped.placed)
    false image.track_addr (image.track_addr_end - image.track_addr) fun x => by
      rw [if_neg (by simp), if_neg (by simp), share_untracked (isTracked_cleared image),
        share_tracked htracked', onRange_count rfl (show _ = image.track_addr_end by omega),
        Nat.zero_add]
  have hcleared : (c.modify id cleared).resolveOwner id = some (cleared image) := by
    rw [resolveOwner_modify himage, if_pos rfl]
  refine hwatching.and fun hc' => ?_
  exact ⟨cleared image, (resolveOwner_congr (updatePages_slots hc') id).trans hcleared, rfl⟩

theorem untrackImage_watching (hs : c.Shaped) (id : ImageId) :
    Yields (Sound c) (c.untrackImage id) (Watching c) := by
  cases himage : c.resolveOwner id with
  | some image => exact (untrackImage_yields hs id himage).mono fun _ h => h.1
  | none =>
    refine (c.resolveImage_yields id).bind fun image' himage' => ?_
    rw [himage] at himage'
    cases himage'

/-- The interval and the place of an image are what they were. -/
structure SameInterval (image image' : Image) : Prop where
  data : image'.data = image.data
  registered : image'.registered = image.registered
  track_addr : image'.track_addr = image.track_addr
  track_addr_end : image'.track_addr_end = image.track_addr_end

section

variable (h : SameInterval image image')

include h

theorem SameInterval.isTracked : image'.isTracked = image.isTracked := by
  unfold Image.isTracked
  rw [h.track_addr, h.track_addr_end]

theorem SameInterval.shaped (hs : image.Shaped) : image'.Shaped := by
  obtain ⟨hdata, hregistered, haddr, hend⟩ := h
  have htracked : image'.isTracked = image.isTracked := SameInterval.isTracked ⟨hdata, hregistered,
    haddr, hend⟩
  obtain ⟨h1, h2, h3, h4, h5, h6⟩ := hs
  constructor <;> simp only [htracked, hdata, hregistered, haddr, hend] <;> assumption

theorem SameInterval.share (x : ℕ) : image'.share x = image.share x := by
  unfold Image.share Image.tracks
  rw [h.isTracked, h.track_addr, h.track_addr_end]

end

theorem sameInterval_maybeDirty (image : Image) : SameInterval image image.maybeDirty := by
  unfold maybeDirty
  dsimp only
  split_ifs <;> exact ⟨rfl, rfl, rfl, rfl⟩

theorem entry_maybeDirty (image : Image) : entry image.maybeDirty = entry image := by
  unfold maybeDirty
  dsimp only
  split_ifs <;> rfl

/-- **`MarkAsMaybeDirty`.** -/
theorem markAsMaybeDirty_watching (hs : c.Shaped) (h : c.resolveOwner id = some image) :
    Yields (Sound c) (c.markAsMaybeDirty id) (Watching c) := by
  have hinterval := sameInterval_maybeDirty image
  have hfirst : Watching c (c.modify id maybeDirty) :=
    watching_modify hs h (entry_maybeDirty image) (hinterval.shaped (hs.owner h)) hinterval.share
  exact Watching.bind (x := .ok (c.modify id maybeDirty)) hfirst
    fun c1 h1 => untrackImage_watching h1.shaped id

theorem markAsMaybeDirty_empty
    (h : c.resolveOwner id = some image) (htracked : image.isTracked = true)
    (hempty : image.track_addr = image.track_addr_end) (hend : image.track_addr_end < 2 ^ 64) :
    c.markAsMaybeDirty id = .ok (c.modify id fun image => cleared image.maybeDirty) := by
  have hinterval := sameInterval_maybeDirty image
  have hdirty : (c.modify id maybeDirty).resolveOwner id = some image.maybeDirty := by
    rw [resolveOwner_modify h, if_pos rfl]
  have hsize : sub64 image.track_addr_end image.track_addr = 0 := by
    rw [hempty, sub64_eq le_rfl hend, Nat.sub_self]
  unfold markAsMaybeDirty untrackImage
  rw [resolveImage_eq_ok.mpr hdirty]
  show (if image.maybeDirty.isTracked = false then _ else _) = _
  rw [hinterval.isTracked, if_neg (by simp [htracked]), hinterval.track_addr,
    hinterval.track_addr_end]
  rw [hsize, if_neg (by simp), modify_modify]
  rfl

theorem entry_interval (image : Image) (track_addr track_addr_end : ℕ) :
    entry { image with track_addr, track_addr_end } = entry image := rfl

theorem pageStart_bounds (vaddr : ℕ) : pageStart vaddr ≤ vaddr ∧ vaddr < pageStart vaddr + 4096 := by
  unfold pageStart TRACKER_PAGE_SIZE
  omega

section

variable (hs : c.Shaped) (himage : c.resolveOwner id = some image)

include hs himage

/-- Giving up one end of an interval. Where nothing is left, the image is not tracked any
more. -/
theorem shrink_watching
    (hentry : entry (f image) = entry image) (htracked : (f image).isTracked = true)
    (hbound : (f image).track_addr_end < 2 ^ 64) {empty : Prop} [Decidable empty]
    (hempty : empty → (f image).track_addr = (f image).track_addr_end)
    (hshaped : ¬ empty → (f image).Shaped) (hsize : size ≠ 0)
    (hshare : ∀ x, image.share x = (if empty then 0 else (f image).share x) +
      if PageManager.OnRange address size x then 1 else 0) :
    Yields (Sound c) (do
      let c ← if empty then (c.modify id f).markAsMaybeDirty id else pure (c.modify id f)
      if size ≠ 0 then c.updatePages false address size else return c) (Watching c) := by
  by_cases hnone : empty
  · have hmodified : (c.modify id f).resolveOwner id = some (f image) := by
      rw [resolveOwner_modify himage, if_pos rfl]
    rw [if_pos hnone, markAsMaybeDirty_empty hmodified htracked (hempty hnone) hbound,
      modify_modify]
    show Yields _ (if size ≠ 0 then _ else _) _
    rw [if_pos hsize]
    have hdirty := sameInterval_maybeDirty (f image)
    have hdata : (f image).data = image.data := congrArg (fun e => e.2.1) hentry
    have hregistered : (f image).registered = image.registered :=
      congrArg (fun e => e.2.2.1) hentry
    refine watching_update hs himage (f := fun image => cleared (f image).maybeDirty)
      ((entry_maybeDirty (f image)).trans hentry) ?_ false _ _ fun x => ?_
    · apply shaped_cleared
      rw [hdirty.data, hdirty.registered, hdata, hregistered]
      exact (hs.owner himage).placed
    · have hx := hshare x
      rw [if_pos hnone] at hx
      rw [if_neg (by simp), if_neg (by simp), share_untracked (isTracked_cleared _)]
      exact hx
  · rw [if_neg hnone]
    show Yields _ (if size ≠ 0 then _ else _) _
    rw [if_pos hsize]
    refine watching_update hs himage hentry (hshaped hnone) false _ _ fun x => ?_
    have hx := hshare x
    rw [if_neg hnone] at hx
    rw [if_neg (by simp), if_neg (by simp)]
    exact hx

/-- **`UntrackImageHead`** of an image that goes on behind the page it begins in. -/
theorem untrackImageHead_watching (hmore : image.registered = true →
      pageStart (image.data.address + TRACKER_PAGE_SIZE) < image.data.end_) :
    Yields (Sound c) (c.untrackImageHead id) (Watching c) := by
  refine yields_resolved himage ?_
  refine yields_ite (fun _ => .refl hs) fun hgo => ?_
  have hshaped := hs.owner himage
  have htracked := tracked_of_not hgo
  have hmore' := hmore (hshaped.registered htracked)
  -- the head is tracked
  have hstart : image.track_addr = image.data.address := by
    rcases hshaped.start htracked with hstart | hstart
    · exact hstart
    · exact absurd (.inr hstart.2.1) hgo
  have hstop := hshaped.stop htracked
  have hend := track_addr_end_le hshaped htracked
  have hpage : pageStart (image.data.address + TRACKER_PAGE_SIZE) % 4096 = 0 :=
    pageStart_aligned _
  have hnext : image.data.address < pageStart (image.data.address + TRACKER_PAGE_SIZE) ∧
      pageStart (image.data.address + TRACKER_PAGE_SIZE) ≤ image.data.address + 4096 := by
    have hpage : TRACKER_PAGE_SIZE = 4096 := rfl
    rw [hpage]
    have hbounds := pageStart_bounds (image.data.address + 4096)
    omega
  dsimp only
  generalize pageStart (image.data.address + TRACKER_PAGE_SIZE) = address at *
  have hsize : sub64 address image.data.address = address - image.data.address :=
    sub64_eq hnext.1.le (by omega)
  rw [hsize]
  have hle : address ≤ image.track_addr_end := by omega
  have hstill : isTracked { image with track_addr := address } = true :=
    isTracked_eq.mpr ⟨show address ≠ 0 by omega, show image.track_addr_end ≠ 0 by omega⟩
  refine shrink_watching hs himage (f := fun image : Image => { image with track_addr := address })
    (entry_interval _ _ _) hstill (show image.track_addr_end < 2 ^ 64 by omega) (fun hempty => hempty)
    (fun hempty => ?_) (show address - image.data.address ≠ 0 by omega) fun x => ?_
  · exact (shaped_interval hshaped (hshaped.registered htracked) (lt_of_le_of_ne hle hempty)
      (.inr ⟨hpage, hnext⟩) hstop).2
  · rw [share_tracked htracked, share_tracked hstill, onRange_count hstart.symm
      (show _ = address by omega)]
    show _ = (if address = image.track_addr_end then 0 else
      if address / 4096 ≤ x / 4096 ∧ x / 4096 ≤ (image.track_addr_end - 1) / 4096 then 1 else 0) + _
    split_ifs <;> omega

/-- **`UntrackImageTail`** of an image that ends inside a page and begins before it. -/
theorem untrackImageTail_watching (hmore : image.data.address < pageStart image.data.end_)
    (hinside : pageStart image.data.end_ < image.data.end_) :
    Yields (Sound c) (c.untrackImageTail id) (Watching c) := by
  refine yields_resolved himage ?_
  refine yields_ite (fun _ => .refl hs) fun hgo => ?_
  have hshaped := hs.owner himage
  have htracked := tracked_of_not hgo
  have hplaced := hshaped.placed (hshaped.registered htracked)
  -- the tail is tracked
  have hstop : image.track_addr_end = image.data.end_ := by
    rcases hshaped.stop htracked with hstop | hstop
    · exact hstop
    · exact absurd (.inr hstop.2.1) hgo
  have hstart := hshaped.start htracked
  have hpage : pageStart image.data.end_ % 4096 = 0 := pageStart_aligned _
  have hnear : image.data.end_ < pageStart image.data.end_ + 4096 :=
    (pageStart_bounds image.data.end_).2
  dsimp only
  generalize pageStart image.data.end_ = address at *
  have hsize : sub64 image.data.end_ address = image.data.end_ - address :=
    sub64_eq hinside.le (by omega)
  rw [hsize]
  have hle : image.track_addr ≤ address := by omega
  have hstill : isTracked { image with track_addr_end := address } = true :=
    isTracked_eq.mpr ⟨show image.track_addr ≠ 0 by omega, show address ≠ 0 by omega⟩
  refine shrink_watching hs himage
    (f := fun image : Image => { image with track_addr_end := address })
    (entry_interval _ _ _) hstill
    (show address < 2 ^ 64 by omega) (fun hempty => hempty) (fun hempty => ?_)
    (show image.data.end_ - address ≠ 0 by omega) fun x => ?_
  · exact (shaped_interval hshaped (hshaped.registered htracked) (lt_of_le_of_ne hle hempty)
      hstart (.inr ⟨hpage, hinside, hnear⟩)).2
  · rw [share_tracked htracked, share_tracked hstill, onRange_count rfl
      (show _ = image.track_addr_end by omega)]
    show _ = (if image.track_addr = address then 0 else
      if image.track_addr / 4096 ≤ x / 4096 ∧ x / 4096 ≤ (address - 1) / 4096 then 1 else 0) + _
    split_ifs <;> omega

/-! ## Tracking -/

/-- **`TrackImageHead`** of a tracked image. -/
theorem trackImageHead_watching : Yields (Sound c) (c.trackImageHead id) (Watching c) := by
  refine yields_resolved himage ?_
  refine yields_ite (fun _ => .refl hs) fun hregistered => ?_
  refine yields_ite (fun _ => .refl hs) fun hne => ?_
  refine yields_ite (fun _ => yields_error (sound_of_ne fun _ => by simp)) fun hgo => ?_
  have hshaped := hs.owner himage
  have htracked := tracked_of_not hgo
  have hend := track_addr_end_le hshaped htracked
  have hlt := hshaped.some_byte htracked
  -- the head is not tracked, so the interval begins at a page
  obtain ⟨hpage, hbegin, -⟩ := (hshaped.start htracked).resolve_left fun h => hne h.symm
  have hsize : sub64 image.track_addr image.data.address = image.track_addr - image.data.address :=
    sub64_eq hbegin.le (by omega)
  rw [hsize]
  obtain ⟨hstill, hnext⟩ := shaped_interval hshaped (hshaped.registered htracked)
    (hbegin.trans hlt) (.inl rfl) (hshaped.stop htracked)
  refine watching_update hs himage
    (f := fun image' : Image => { image' with track_addr := image.data.address })
    (entry_interval _ _ _) hnext true _ _ fun x => ?_
  rw [if_pos rfl, if_pos rfl, share_tracked htracked, share_tracked hstill,
    onRange_count rfl (show _ = image.track_addr by omega)]
  dsimp only
  split_ifs <;> omega

/-- **`TrackImageTail`** of a tracked image. -/
theorem trackImageTail_watching : Yields (Sound c) (c.trackImageTail id) (Watching c) := by
  refine yields_resolved himage ?_
  refine yields_ite (fun _ => .refl hs) fun hregistered => ?_
  refine yields_ite (fun _ => .refl hs) fun hne => ?_
  refine yields_ite (fun _ => yields_error (sound_of_ne fun _ => by simp)) fun hgo => ?_
  have hshaped := hs.owner himage
  have htracked := tracked_of_not hgo
  have hplaced := hshaped.placed (hshaped.registered htracked)
  have hlt := hshaped.some_byte htracked
  -- the tail is not tracked, so the interval ends with a page
  obtain ⟨hpage, hend, -⟩ := (hshaped.stop htracked).resolve_left fun h => hne h.symm
  have hsize : sub64 image.data.end_ image.track_addr_end =
      image.data.end_ - image.track_addr_end := sub64_eq hend.le (by omega)
  dsimp only
  rw [hsize]
  obtain ⟨hstill, hnext⟩ := shaped_interval hshaped (hshaped.registered htracked)
    (hlt.trans hend) (hshaped.start htracked) (.inl rfl)
  refine watching_update hs himage
    (f := fun image' : Image => { image' with track_addr_end := image.data.end_ })
    (entry_interval _ _ _) hnext true _ _ fun x => ?_
  rw [if_pos rfl, if_pos rfl, share_tracked htracked, share_tracked hstill,
    onRange_count rfl (show _ = image.data.end_ by omega)]
  dsimp only
  split_ifs <;> omega

end

theorem SameOutline.still (h : SameOutline c c') (himage : c.resolveOwner id = some image) :
    ∃ image', c'.resolveOwner id = some image' ∧ entry image' = entry image := by
  have howner := h.owner id
  rw [himage] at howner
  cases hc : c'.resolveOwner id with
  | none =>
    rw [hc] at howner
    cases howner
  | some image' =>
    rw [hc] at howner
    exact ⟨image', rfl, some.inj howner⟩

theorem trackImage_watching (hs : c.Shaped) (id : ImageId) :
    Yields (Sound c) (c.trackImage id) (Watching c) := by
  refine (c.resolveImage_yields id).bind fun image himage => ?_
  have hshaped := hs.owner himage
  refine yields_ite (fun _ => .refl hs) fun hregistered => ?_
  have hregistered' : image.registered = true := by simpa using hregistered
  have hplaced := hshaped.placed hregistered'
  refine yields_ite (fun _ => markAsMaybeDirty_watching hs himage) fun _ => ?_
  refine yields_ite (fun _ => .refl hs) fun _ => ?_
  refine yields_ite (fun huntracked => ?_) fun htracked => ?_
  · -- the whole image becomes tracked
    have hend : image.data.end_ = image.data.address + image.data.size := rfl
    obtain ⟨hstill, hnext⟩ := shaped_interval hshaped hregistered' (by omega) (.inl rfl) (.inl rfl)
    refine watching_update hs himage (f := fun image' : Image => { image' with
      track_addr := image.data.address, track_addr_end := image.data.end_ })
      (entry_interval _ _ _) hnext true _ _ fun x => ?_
    rw [if_pos rfl, if_pos rfl, share_untracked huntracked, share_tracked hstill,
      onRange_count rfl hend.symm, Nat.zero_add]
  · -- the missing head, and then the missing tail
    have htail : ∀ c1, Watching c c1 → Yields (Sound c1) (do
        let image1 ← c1.resolveImage id
        if image1.track_addr_end < image.data.end_ then c1.trackImageTail id else return c1)
        (Watching c1) := by
      intro c1 h1
      refine (c1.resolveImage_yields id).bind fun image1 himage1 => ?_
      exact yields_ite (fun _ => trackImageTail_watching h1.shaped himage1) fun _ => .refl h1.shaped
    refine yields_ite (fun _ => ?_) fun _ => ?_
    · exact Watching.bind (trackImageHead_watching hs himage) htail
    · exact Watching.bind (x := pure c) (Watching.refl hs) htail

end TextureCache

end MagnusPS5.Graphics
