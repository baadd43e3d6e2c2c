/-
The index of the images over the calls that register and remove them.

An image is in the owner lists of exactly the pages it touches while it is registered, and
in each of them once. The image of a slot that waits to be erased is not registered, and
no image has an epoch that is still to come.
-/
import MagnusPS5.Graphics.TextureCacheWatchers

namespace MagnusPS5.Graphics

open Lib ImagePageTable List Option

/-- The page of the table is one that the image touches. -/
def Image.OnPage (image : Image) (page : ℕ) : Prop :=
  image.data.address / 2 ^ PAGE_BITS ≤ page ∧
    page < (image.data.address + image.data.size - 1) / 2 ^ PAGE_BITS + 1

namespace TextureCache

/-- The image of an id is registered and touches the page. -/
def Listed (c : TextureCache) (id : ImageId) (page : ℕ) : Prop :=
  ∃ image, c.resolveOwner id = some image ∧ image.registered = true ∧ image.OnPage page

/-- What holds of the index between the calls. -/
structure Indexed (c : TextureCache) : Prop where
  owners : ∀ page id, id ∈ c.image_page_table.owners page ↔ c.Listed id page
  nodup : ∀ page, (c.image_page_table.owners page).Nodup
  epochs : ∀ id image, c.resolveOwner id = some image →
    image.query_epoch.toNat ≤ c.image_query_epoch.toNat
  retired : ∀ p ∈ c.deferred, ∀ image, c.resolveOwner p.1 = some image → image.serial = p.2 →
    image.registered = false
  old : ∀ p ∈ c.deferred, p.1.valid = true ∧ p.2 < c.next_serial
  serials : ∀ id image, c.resolveOwner id = some image → image.serial < c.next_serial

/-! ## The table -/

/-- The error does not come from the page manager. -/
def Local (e : TextureAbort) : Prop := ∀ abort, e ≠ .pages abort

theorem Local.sound {e : TextureAbort} (h : Local e) (c : TextureCache) : Sound c e := sound_of_ne h

/-- **The loop of `RegisterImage`.** -/
theorem addOwner_yields (id : ImageId) (n page : ℕ) (t : ImagePageTable) :
    Yields Local (addOwner id n page t) fun t' => ∀ p,
      t'.owners p = if page ≤ p ∧ p < page + n then t.owners p ++ [id] else t.owners p := by
  induction n generalizing page t with
  | zero =>
    refine yields_pure fun p => ?_
    rw [if_neg (by omega)]
  | succ n ih =>
    unfold addOwner
    cases hentry : t.getOrCreate page with
    | none => exact yields_error fun _ => by simp
    | some l =>
      have hpage : page < PAGE_COUNT := by
        by_contra hout
        unfold getOrCreate at hentry
        rw [if_neg hout] at hentry
        cases hentry
      refine (ih (page + 1) (t.set page (l.pushBack id))).mono fun t' ht' p => ?_
      rw [ht', owners_set _ hpage, InlinePageOwnerList.ids_pushBack, ← owners_of_getOrCreate hentry]
      by_cases hp : p = page
      · subst hp
        rw [if_neg (by omega), if_pos rfl, if_pos (by omega)]
      · rw [if_neg hp]
        exact if_congr (by omega) rfl rfl

/-- **The loop of `UnregisterImage`.** -/
theorem removeOwner_yields (id : ImageId) (n page : ℕ) (t : ImagePageTable) :
    Yields Local (removeOwner id n page t) fun t' => ∀ p,
      t'.owners p = if page ≤ p ∧ p < page + n then (t.owners p).erase id else t.owners p := by
  induction n generalizing page t with
  | zero =>
    refine yields_pure fun p => ?_
    rw [if_neg (by omega)]
  | succ n ih =>
    unfold removeOwner
    cases hentry : t.find page with
    | none => exact yields_error fun _ => by simp
    | some l =>
      have hpage : page < PAGE_COUNT := by
        by_contra hout
        unfold find at hentry
        rw [if_neg hout] at hentry
        cases hentry
      dsimp only
      cases herased : (l.erase id).1 with
      | false => exact yields_error fun _ => by simp
      | true =>
        refine (ih (page + 1) (t.set page (l.erase id).2)).mono fun t' ht' p => ?_
        rw [ht', owners_set _ hpage, (l.ids_erase id).2, ← owners_of_find hentry]
        by_cases hp : p = page
        · subst hp
          rw [if_neg (by omega), if_pos rfl, if_pos (by omega)]
        · rw [if_neg hp]
          exact if_congr (by omega) rfl rfl

/-! ## Steps that keep the table -/

/-- The two are the same object in the same place, and as much registered. -/
structure SamePlace (image image' : Image) : Prop where
  serial : image'.serial = image.serial
  data : image'.data = image.data
  registered : image'.registered = image.registered

variable {image : Image} {c c' : TextureCache} {id : ImageId}
  {image' : Image} {f : Image → Image} {i : ℕ} {slot slot' : Slot}

theorem SamePlace.onPage (h : SamePlace image image') (page : ℕ) :
    image'.OnPage page ↔ image.OnPage page := by
  unfold Image.OnPage
  rw [h.data]

theorem samePlace_of_entry (h : entry image' = entry image) : SamePlace image image' :=
  ⟨congrArg (fun e => e.1) h, congrArg (fun e => e.2.1) h, congrArg (fun e => e.2.2.1) h⟩

section

variable (hi : c.Indexed) (htable : c'.image_page_table = c.image_page_table)

include hi htable

/-- **The index stays right** if every registered image stays, and every other image that
there is now is not registered. -/
theorem Indexed.of_images
    (hdeferred : ∀ p ∈ c'.deferred, p ∈ c.deferred) (hserial : c.next_serial ≤ c'.next_serial)
    (hepochs : ∀ id image', c'.resolveOwner id = some image' →
      image'.query_epoch.toNat ≤ c'.image_query_epoch.toNat)
    (hback : ∀ id image', c'.resolveOwner id = some image' →
      (∃ image, c.resolveOwner id = some image ∧ SamePlace image image') ∨
        (image'.registered = false ∧ image'.serial < c'.next_serial))
    (hforth : ∀ id image, c.resolveOwner id = some image → image.registered = true →
      ∃ image', c'.resolveOwner id = some image' ∧ SamePlace image image') : c'.Indexed := by
  constructor
  · intro page id
    rw [htable, hi.owners]
    constructor
    · rintro ⟨image, himage, hregistered, hpage⟩
      obtain ⟨image', himage', hsame⟩ := hforth id image himage hregistered
      exact ⟨image', himage', hsame.registered.trans hregistered, (hsame.onPage page).mpr hpage⟩
    · rintro ⟨image', himage', hregistered, hpage⟩
      rcases hback id image' himage' with ⟨image, himage, hsame⟩ | ⟨hnot, -⟩
      · exact ⟨image, himage, hsame.registered.symm.trans hregistered, (hsame.onPage page).mp hpage⟩
      · rw [hregistered] at hnot
        cases hnot
  · intro page
    rw [htable]
    exact hi.nodup page
  · exact hepochs
  · intro p hp image' himage' hretired
    rcases hback p.1 image' himage' with ⟨image, himage, hsame⟩ | ⟨hnot, -⟩
    · rw [hsame.registered]
      exact hi.retired p (hdeferred p hp) image himage (hsame.serial.symm.trans hretired)
    · exact hnot
  · intro p hp
    obtain ⟨hvalid, hlt⟩ := hi.old p (hdeferred p hp)
    exact ⟨hvalid, hlt.trans_le hserial⟩
  · intro id image' himage'
    rcases hback id image' himage' with ⟨image, himage, hsame⟩ | ⟨-, hlt⟩
    · rw [hsame.serial]
      exact (hi.serials id image himage).trans_le hserial
    · exact hlt

theorem Indexed.of_same (hepoch : c'.image_query_epoch = c.image_query_epoch)
    (hdeferred : c'.deferred = c.deferred) (hserial : c.next_serial ≤ c'.next_serial)
    (hback : ∀ id image', c'.resolveOwner id = some image' →
      (∃ image, c.resolveOwner id = some image ∧ entry image' = entry image) ∨
        (image'.registered = false ∧ image'.query_epoch = 0#32 ∧ image'.serial < c'.next_serial))
    (hforth : ∀ id image, c.resolveOwner id = some image → image.registered = true →
      ∃ image', c'.resolveOwner id = some image' ∧ entry image' = entry image) : c'.Indexed := by
  refine hi.of_images htable (fun p hp => hdeferred ▸ hp) hserial (fun id image' himage' => ?_)
    (fun id image' himage' => ?_) fun id image himage hregistered => ?_
  · rw [hepoch]
    rcases hback id image' himage' with ⟨image, himage, hentry⟩ | ⟨-, hzero, -⟩
    · have hquery : image'.query_epoch = image.query_epoch := congrArg (fun e => e.2.2.2) hentry
      rw [hquery]
      exact hi.epochs id image himage
    · rw [hzero]
      exact Nat.zero_le _
  · rcases hback id image' himage' with ⟨image, himage, hentry⟩ | ⟨hnot, -, hlt⟩
    · exact .inl ⟨image, himage, samePlace_of_entry hentry⟩
    · exact .inr ⟨hnot, hlt⟩
  · obtain ⟨image', himage', hentry⟩ := hforth id image himage hregistered
    exact ⟨image', himage', samePlace_of_entry hentry⟩

end

/-- **The index depends on the outline.** -/
theorem Indexed.of_outline (hi : c.Indexed) (h : SameOutline c c') : c'.Indexed := by
  have hserial : c'.next_serial = c.next_serial := congrArg Outline.next_serial h
  exact hi.of_same (congrArg Outline.image_page_table h) (congrArg Outline.image_query_epoch h)
    (congrArg Outline.deferred h) hserial.ge (fun id image' himage' => Or.inl (h.image himage'))
    fun id image himage _ => h.still himage

/-! ## Steps in a row -/

/-- The index is right, and the books of the watchers are kept. -/
structure Good (c c' : TextureCache) : Prop where
  indexed : c'.Indexed
  kept : Kept c c'
  next_serial : c.next_serial ≤ c'.next_serial

theorem Good.refl (hi : c.Indexed) (hs : c.Shaped) : Good c c :=
  ⟨hi, .refl hs, le_rfl⟩

theorem Good.bind {x : Except TextureAbort TextureCache}
    {f : TextureCache → Except TextureAbort TextureCache} (hx : Yields (Sound c) x (Good c))
    (hf : ∀ c1, Good c c1 → Yields (Sound c1) (f c1) (Good c1)) :
    Yields (Sound c) (x >>= f) (Good c) := by
  refine hx.bind fun c1 h1 => ?_
  refine ((hf c1 h1).mono fun c2 h2 => ?_).mono_error fun e he => h1.kept.sound he
  exact ⟨h2.indexed, h1.kept.trans h2.kept, h1.next_serial.trans h2.next_serial⟩

theorem Watching.good (hi : c.Indexed) (h : Watching c c') : Good c c' :=
  ⟨hi.of_outline h.outline, h.toKept, (congrArg Outline.next_serial h.outline).ge⟩

theorem good_foldlM {α : Type} {f : TextureCache → α → Except TextureAbort TextureCache}
    (hf : ∀ c a, c.Indexed → c.Shaped → Yields (Sound c) (f c a) (Good c)) (l : List α)
    (hi : c.Indexed) (hs : c.Shaped) : Yields (Sound c) (l.foldlM f c) (Good c) := by
  induction l generalizing c with
  | nil => exact .refl hi hs
  | cons a l ih =>
    rw [foldlM_cons]
    exact Good.bind (hf c a hi hs) fun c1 h1 => ih h1.indexed h1.kept.shaped

/-! ## Registration -/

theorem onPage_iff {first last_exclusive page : ℕ}
    (h : tryGetPageRange image.data.address image.data.size =
      some (first, last_exclusive)) :
    image.OnPage page ↔ first ≤ page ∧ page < first + (last_exclusive - first) := by
  obtain ⟨hpos, -, rfl, rfl⟩ := tryGetPageRange_eq_some.mp h
  unfold Image.OnPage
  omega

/-- **Putting an image in the index or taking it out of it**, with the owner lists that go
with it. -/
theorem indexed_flag (hi : c.Indexed)
    (himage : c.resolveOwner id = some image) (flag : Bool) {t : ImagePageTable}
    (hmem : ∀ page i, i ∈ t.owners page ↔
      if i = id then flag = true ∧ image.OnPage page else i ∈ c.image_page_table.owners page)
    (hnodup : ∀ page, (t.owners page).Nodup)
    (hretired : flag = true → ∀ p ∈ c.deferred, p.1 = id → image.serial ≠ p.2) :
    Indexed ({ c with image_page_table := t }.modify id
      fun image => { image with registered := flag }) := by
  have howner : ∀ i, ({ c with image_page_table := t }.modify id
      fun image => { image with registered := flag }).resolveOwner i =
      if i = id then some { image with registered := flag } else c.resolveOwner i := fun i =>
    resolveOwner_modify (c := { c with image_page_table := t }) himage _ i
  constructor
  · intro page i
    refine (hmem page i).trans ?_
    unfold Listed
    rw [howner]
    by_cases hid : i = id
    · rw [if_pos hid, if_pos hid]
      constructor
      · rintro ⟨hflag, hpage⟩
        exact ⟨_, rfl, hflag, hpage⟩
      · rintro ⟨image', himage', hflag, hpage⟩
        cases himage'
        exact ⟨hflag, hpage⟩
    · rw [if_neg hid, if_neg hid]
      exact hi.owners page i
  · exact hnodup
  · intro i image' himage'
    rw [howner] at himage'
    by_cases hid : i = id
    · rw [if_pos hid] at himage'
      cases himage'
      exact hi.epochs id image himage
    · rw [if_neg hid] at himage'
      exact hi.epochs i image' himage'
  · intro p hp image' himage' hserial
    rw [howner] at himage'
    by_cases hid : p.1 = id
    · rw [if_pos hid] at himage'
      cases himage'
      cases flag with
      | false => rfl
      | true => exact absurd hserial (hretired rfl p hp hid)
    · rw [if_neg hid] at himage'
      exact hi.retired p hp image' himage' hserial
  · exact hi.old
  · intro i image' himage'
    rw [howner] at himage'
    by_cases hid : i = id
    · rw [if_pos hid] at himage'
      cases himage'
      exact hi.serials id image himage
    · rw [if_neg hid] at himage'
      exact hi.serials i image' himage'

theorem share_flag (image : Image) (flag : Bool) (x : ℕ) :
    ({ image with registered := flag } : Image).share x = image.share x := rfl

theorem kept_modify (hs : c.Shaped) (h : c.resolveOwner id = some image) (hf : (f image).Shaped)
    (hshare : ∀ x, (f image).share x = image.share x) (t : ImagePageTable) :
    Kept c ({ c with image_page_table := t }.modify id f) where
  shaped := shaped_modify (c := { c with image_page_table := t }) hs h hf
  watchers x := by
    have hw := watchers_modify (c := { c with image_page_table := t }) h f x
    rw [hshare x] at hw
    show (c.page_manager.page x).write_watchers + c.watchers x = _
    have hsame : ({ c with image_page_table := t } : TextureCache).watchers x = c.watchers x := rfl
    omega
  pages := reaches_refl _

/-- **`RegisterImage`** of an image that is not waiting to be erased. -/
theorem registerImage_yields (hi : c.Indexed) (hs : c.Shaped)
    (himage : c.resolveOwner id = some image) (hnew : ∀ p ∈ c.deferred, image.serial ≠ p.2) :
    Yields (Sound c) (c.registerImage id) (Good c) := by
  refine yields_resolved himage ?_
  refine yields_ite (fun _ => yields_error (sound_of_ne fun _ => by simp)) fun hfresh => ?_
  have hregistered : image.registered = false := by
    by_contra h
    exact hfresh (.inl (by simpa using h))
  have hdata : ¬ image.data.empty = true := fun h => hfresh (.inr h)
  cases hrange : tryGetPageRange image.data.address image.data.size with
  | none => exact yields_error (sound_of_ne fun _ => by simp)
  | some range =>
    obtain ⟨first, last_exclusive⟩ := range
    obtain ⟨hpos, hbound, -, -⟩ := tryGetPageRange_eq_some.mp hrange
    have hunlisted : ∀ page, id ∉ c.image_page_table.owners page := by
      intro page hmem
      obtain ⟨image', himage', hlisted, -⟩ := (hi.owners page id).mp hmem
      obtain rfl : image = image' := some.inj (himage.symm.trans himage')
      rw [hregistered] at hlisted
      cases hlisted
    refine ((addOwner_yields _ _ _ _).mono_error fun e he => he.sound c).bind fun t ht => ?_
    refine yields_pure ⟨indexed_flag hi himage true (fun page i => ?_) (fun page => ?_)
      fun _ p hp _ => hnew p hp, kept_modify hs himage ?_ (share_flag image true) t, le_rfl⟩
    · rw [ht page]
      by_cases hid : i = id
      · subst hid
        rw [if_pos rfl, onPage_iff hrange]
        by_cases hin : first ≤ page ∧ page < first + (last_exclusive - first)
        · rw [if_pos hin]
          simp [hin]
        · rw [if_neg hin]
          simp [hin, hunlisted page]
      · rw [if_neg hid]
        split_ifs
        · simp [hid]
        · rfl
    · rw [ht page]
      split_ifs
      · refine .append (hi.nodup page) (nodup_singleton id) ?_
        exact disjoint_singleton.mpr (hunlisted page)
      · exact hi.nodup page
    · have hshaped := hs.owner himage
      have haddress : image.data.address ≠ 0 := by
        intro hzero
        apply hdata
        unfold GuestRange.empty
        simp [hzero]
      exact
        { placed := fun _ => ⟨by show 0 < image.data.address; omega, hpos, hbound⟩
          untracked := hshaped.untracked
          registered := fun _ => rfl
          start := hshaped.start
          stop := hshaped.stop
          some_byte := hshaped.some_byte }

/-- **`UnregisterImage`.** Afterwards the image is not registered. -/
theorem unregisterImage_yields (hi : c.Indexed) (hs : c.Shaped) (id : ImageId) :
    Yields (Sound c) (c.unregisterImage id) fun c' => Good c c' ∧
      ∀ image', c'.resolveOwner id = some image' → image'.registered = false := by
  refine (c.resolveImage_yields id).bind fun image himage => ?_
  refine yields_ite (fun hregistered => ?_) fun hregistered => ?_
  · refine yields_pure ⟨.refl hi hs, fun image' himage' => ?_⟩
    obtain rfl : image = image' := some.inj (himage.symm.trans himage')
    exact hregistered
  refine (untrackImage_yields hs id himage).bind fun c1 h1 => ?_
  obtain ⟨hwatching, image1, himage1, huntracked⟩ := h1
  have hi1 := hi.of_outline hwatching.outline
  obtain ⟨image0, himage0, hentry⟩ := hwatching.outline.image himage1
  obtain rfl : image = image0 := some.inj (himage.symm.trans himage0)
  have hdata : image1.data = image.data := congrArg (fun e => e.2.1) hentry
  rw [← hdata]
  cases hrange : tryGetPageRange image1.data.address image1.data.size with
  | none => exact yields_error (sound_of_ne fun _ => by simp)
  | some range =>
    refine ((removeOwner_yields _ _ _ _).mono_error fun e he => he.sound c).bind fun t ht => ?_
    have hshaped := hwatching.shaped.owner himage1
    have hkept := kept_modify hwatching.shaped himage1 (f := fun image => { image with
      registered := false }) ?_ (share_flag image1 false) t
    · refine yields_pure ⟨⟨indexed_flag hi1 himage1 false (fun page i => ?_) (fun page => ?_)
        fun h => absurd h (by simp), hwatching.toKept.trans hkept,
        (congrArg Outline.next_serial hwatching.outline).ge⟩, fun image' himage' => ?_⟩
      · rw [ht page]
        by_cases hid : i = id
        · subst hid
          rw [if_pos rfl]
          split_ifs with hin
          · simp [(hi1.nodup page).mem_erase_iff]
          · -- a page that the image does not touch
            have hnot : i ∉ c1.image_page_table.owners page := by
              intro hmem
              obtain ⟨image', himage', -, hpage⟩ := (hi1.owners page i).mp hmem
              obtain rfl : image1 = image' := some.inj (himage1.symm.trans himage')
              exact hin ((onPage_iff hrange).mp hpage)
            simp [hnot]
        · rw [if_neg hid]
          split_ifs
          · exact mem_erase_of_ne hid
          · rfl
      · rw [ht page]
        split_ifs
        · exact (hi1.nodup page).erase id
        · exact hi1.nodup page
      · rw [resolveOwner_modify (c := { c1 with image_page_table := t }) himage1,
          if_pos rfl] at himage'
        cases himage'
        rfl
    · exact
        { placed := fun h => absurd h (by simp)
          untracked := hshaped.untracked
          registered := fun h => nomatch (huntracked.symm.trans h)
          start := hshaped.start
          stop := hshaped.stop
          some_byte := hshaped.some_byte }

/-! ## Erasing a slot -/

theorem resolveOwner_set
    (hslot : c.slots[i]? = some slot) (hslots : c'.slots = c.slots.set i slot') (id : ImageId) :
    c'.resolveOwner id = if id.index.toNat = i then
      if id.valid = true ∧ slot'.generation = id.generation then slot'.image else none
      else c.resolveOwner id := by
  unfold resolveOwner
  rw [hslots, getElem?_set]
  by_cases hid : id.index.toNat = i
  · have hlt : i < c.slots.length := by
      by_contra hout
      rw [getElem?_eq_none (by omega)] at hslot
      cases hslot
    rw [if_pos hid.symm, if_pos hid, if_pos hlt]
    by_cases hvalid : id.valid = true
    · simp [hvalid]
    · simp [hvalid]
  · rw [if_neg fun h => hid h.symm, if_neg hid]

theorem kept_set (hs : c.Shaped)
    (hslot : c.slots[i]? = some slot) (hslots : c'.slots = c.slots.set i slot')
    (hmanager : c'.page_manager = c.page_manager)
    (hbefore : ∀ image, slot.image = some image → image.isTracked = false)
    (hafter : ∀ image, slot'.image = some image → image.isTracked = false ∧ image.Shaped) :
    Kept c c' where
  shaped := by
    intro k other image hother himage
    rw [hslots, getElem?_set] at hother
    by_cases hk : i = k
    · rw [if_pos hk] at hother
      split_ifs at hother
      cases hother
      exact (hafter image himage).2
    · rw [if_neg hk] at hother
      exact hs k other image hother himage
  watchers x := by
    have hcount := countP_modify (fun slot : Slot => slot.image.any fun image => image.tracks x)
      (fun _ => slot') hslot
    have hnone : ∀ s : Slot, (∀ image, s.image = some image → image.isTracked = false) →
        (s.image.any fun image => image.tracks x) = false := by
      intro s hs
      cases himage : s.image with
      | none => rfl
      | some image =>
        rw [any_some]
        unfold Image.tracks
        rw [hs image himage]
        rfl
    rw [hnone slot hbefore, hnone slot' fun image himage => (hafter image himage).1] at hcount
    rw [hmanager]
    unfold watchers
    rw [hslots, set_eq_modify]
    exact congrArg _ hcount.symm
  pages := by
    rw [hmanager]
    exact reaches_refl _

section

variable (hi : c.Indexed) (hs : c.Shaped)

include hi hs

/-- **`erase_slot`** of an image that is not registered. -/
theorem eraseSlot_yields {retained : ℕ} (hvalid : id.valid = true)
    (h : ∀ image, c.resolveOwner id = some image → image.serial = retained →
      image.registered = false) : Yields (Sound c) (c.eraseSlot id retained) (Good c) := by
  unfold eraseSlot
  cases hslot : c.slots[id.index.toNat]? with
  | none => exact yields_error (sound_of_ne fun _ => by simp)
  | some slot =>
    refine yields_ite (fun _ => yields_error (sound_of_ne fun _ => by simp)) fun hsame => ?_
    obtain ⟨hgen, hserial⟩ : slot.generation = id.generation ∧
        slot.image.map Image.serial = some retained := by
      refine ⟨?_, ?_⟩
      · by_contra hne
        exact hsame (.inl hne)
      · by_contra hne
        exact hsame (.inr hne)
    obtain ⟨image, himage, hretained⟩ := map_eq_some_iff.mp hserial
    have howner : c.resolveOwner id = some image :=
      resolveOwner_eq_some.mpr ⟨hvalid, slot, hslot, hgen, himage⟩
    have hunregistered := h image howner hretained
    have huntracked : image.isTracked = false := by
      by_contra htracked
      have hregistered := (hs.owner howner).registered (by simpa using htracked)
      rw [hunregistered] at hregistered
      cases hregistered
    dsimp only
    generalize (if slot.generation + 1 = 0#32 then 1#32 else slot.generation + 1) = generation
    generalize hc' : ({ c with
      slots := c.slots.set id.index.toNat { image := none, generation }
      free_slots := c.free_slots ++ [id.index] } : TextureCache) = c'
    have hslots : c'.slots = c.slots.set id.index.toNat { image := none, generation } := by
      rw [← hc']
    have hresolve := resolveOwner_set hslot hslots
    refine yields_pure ⟨hi.of_same (by rw [← hc']) (by rw [← hc']) (by rw [← hc'])
      (by rw [← hc']) (fun i image' himage' => ?_) fun i other hother hregistered => ?_,
      kept_set hs hslot hslots (by rw [← hc']) (fun image' himage' => ?_)
        (fun image' himage' => by cases himage'), by rw [← hc']⟩
    · left
      rw [hresolve] at himage'
      split_ifs at himage' with hindex
      exact ⟨image', himage', rfl⟩
    · -- the one image that goes is not registered
      refine ⟨other, ?_, rfl⟩
      rw [hresolve]
      by_cases hindex : i.index.toNat = id.index.toNat
      · have hid : i = id := id_eq_of_index hother howner (BitVec.eq_of_toNat_eq hindex)
        subst hid
        obtain rfl : image = other := some.inj (howner.symm.trans hother)
        rw [hunregistered] at hregistered
        cases hregistered
      · rw [if_neg hindex]
        exact hother
    · obtain rfl : image = image' := some.inj (himage.symm.trans himage')
      exact huntracked

/-! ## Removal -/

/-- **`DeleteImage`, from the check of the contents on.** -/
theorem retireImage_yields
    (hvalid : id.valid = true) {owner : Image} (howner : owner.serial < c.next_serial)
    (active : Bool) : Yields (Sound c) (c.retireImage id owner active) (Good c) := by
  refine yields_ite (fun _ => yields_error (sound_of_ne fun _ => by simp)) fun _ => ?_
  refine (unregisterImage_yields hi hs id).bind fun c1 h1 => ?_
  obtain ⟨⟨hi1, hkept, hserial⟩, hunregistered⟩ := h1
  refine yields_ite (fun _ => yields_pure ⟨?_, ?_, hserial⟩) fun _ => ?_
  · -- the slot waits, with an image that is not registered any more
    refine ⟨hi1.owners, hi1.nodup, hi1.epochs, fun p hp => ?_, fun p hp => ?_, hi1.serials⟩
    · rcases mem_append.mp hp with hp | hp
      · exact hi1.retired p hp
      · obtain rfl := mem_singleton.mp hp
        exact fun image himage _ => hunregistered image himage
    · rcases mem_append.mp hp with hp | hp
      · exact hi1.old p hp
      · obtain rfl := mem_singleton.mp hp
        exact ⟨hvalid, howner.trans_le hserial⟩
  · exact ⟨hkept.shaped, hkept.watchers, hkept.pages⟩
  · refine ((eraseSlot_yields hi1 hkept.shaped hvalid fun image himage _ =>
      hunregistered image himage).mono fun c2 h2 => ?_).mono_error fun e he => hkept.sound he
    exact ⟨h2.indexed, hkept.trans h2.kept, hserial.trans h2.next_serial⟩

theorem good_modify (himage : c.resolveOwner id = some image)
    (hentry : entry (f image) = entry image) (hf : SameInterval image (f image)) :
    Good c (c.modify id f) :=
  (watching_modify hs himage hentry (hf.shaped (hs.owner himage)) hf.share).good hi

theorem clearGpuModified_good (id : ImageId) : Good c (c.clearGpuModified id) := by
  unfold clearGpuModified
  cases himage : c.resolveOwner id with
  | none => exact .refl hi hs
  | some image => exact good_modify hi hs himage rfl ⟨rfl, rfl, rfl, rfl⟩

theorem deleteAssociation_yields (id : ImageId) (active : Bool) :
    Yields (Sound c) (c.deleteAssociation id active) (Good c) := by
  unfold deleteAssociation
  cases himage : c.resolveOwner id with
  | none => exact yields_pure (.refl hi hs)
  | some owner =>
    refine yields_ite (fun _ => yields_pure (.refl hi hs)) fun _ => ?_
    obtain ⟨hvalid, -⟩ := resolveOwner_eq_some.mp himage
    exact retireImage_yields hi hs hvalid (hi.serials id owner himage) active

end

theorem deleteAssociations_yields {active : Bool} (c : TextureCache) (association : ImageId)
    (hi : c.Indexed) (hs : c.Shaped) : Yields (Sound c)
      ((c.clearGpuModified association).deleteAssociation association active) (Good c) := by
  have hclear := clearGpuModified_good hi hs association
  exact Good.bind (x := .ok (c.clearGpuModified association)) hclear
    fun c1 h1 => deleteAssociation_yields h1.indexed h1.kept.shaped association active

section

variable (hi : c.Indexed) (hs : c.Shaped)

include hi hs

theorem deleteImage_yields (id : ImageId)
    (active : Bool) : Yields (Sound c) (c.deleteImage id active) (Good c) := by
  unfold deleteImage
  cases himage : c.resolveOwner id with
  | none => exact yields_pure (.refl hi hs)
  | some owner =>
    obtain ⟨hvalid, -⟩ := resolveOwner_eq_some.mp himage
    refine yields_ite (fun _ => yields_pure (.refl hi hs)) fun _ => ?_
    -- no call of the loop takes a serial back
    have hretire : ∀ c1, Good c c1 → Yields (Sound c1) (c1.retireImage id owner active)
        (Good c1) := by
      intro c1 h1
      refine retireImage_yields h1.indexed h1.kept.shaped hvalid ?_ active
      exact (hi.serials id owner himage).trans_le h1.next_serial
    refine yields_ite (fun _ => ?_) fun _ => ?_
    · exact Good.bind (good_foldlM deleteAssociations_yields _ hi hs) hretire
    · exact Good.bind (x := pure c) (Good.refl hi hs) hretire

/-! ## Insertion -/

theorem takeSlot_good : Good c c.takeSlot.2 := by
  unfold takeSlot
  cases c.free_slots.getLast? with
  | some index => exact ⟨hi.of_same rfl rfl rfl le_rfl (fun _ image' h => Or.inl ⟨image', h, rfl⟩)
      fun _ image h _ => ⟨image, h, rfl⟩, ⟨hs, fun _ => rfl, reaches_refl _⟩, le_rfl⟩
  | none =>
    generalize hc' : ({ c with slots := c.slots ++ [({} : Slot)] } : TextureCache) = c'
    have hslots : c'.slots = c.slots ++ [({} : Slot)] := by rw [← hc']
    have hnth : ∀ i, c'.slots[i]? = if i = c.slots.length then some ({} : Slot) else c.slots[i]? := by
      intro i
      rw [hslots, getElem?_append]
      split_ifs with h1 h2 h2
      · omega
      · rfl
      · rw [h2, Nat.sub_self]
        rfl
      · rw [getElem?_eq_none (by simp; omega), getElem?_eq_none (by omega)]
    have hresolve : ∀ id, c'.resolveOwner id = c.resolveOwner id := by
      intro id
      unfold resolveOwner
      rw [hnth]
      by_cases hlast : id.index.toNat = c.slots.length
      · rw [if_pos hlast, getElem?_eq_none (by omega)]
        simp
      · rw [if_neg hlast]
    refine ⟨hi.of_same (by rw [← hc']) (by rw [← hc']) (by rw [← hc'])
      (by rw [← hc']) (fun id image' himage' => Or.inl ⟨image', ?_, rfl⟩)
      fun id image himage _ => ⟨image, ?_, rfl⟩, ⟨?_, fun x => ?_, ?_⟩, by rw [← hc']⟩
    · rwa [hresolve] at himage'
    · rwa [hresolve]
    · intro i slot image hslot himage
      rw [hnth] at hslot
      split_ifs at hslot
      · cases hslot
        cases himage
      · exact hs i slot image hslot himage
    · unfold watchers
      rw [hslots, countP_append, ← hc']
      rfl
    · rw [← hc']
      exact reaches_refl _

theorem placeImage_good
    (hfree : (c.slots.getD i {}).image = none) (hserial : image.serial = c.next_serial)
    (hregistered : image.registered = false) (hepoch : image.query_epoch = 0#32)
    (hshaped : image.Shaped) (huntracked : image.isTracked = false) (hc' : c' = { c with
      slots := c.slots.set i { c.slots.getD i {} with image := some image }
      next_serial := c.next_serial + 1 }) :
    Good c c' ∧ ∀ id image', id.index.toNat = i → c'.resolveOwner id = some image' →
      image' = image := by
  have hnext : c'.next_serial = c.next_serial + 1 := by rw [hc']
  cases hslot : c.slots[i]? with
  | none =>
    -- there is no such slot
    have hslots : c'.slots = c.slots := by
      rw [hc']
      exact set_eq_of_length_le (getElem?_eq_none_iff.mp hslot)
    have hresolve := resolveOwner_congr hslots
    refine ⟨⟨hi.of_same (by rw [hc']) (by rw [hc']) (by rw [hc']) (by omega)
      (fun id image' himage' => Or.inl ⟨image', ?_, rfl⟩) fun id other hother _ => ⟨other, ?_, rfl⟩,
      ⟨?_, fun x => ?_, ?_⟩, by omega⟩, fun id image' hid himage' => ?_⟩
    · rwa [hresolve] at himage'
    · rwa [hresolve]
    · intro k slot other hk
      rw [hslots] at hk
      exact hs k slot other hk
    · unfold watchers
      rw [hslots, hc']
    · rw [hc']
      exact reaches_refl _
    · rw [hresolve] at himage'
      obtain ⟨-, slot, hk, -⟩ := resolveOwner_eq_some.mp himage'
      rw [hid, hslot] at hk
      cases hk
  | some slot =>
    have hget : c.slots.getD i {} = slot := by
      rw [getD_eq_getElem?_getD, hslot]
      rfl
    rw [hget] at hfree hc'
    have hslots : c'.slots = c.slots.set i { slot with image := some image } := by rw [hc']
    have hresolve := resolveOwner_set hslot hslots
    refine ⟨⟨hi.of_same (by rw [hc']) (by rw [hc']) (by rw [hc']) (by omega)
      (fun id image' himage' => ?_) fun id other hother _ => ⟨other, ?_, rfl⟩,
      kept_set hs hslot hslots (by rw [hc']) (fun other hother => ?_) fun other hother => ?_,
      by omega⟩, fun id image' hid himage' => ?_⟩
    · rw [hresolve] at himage'
      split_ifs at himage'
      · cases himage'
        exact .inr ⟨hregistered, hepoch, by omega⟩
      · exact .inl ⟨image', himage', rfl⟩
    · rw [hresolve]
      by_cases hid : id.index.toNat = i
      · obtain ⟨-, slot', hslot', -, hother'⟩ := resolveOwner_eq_some.mp hother
        rw [hid, hslot] at hslot'
        cases hslot'
        rw [hfree] at hother'
        cases hother'
      · rw [if_neg hid]
        exact hother
    · rw [hfree] at hother
      cases hother
    · cases hother
      exact ⟨huntracked, hshaped⟩
    · rw [hresolve, if_pos hid] at himage'
      split_ifs at himage'
      exact (some.inj himage').symm

theorem insertImage_yields (data : GuestRange) (uncompressed : Bool) :
    Yields (Sound c) (c.insertImage data uncompressed) fun p => Good c p.2 := by
  unfold insertImage
  have htake := takeSlot_good hi hs
  generalize c.takeSlot = taken at htake ⊢
  obtain ⟨index, c0⟩ := taken
  dsimp only at htake ⊢
  have hi0 := htake.indexed
  refine yields_ite (fun _ => yields_error (sound_of_ne fun _ => by simp)) fun hfree => ?_
  have hfree' : (c0.slots.getD index.toNat {}).image = none := by simpa using hfree
  have hvalidate : Yields (Sound c) (validateImageRange data) fun _ => True := by
    exact yields_ite (fun _ => yields_error (sound_of_ne fun _ => by simp)) fun _ => trivial
  refine hvalidate.bind fun _ _ => ?_
  generalize hnew : ({ serial := c0.next_serial, data, cpu_dirty := !data.empty && uncompressed } :
    Image) = image
  have hunregistered : image.registered = false := by rw [← hnew]
  have huntracked : image.isTracked = false := by rw [← hnew]; rfl
  have hshaped : image.Shaped := by
    constructor
    · intro h
      rw [hunregistered] at h
      cases h
    · intro _
      rw [← hnew]
      exact ⟨rfl, rfl⟩
    all_goals
      intro h
      rw [huntracked] at h
      cases h
  generalize hc1 : ({ c0 with
    slots := c0.slots.set index.toNat { c0.slots.getD index.toNat {} with image := some image }
    next_serial := c0.next_serial + 1 } : TextureCache) = c1
  obtain ⟨hplace, hfound⟩ := placeImage_good hi0 htake.kept.shaped hfree' (by rw [← hnew])
    hunregistered (by rw [← hnew]) hshaped huntracked hc1.symm
  have hgood : Good c c1 :=
    ⟨hplace.indexed, htake.kept.trans hplace.kept, htake.next_serial.trans hplace.next_serial⟩
  refine yields_ite (fun _ => yields_pure hgood) fun _ => ?_
  generalize hid : ({ index, generation := (c0.slots.getD index.toNat {}).generation } : ImageId) = id
  have hindex : id.index.toNat = index.toNat := by rw [← hid]
  have hregister : Yields (Sound c1) (c1.registerImage id) (Good c1) := by
    cases himage : c1.resolveOwner id with
    | none =>
      refine (c1.resolveImage_yields id).bind fun image' himage' => ?_
      rw [himage] at himage'
      cases himage'
    | some image' =>
      -- nothing that waits to be erased has the new serial
      refine registerImage_yields hplace.indexed hplace.kept.shaped himage fun p hp => ?_
      obtain rfl := hfound id image' hindex himage
      have hdeferred : c1.deferred = c0.deferred := by rw [← hc1]
      rw [hdeferred] at hp
      have hlt := (hi0.old p hp).2
      have hserial : image'.serial = c0.next_serial := by rw [← hnew]
      omega
  refine (hregister.mono_error fun e he => hgood.kept.sound he).bind fun c2 h2 => ?_
  exact yields_pure ⟨h2.indexed, hgood.kept.trans h2.kept, hgood.next_serial.trans h2.next_serial⟩

end

end TextureCache

end MagnusPS5.Graphics
