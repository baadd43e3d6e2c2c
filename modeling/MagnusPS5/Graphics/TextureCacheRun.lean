/-
Runs of the texture cache: what a lookup finds, and who watches a page.
-/
import MagnusPS5.Graphics.TextureCacheRegions

namespace MagnusPS5.Graphics.TextureCache

open Lib Watching List GuestRange ImagePageTable

/-! ## Invalidation by the CPU -/

theorem invalidateCpuWrite_yields (image : Image) (vaddr size : ℕ) :
    Yields Local (image.invalidateCpuWrite vaddr size) fun image' =>
      SameInterval image image' ∧ entry image' = entry image := by
  have hlocal : ∀ left left_size right right_size : ℕ,
      Yields Local (imageRangeOverlaps left left_size right right_size) (fun _ => True) ∧
      Yields Local (imagePageRangesOverlap left left_size right right_size) fun _ => True := by
    intro left left_size right right_size
    exact ⟨yields_ite (fun _ => yields_error fun _ => by simp) fun _ => trivial,
      yields_ite (fun _ => yields_error fun _ => by simp) fun _ => trivial⟩
  refine (hlocal _ _ _ _).1.bind fun bytes _ => ?_
  refine yields_ite (fun _ => yields_pure ⟨⟨rfl, rfl, rfl, rfl⟩, rfl⟩) fun _ => ?_
  refine (hlocal _ _ _ _).2.bind fun pages _ => ?_
  exact yields_ite (fun _ => yields_pure ⟨⟨rfl, rfl, rfl, rfl⟩, rfl⟩)
    fun _ => yields_pure ⟨⟨rfl, rfl, rfl, rfl⟩, rfl⟩

theorem pageStart_eq (vaddr : ℕ) : pageStart vaddr = vaddr / 4096 * 4096 := by
  have h : vaddr / 4096 * 4096 = vaddr - vaddr % 4096 := by omega
  exact h.symm

variable {address size : ℕ} {c c' : TextureCache}

theorem head_next {begin_ end_ x y : ℕ} (hx : begin_ ≤ x) (hy : y < address + size)
    (hpage : x / 4096 = y / 4096) (hmore : (address + size + 4096 - 1) / 4096 * 4096 < end_) :
    (begin_ + 4096) / 4096 * 4096 < end_ := by
  have hnext : (begin_ + 4096) / 4096 ≤ (address + size + 4096 - 1) / 4096 := by omega
  exact (Nat.mul_le_mul_right 4096 hnext).trans_lt hmore

theorem tail_same {end_ x y : ℕ} (hbehind : end_ ≤ address) (hx : x < end_)
    (hy : address ≤ y) (hpage : x / 4096 = y / 4096) :
    end_ / 4096 = address / 4096 ∧ end_ / 4096 * 4096 < end_ := by
  have hsame : end_ / 4096 = x / 4096 := by omega
  refine ⟨by omega, ?_⟩
  rw [hsame]
  exact (Nat.div_mul_le_self x 4096).trans_lt hx

theorem ends_apart {image : Image} (hpos : 0 < image.data.size)
    (hsize : 0 < size) (h : ¬ image.Meets address size false) :
    address + size ≤ image.data.address ∨ image.data.end_ ≤ address := by
  by_contra hnone
  apply h
  have hdata : image.data.end_ = image.data.address + image.data.size := rfl
  refine ⟨max image.data.address address, max image.data.address address, ?_, ?_, rfl⟩ <;> omega

/-- **One image** that has a page in common with the range that the CPU has written. -/
theorem invalidateAlias_watching (hs : c.Shaped) {id : ImageId} {image : Image}
    (himage : c.resolveOwner id = some image) (hregistered : image.registered = true)
    (hsize : 0 < size) (hrange : address + size ≤ 1099511627776)
    (hmeets : image.Meets address size true) :
    Yields (Sound c) (invalidateAlias address size c id) (Watching c) := by
  unfold invalidateAlias
  rw [himage]
  refine yields_ite (fun _ => yields_pure (refl hs)) fun _ => ?_
  have hplaced := (hs.owner himage).placed hregistered
  obtain ⟨b, hb, hbytes⟩ := overlaps_eq false hplaced.2.1 hplaced.2.2 hsize hrange
  rw [hb]
  refine yields_ite (fun _ => ?_) fun hnot => ?_
  · -- bytes of the image were written
    refine ((invalidateCpuWrite_yields image address size).mono_error
      fun e he => he.sound c).bind fun image' himage' => ?_
    obtain ⟨hinterval, hentry⟩ := himage'
    have hfirst : Watching c (c.modify id fun _ => image') :=
      watching_modify hs himage hentry (hinterval.shaped (hs.owner himage)) hinterval.share
    exact bind (x := .ok (c.modify id fun _ => image')) hfirst
      fun c1 h1 => untrackImage_watching h1.shaped id
  · -- only the first or the last page of the image was
    have hapart : ¬ image.Meets address size false := fun h => hnot (hbytes.mpr h)
    have hends := ends_apart hplaced.2.1 hsize hapart
    obtain ⟨x, y, hx, hy, hxy⟩ := hmeets
    have hpage : x / 4096 = y / 4096 := hxy
    have htracker : TRACKER_PAGE_SIZE = 4096 := rfl
    refine yields_ite (fun hhead => ?_) fun _ => yields_ite (fun htail => ?_) fun _ => ?_
    · refine untrackImageHead_watching hs himage fun _ => ?_
      rw [htracker, pageStart_eq] at hhead ⊢
      exact head_next hx.1 hy.2 hpage hhead
    · rw [pageStart_eq] at htail
      have hbehind : image.data.end_ ≤ address := by
        omega
      obtain ⟨hsame, hinside⟩ := tail_same hbehind hx.2 hy.1 hpage
      refine untrackImageTail_watching hs himage ?_ ?_
      · rw [pageStart_eq, hsame]
        exact htail
      · rw [pageStart_eq]
        exact hinside
    · exact markAsMaybeDirty_watching hs himage

/-- **`InvalidateCpuAliases`** of a range in the address space. -/
theorem invalidateCpuAliases_good (hi : c.Indexed) (hs : c.Shaped)
    (hsize : 0 < size) (hrange : address + size ≤ 1099511627776) :
    Yields (Sound c) (c.invalidateCpuAliases address size) (Good c) := by
  refine ((findImagesInRegion_exact hi hs hsize hrange true).mono_error
    fun _ h => h.elim).bind fun r hr => ?_
  obtain ⟨c1, found⟩ := r
  obtain ⟨hgood, hstay, -, -, hfound⟩ := hr
  -- the images that were found stay where they are, whatever is untracked before them
  have hloop : ∀ (l : List ImageId) (c2 : TextureCache), (∀ id ∈ l, id ∈ found.ids) →
      Watching c1 c2 →
      Yields (Sound c2) (l.foldlM (invalidateAlias address size) c2) (Watching c2) := by
    intro l
    induction l with
    | nil => exact fun c2 _ h2 => refl h2.shaped
    | cons id l ih =>
      intro c2 hl h2
      rw [foldlM_cons]
      obtain ⟨image, himage, hregistered, hmeets⟩ := (hfound id).mp (hl id mem_cons_self)
      obtain ⟨image1, himage1, hplace1⟩ := hstay id image himage
      obtain ⟨image2, himage2, hentry⟩ := h2.outline.still himage1
      have hplace2 := samePlace_of_entry hentry
      have hone := invalidateAlias_watching h2.shaped himage2
        (hplace2.registered.trans (hplace1.registered.trans hregistered)) hsize hrange
        (hplace2.meets.mpr (hplace1.meets.mpr hmeets))
      exact bind hone fun c3 h3 =>
        ih c3 (fun i hi => hl i (mem_cons_of_mem id hi)) (h2.trans h3)
  refine ((hloop found.ids c1 (fun _ h => h) (refl hgood.kept.shaped)).mono
    fun c2 h2 => ?_).mono_error fun e he => hgood.kept.sound he
  have hlast := h2.good hgood.indexed
  exact ⟨hlast.indexed, hgood.kept.trans hlast.kept, hgood.next_serial.trans hlast.next_serial⟩

/-! ## Calls -/

/-- The call is one of the cache itself. -/
def Call.own : Call → Bool
  | .pages _ => false
  | _ => true

theorem resolved_good (hi : c.Indexed) (hs : c.Shaped) (id : ImageId)
    {f : Image → Image} (hentry : ∀ image, entry (f image) = entry image)
    (hf : ∀ image, SameInterval image (f image)) :
    Yields (Sound c) (do
      let _ ← c.resolveImage id
      return c.modify id f) (Good c) := by
  refine (c.resolveImage_yields id).bind fun image himage => ?_
  exact yields_pure (good_modify hi hs himage (hentry image) (hf image))

theorem runDeferred_yields (hi : c.Indexed) (hs : c.Shaped) {n : ℕ}
    {id : ImageId} {retained : ℕ} (hn : c.deferred[n]? = some (id, retained)) :
    Yields (Sound c) ({ c with deferred := c.deferred.eraseIdx n }.eraseSlot id retained)
      (Good c) := by
  have hmem : (id, retained) ∈ c.deferred := mem_of_getElem? hn
  have hleft : ∀ p ∈ c.deferred.eraseIdx n, p ∈ c.deferred :=
    fun p hp => mem_of_mem_eraseIdx hp
  have hi' : Indexed { c with deferred := c.deferred.eraseIdx n } :=
    ⟨hi.owners, hi.nodup, hi.epochs, fun p hp => hi.retired p (hleft p hp),
      fun p hp => hi.old p (hleft p hp), hi.serials⟩
  have herase := eraseSlot_yields hi' hs (hi.old _ hmem).1
    fun image himage hserial => hi.retired _ hmem image himage hserial
  -- the books of the watchers do not mention the slots that wait
  refine (herase.mono fun c' h' => ?_).mono_error fun e he => he
  exact ⟨h'.indexed, ⟨h'.kept.shaped, h'.kept.watchers, h'.kept.pages⟩, h'.next_serial⟩

theorem valid_bounds (h : (GuestRange.mk address size).valid = true) :
    0 < size ∧ address + size ≤ 1099511627776 := by
  unfold valid empty at h
  simp only [Bool.and_eq_true, Bool.not_eq_true', Bool.or_eq_false_iff, beq_eq_false_iff_ne,
    decide_eq_true_eq] at h
  have htop : TRACKER_ADDRESS_SIZE = 1099511627776 := rfl
  rw [htop] at h
  exact ⟨by omega, by omega⟩

theorem invalidateMemory_ok (h : c.invalidateMemory address size = .ok c') :
    0 < size ∧ address + size ≤ 1099511627776 ∧ c.invalidateCpuAliases address size = .ok c' := by
  unfold invalidateMemory at h
  split at h
  next hvalid =>
    obtain ⟨hsize, hrange⟩ := valid_bounds hvalid
    exact ⟨hsize, hrange, h⟩
  · cases h

/-- **One call of the cache** keeps the index and the books of the watchers. -/
theorem step_good (hi : c.Indexed) (hs : c.Shaped) {call : Call}
    (hown : call.own = true) : Yields (Sound c) (c.step call) (Good c) := by
  cases call with
  | insertImage data uncompressed =>
    exact yields_map (insertImage_yields hi hs data uncompressed)
  | deleteImage id active => exact deleteImage_yields hi hs id active
  | runDeferred n =>
    unfold step
    dsimp only
    cases hn : c.deferred[n]? with
    | none => exact yields_pure (.refl hi hs)
    | some p =>
      exact runDeferred_yields hi hs hn
  | trackImage id => exact (trackImage_watching hs id).mono fun c' h' => h'.good hi
  | invalidateMemory address size =>
    refine yields_ite (fun hvalid => ?_) fun _ => yields_error (sound_of_ne fun _ => by simp)
    obtain ⟨hsize, hrange⟩ := valid_bounds hvalid
    exact invalidateCpuAliases_good hi hs hsize hrange
  | findImagesInRegion address size page_overlap =>
    refine yields_map ?_
    cases hpages : tryGetPageRange address size with
    | none =>
      unfold findImagesInRegion
      rw [hpages]
      exact .refl hi hs
    | some range =>
      obtain ⟨hsize, hrange, -⟩ := tryGetPageRange_eq_some.mp hpages
      exact ((findImagesInRegion_exact hi hs hsize hrange page_overlap).mono
        fun r hr => hr.1).mono_error fun _ h => h.elim
  | associateDepth id | setGpuModified id =>
    exact resolved_good hi hs id (fun _ => rfl) fun _ => ⟨rfl, rfl, rfl, rfl⟩
  | refreshComplete id =>
    refine (c.resolveImage_yields id).bind fun image himage => ?_
    unfold Image.refreshComplete
    by_cases hdirty : image.isCpuDirty = true
    · rw [if_pos hdirty]
      exact yields_pure (good_modify hi hs himage rfl ⟨rfl, rfl, rfl, rfl⟩)
    · rw [if_neg hdirty]
      exact yields_error (sound_of_ne fun _ => by simp)
  | pages op => cases hown

theorem step_pages {op : PageManager.Op} (h : c.step (.pages op) = .ok c') :
    c.page_manager.step op = .ok c'.page_manager ∧
      c' = { c with page_manager := c'.page_manager } := by
  dsimp only [step] at h
  cases hstep : c.page_manager.step op with
  | error e =>
    rw [hstep] at h
    cases h
  | ok m =>
    rw [hstep] at h
    cases h
    exact ⟨rfl, rfl⟩

/-- **One call, whoever makes it.** -/
theorem step_invariant (hi : c.Indexed) (hs : c.Shaped) {call : Call}
    (h : c.step call = .ok c') : c'.Indexed ∧ c'.Shaped := by
  cases hown : call.own with
  | true =>
    have hgood := (step_good hi hs hown).of_ok h
    exact ⟨hgood.indexed, hgood.kept.shaped⟩
  | false =>
    cases call with
    | pages op =>
      obtain ⟨-, hc'⟩ := step_pages h
      rw [hc']
      exact ⟨⟨hi.owners, hi.nodup, hi.epochs, hi.retired, hi.old, hi.serials⟩, hs⟩
    | _ => cases hown

/-- **Runs.** -/
theorem run_invariant {calls : List Call} (hi : c.Indexed) (hs : c.Shaped)
    (h : run calls c = .ok c') : c'.Indexed ∧ c'.Shaped := by
  induction calls generalizing c with
  | nil =>
    cases h
    exact ⟨hi, hs⟩
  | cons call calls ih =>
    obtain ⟨c1, hstep, hrest⟩ := bind_eq_ok.mp h
    obtain ⟨hi1, hs1⟩ := step_invariant hi hs hstep
    exact ih hi1 hs1 hrest

theorem start_invariant (m : PageManager) : (start m).Indexed ∧ (start m).Shaped := by
  have hnone : ∀ id, (start m).resolveOwner id = none := fun id => rfl
  have howners : ∀ page, (start m).image_page_table.owners page = [] := by
    intro page
    unfold owners find
    split_ifs <;> rfl
  refine ⟨⟨fun page id => ?_, fun page => ?_, fun id image h => ?_, fun p hp => ?_, fun p hp => ?_,
    fun id image h => ?_⟩, fun i slot image hslot => ?_⟩
  · rw [howners]
    constructor
    · intro hmem
      cases hmem
    · rintro ⟨image, himage, -⟩
      rw [hnone] at himage
      cases himage
  · rw [howners]
    exact nodup_nil
  · rw [hnone] at h
    cases h
  · cases hp
  · cases hp
  · rw [hnone] at h
    cases h
  · cases hslot

/-! ## What a lookup finds -/

/-- **`FindImagesInRegion`, after any run.** For a range that ends in the address space, the
result has each registered image that overlaps the range once, and no other. -/
theorem findImagesInRegion_run {m : PageManager} {calls : List Call} {c : TextureCache}
    (hrun : run calls (start m) = .ok c) {address size : ℕ}
    (hrange : address + size ≤ ADDRESS_SPACE_SIZE) (page_overlap : Bool) :
    ∃ c' found, c.findImagesInRegion address size page_overlap = .ok (c', found) ∧
      found.ids.Nodup ∧ ∀ id, id ∈ found.ids ↔ ∃ image, c.resolveOwner id = some image ∧
        image.registered = true ∧ image.Meets address size page_overlap := by
  obtain ⟨hi0, hs0⟩ := start_invariant m
  obtain ⟨hi, hs⟩ := run_invariant hi0 hs0 hrun
  by_cases hsize : 0 < size
  · have hexact := findImagesInRegion_exact hi hs hsize hrange page_overlap
    cases hfound : c.findImagesInRegion address size page_overlap with
    | error e => exact (hexact.of_error hfound).elim
    | ok r =>
      obtain ⟨-, -, -, hnodup, hids⟩ := hexact.of_ok hfound
      exact ⟨r.1, r.2, rfl, hnodup, hids⟩
  · -- nothing overlaps an empty range
    have hnone : ImagePageTable.tryGetPageRange address size = none := if_pos (.inl (by omega))
    refine ⟨c, {}, ?_, List.nodup_nil, fun id => ?_⟩
    · unfold findImagesInRegion
      rw [hnone]
      rfl
    · constructor
      · intro hid
        exact nomatch hid
      · rintro ⟨image, -, -, x, y, -, hy, -⟩
        omega

theorem ok_of_toOption {ε α β : Type} {x : Except ε α} {f : α → β} {b : β}
    (h : x.toOption.map f = some b) : ∃ a, x = .ok a ∧ f a = b := by
  cases x with
  | error e => exact absurd h (by simp [Except.toOption])
  | ok a => exact ⟨a, rfl, Option.some.inj h⟩

/-- Two images on one page, of which the range overlaps the second. -/
theorem findImagesInRegion_second :
    ∃ c c' found, run [.insertImage ⟨0x1000, 0x800⟩ true, .insertImage ⟨0x1800, 0x9000⟩ true]
        (start (PageManager.start false none)) = .ok c ∧
      c.findImagesInRegion 0x2000 0x100 false = .ok (c', found) ∧ found.ids = [⟨1#32, 1#32⟩] ∧
      ∀ id, id ∈ found.ids ↔ ∃ image, c.resolveOwner id = some image ∧
        image.registered = true ∧ image.Meets 0x2000 0x100 false := by
  have hids : (run [.insertImage ⟨0x1000, 0x800⟩ true, .insertImage ⟨0x1800, 0x9000⟩ true]
      (start (.start false none))).toOption.map (fun c =>
        (c.findImagesInRegion 0x2000 0x100 false).toOption.map fun r => r.2.ids) =
      some (some [⟨1#32, 1#32⟩]) := by
    decide +kernel
  obtain ⟨c, hrun, hfound⟩ := ok_of_toOption hids
  obtain ⟨r, hlookup, hr⟩ := ok_of_toOption hfound
  obtain ⟨c', found, hlookup', -, hexact⟩ :=
    @findImagesInRegion_run _ _ _ hrun 0x2000 0x100 (by decide) false
  obtain rfl : r = (c', found) := Except.ok.inj (hlookup.symm.trans hlookup')
  exact ⟨c, c', found, hrun, hlookup', hr, hexact⟩

/-- A range that crosses the end of the address space finds nothing. -/
theorem findImagesInRegion_crossing :
    ∃ c c' found image, run [.insertImage ⟨0x1000, 0x1000⟩ true]
        (start (PageManager.start false none)) = .ok c ∧
      c.findImagesInRegion 0x1000 0x10000000000 false = .ok (c', found) ∧ found.ids = [] ∧
      c.resolveOwner ⟨0#32, 1#32⟩ = some image ∧ image.registered = true ∧
      image.Meets 0x1000 0x10000000000 false := by
  have hvalues : (run [.insertImage ⟨0x1000, 0x1000⟩ true]
      (start (.start false none))).toOption.map (fun c =>
        ((c.findImagesInRegion 0x1000 0x10000000000 false).toOption.map fun r => r.2.ids,
          (c.resolveOwner ⟨0#32, 1#32⟩).map fun image => (image.registered, image.data))) =
      some (some [], some (true, ⟨0x1000, 0x1000⟩)) := by
    decide +kernel
  obtain ⟨c, hrun, hc⟩ := ok_of_toOption hvalues
  obtain ⟨hfound, himage⟩ := Prod.mk.inj hc
  obtain ⟨r, hlookup, hr⟩ := ok_of_toOption hfound
  obtain ⟨image, howner, hfacts⟩ := Option.map_eq_some_iff.mp himage
  obtain ⟨hregistered, hdata⟩ := Prod.mk.inj hfacts
  refine ⟨c, r.1, r.2, image, hrun, hlookup, hr, howner, hregistered, 0x1000, 0x1000, ?_, ?_, rfl⟩
  · rw [hdata]
    decide
  · decide

end MagnusPS5.Graphics.TextureCache
