/-
What a call of the texture cache leaves of the index of its images.

The outline of a cache is what the index depends on: the generations of the slots, and of
each image which object it is, where it lies, whether it is registered and the epoch it
was last visited in. A change of an image that its entry does not show keeps the outline.
-/
import MagnusPS5.Graphics.TextureCache

namespace MagnusPS5.Graphics.TextureCache

open Lib

/-! ## Lookups -/

variable {c c' : TextureCache} {id : ImageId} {image' : Image}

theorem resolveImage_eq_ok {image : Image} :
    c.resolveImage id = .ok image ↔ c.resolveOwner id = some image := by
  unfold resolveImage resolveOwner
  cases c.slots[id.index.toNat]? with
  | none => simp
  | some slot =>
    dsimp only
    by_cases hvalid : id.valid = false
    · rw [if_pos hvalid, if_pos hvalid]
      simp
    · rw [if_neg hvalid, if_neg hvalid]
      by_cases hgen : slot.generation = id.generation
      · rw [if_neg (not_not_intro hgen), if_pos hgen]
        cases slot.image with
        | none => simp
        | some owner => simp [pure, Except.pure]
      · rw [if_pos hgen, if_neg hgen]
        simp

theorem resolveOwner_eq_some {image : Image} :
    c.resolveOwner id = some image ↔ id.valid = true ∧
      ∃ slot, c.slots[id.index.toNat]? = some slot ∧ slot.generation = id.generation ∧
        slot.image = some image := by
  unfold resolveOwner
  cases hslot : c.slots[id.index.toNat]? with
  | none => simp
  | some slot =>
    dsimp only
    by_cases hvalid : id.valid = false
    · rw [if_pos hvalid]
      simp [hvalid]
    · rw [if_neg hvalid]
      have hvalid' : id.valid = true := by simpa using hvalid
      by_cases hgen : slot.generation = id.generation
      · rw [if_pos hgen]
        simp [hvalid', hgen]
      · rw [if_neg hgen]
        simp [hgen]

theorem id_eq_of_index {id' : ImageId} {image : Image}
    (h : c.resolveOwner id = some image) (h' : c.resolveOwner id' = some image')
    (hindex : id.index = id'.index) : id = id' := by
  obtain ⟨-, slot, hslot, hgen, -⟩ := resolveOwner_eq_some.mp h
  obtain ⟨-, slot', hslot', hgen', -⟩ := resolveOwner_eq_some.mp h'
  rw [← hindex, hslot] at hslot'
  cases id
  cases id'
  simp_all

theorem slots_modify (c : TextureCache) (id : ImageId) (f : Image → Image) (i : ℕ) :
    (c.modify id f).slots[i]? = (c.slots[i]?).map fun slot =>
      if i = id.index.toNat then { slot with image := slot.image.map f } else slot := by
  unfold modify
  rw [List.getElem?_modify, Option.map_eq_map]
  apply congrArg fun g => Option.map g c.slots[i]?
  funext slot
  by_cases hi : i = id.index.toNat
  · rw [if_pos hi.symm, if_pos hi]
  · rw [if_neg fun h => hi h.symm, if_neg hi]

/-- **A change of one image** is seen through its id and no other. -/
theorem resolveOwner_modify {image : Image}
    (h : c.resolveOwner id = some image) (f : Image → Image) (id' : ImageId) :
    (c.modify id f).resolveOwner id' = if id' = id then some (f image) else c.resolveOwner id' := by
  obtain ⟨hvalid, slot, hslot, hgen, himage⟩ := resolveOwner_eq_some.mp h
  by_cases hid : id' = id
  · subst hid
    rw [if_pos rfl, resolveOwner_eq_some]
    refine ⟨hvalid, { slot with image := some (f image) }, ?_, hgen, rfl⟩
    rw [slots_modify, hslot]
    simp [himage]
  · rw [if_neg hid]
    unfold resolveOwner
    rw [slots_modify]
    by_cases hindex : id'.index.toNat = id.index.toNat
    · -- another generation of the same slot has no image
      rw [hindex, hslot]
      have hne : ¬ slot.generation = id'.generation := by
        intro hsame
        apply hid
        have hbv : id'.index = id.index := BitVec.eq_of_toNat_eq hindex
        cases id
        cases id'
        simp_all
      simp [hne]
    · cases c.slots[id'.index.toNat]? with
      | none => rfl
      | some other => simp [hindex]

/-! ## The outline -/

/-- What the index depends on of an image. -/
def entry (image : Image) : ℕ × GuestRange × Bool × BitVec 32 :=
  (image.serial, image.data, image.registered, image.query_epoch)

/-- What the index depends on. -/
structure Outline where
  slots : List (BitVec 32 × Option (ℕ × GuestRange × Bool × BitVec 32))
  free_slots : List (BitVec 32)
  image_page_table : ImagePageTable
  image_query_epoch : BitVec 32
  deferred : List (ImageId × ℕ)
  next_serial : ℕ

/-- The outline of a cache. -/
def outline (c : TextureCache) : Outline where
  slots := c.slots.map fun slot => (slot.generation, slot.image.map entry)
  free_slots := c.free_slots
  image_page_table := c.image_page_table
  image_query_epoch := c.image_query_epoch
  deferred := c.deferred
  next_serial := c.next_serial

/-- The call keeps the outline. -/
def SameOutline (c c' : TextureCache) : Prop := c'.outline = c.outline

theorem SameOutline.trans {c1 c2 : TextureCache} (h : SameOutline c c1)
    (h' : SameOutline c1 c2) : SameOutline c c2 := Eq.trans h' h

theorem outline_modify {image : Image} (h : c.resolveOwner id = some image) {f : Image → Image}
    (hf : entry (f image) = entry image) : SameOutline c (c.modify id f) := by
  obtain ⟨-, slot, hslot, -, himage⟩ := resolveOwner_eq_some.mp h
  have hslots : (c.modify id f).slots.map (fun slot => (slot.generation, slot.image.map entry)) =
      c.slots.map fun slot => (slot.generation, slot.image.map entry) := by
    apply List.ext_getElem?
    intro i
    rw [List.getElem?_map, List.getElem?_map, slots_modify, Option.map_map]
    by_cases hi : i = id.index.toNat
    · subst hi
      rw [hslot]
      simp [himage, hf]
    · cases c.slots[i]? with
      | none => rfl
      | some slot => simp [hi]
  show Outline.mk _ _ _ _ _ _ = Outline.mk _ _ _ _ _ _
  rw [hslots]
  rfl

theorem SameOutline.owner (h : SameOutline c c') (id : ImageId) :
    (c'.resolveOwner id).map entry = (c.resolveOwner id).map entry := by
  have hslots : c'.slots.map (fun slot => (slot.generation, slot.image.map entry)) =
      c.slots.map fun slot => (slot.generation, slot.image.map entry) := congrArg Outline.slots h
  have hslot := congrArg (fun l => l[id.index.toNat]?) hslots
  simp only [List.getElem?_map] at hslot
  unfold resolveOwner
  cases hc : c.slots[id.index.toNat]? with
  | none =>
    rw [hc] at hslot
    cases hc' : c'.slots[id.index.toNat]? with
    | none => rfl
    | some slot' => simp [hc'] at hslot
  | some slot =>
    rw [hc] at hslot
    cases hc' : c'.slots[id.index.toNat]? with
    | none => simp [hc'] at hslot
    | some slot' =>
      rw [hc'] at hslot
      obtain ⟨hgen, himage⟩ := Prod.mk.inj (Option.some.inj hslot)
      dsimp only at hgen himage ⊢
      rw [hgen]
      split_ifs
      · rfl
      · exact himage
      · rfl

theorem SameOutline.image (h : SameOutline c c') (himage : c'.resolveOwner id = some image') :
    ∃ image, c.resolveOwner id = some image ∧ entry image' = entry image := by
  have howner := h.owner id
  rw [himage] at howner
  cases hc : c.resolveOwner id with
  | none =>
    rw [hc] at howner
    cases howner
  | some image =>
    rw [hc] at howner
    exact ⟨image, rfl, Option.some.inj howner⟩

end MagnusPS5.Graphics.TextureCache
