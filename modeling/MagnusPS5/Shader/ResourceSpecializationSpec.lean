/-
When a specialized program fits the snapshot it was specialized for, and others.
-/
import MagnusPS5.Shader.ResourceSpecialization
import Mathlib

namespace MagnusPS5.Shader.ResourceSpecialization

open Lib DescriptorValue BitVec Nat

variable {image image' im im0 root : ImageResource} {descriptor a b d : DescriptorValue}

/-! ## Images -/

/-- What resource tracking makes of an image instruction: atomics use unsigned storage images,
stores use storage images, and only loads and samples use the others. -/
structure TrackedImage (image : ImageResource) : Prop where
  kind : (image.kind = .image ∨ image.kind = .storageImage) ∧ image.atomic = false ∨
    image.kind = .storageImageUint ∧ image.atomic = true
  mip_mode : image.mip_mode = .dynamicStorage → image.kind.storage = true
  depth_compare : image.depth_compare = true → image.kind = .image
  storage_swizzle : image.storage_swizzle = storageImageIdentitySwizzle

/-- `DescriptorDimension`, of the number of an image type. -/
def dimensionOf (type : ℕ) (isArray : Bool) : ImageDimension :=
  match type with
  | 8 => .dim1D
  | 12 => if isArray then .dim1DArray else .dim1D
  | 10 => .dim3D
  | 11 => .dim2DArray
  | 13 => if isArray then .dim2DArray else .dim2D
  | 15 => if isArray then .dim2DMsaaArray else .dim2DMsaa
  | 9 => .dim2D
  | 14 => .dim2DMsaa
  | _ => .unknown

theorem descriptorDimension_eq (d : DescriptorValue) (r : ImageDimension) :
    descriptorDimension d r = dimensionOf d.imageType.toNat r.isArray := rfl

theorem imageType_lt (d : DescriptorValue) : d.imageType.toNat < 16 := by
  unfold DescriptorValue.imageType DescriptorValue.bits
  rw [toNat_and]
  exact lt_of_le_of_lt and_le_right (by decide)

theorem descriptorIsCube_eq (d : DescriptorValue) :
    descriptorIsCube d = decide (d.imageType.toNat = 11) := by
  unfold descriptorIsCube
  rw [Bool.eq_iff_iff, beq_iff_eq, decide_eq_true_iff, toNat_eq]
  rfl

theorem descriptorDimension_idem (r : ImageDimension) :
    descriptorDimension d (descriptorDimension d r) = descriptorDimension d r := by
  have htable : ∀ type < 16, ∀ isArray,
      dimensionOf type (dimensionOf type isArray).isArray = dimensionOf type isArray := by decide
  exact htable _ (imageType_lt d) _

theorem specializedImage_null (h : nullImageDescriptor d = true) :
    specializedImage im d =
      { im with
        mip_count := storageMipCount im d
        dimension := .dim2D
        cube := false
        kind := im.kind.ofNull im.atomic } := if_pos h

theorem specializedImage_typed (h : nullImageDescriptor d = false) :
    specializedImage im d =
      { im with
        mip_count := storageMipCount im d
        dimension := descriptorDimension d im.dimension
        cube := descriptorIsCube d
        storage_swizzle :=
          if im.kind.storage then descriptorImageSwizzle d else im.storage_swizzle
        kind := if uintDescriptor im d then im.kind.ofUint else im.kind } :=
  if_neg (by simp [h])

@[simp] theorem ResourceKind.storage_ofNull (atomic : Bool) (kind : ResourceKind) :
    (kind.ofNull atomic).storage = kind.storage := by
  cases kind <;> cases atomic <;> rfl

@[simp] theorem ResourceKind.storage_ofUint (kind : ResourceKind) :
    kind.ofUint.storage = kind.storage := by
  cases kind <;> rfl

@[simp] theorem specializedImage_storage :
    (specializedImage im a).kind.storage = im.kind.storage := by
  unfold specializedImage
  split
  · exact ResourceKind.storage_ofNull _ _
  · split
    · exact ResourceKind.storage_ofUint _
    · rfl

theorem specializedImage_kept :
    (specializedImage im a).mip_mode = im.mip_mode ∧ (specializedImage im a).read = im.read ∧
      (specializedImage im a).atomic = im.atomic ∧
      (specializedImage im a).depth_compare = im.depth_compare ∧
      (specializedImage im a).indirect_root = im.indirect_root ∧
      (specializedImage im a).indirect_mapping_offset = im.indirect_mapping_offset ∧
      (specializedImage im a).indirect_mapping_capacity = im.indirect_mapping_capacity ∧
      (specializedImage im a).indirect_resources = im.indirect_resources := by
  unfold specializedImage
  split <;> exact ⟨rfl, rfl, rfl, rfl, rfl, rfl, rfl, rfl⟩

@[simp] theorem storageMipCount_specialized :
    storageMipCount (specializedImage im a) b = storageMipCount im b := by
  unfold storageMipCount
  rw [specializedImage_kept.1]

@[simp] theorem uintDescriptor_specialized :
    uintDescriptor (specializedImage im a) b = uintDescriptor im b := by
  unfold uintDescriptor
  rw [specializedImage_storage, specializedImage_kept.2.1, specializedImage_kept.2.2.1]

/-! ## What the validation of an image asks -/

/-- The conditions of `validateNullImage`. -/
def NullFits (images : List ImageResource) (image : ImageResource) : Prop :=
  match image.indirect_root with
  | some root => ∃ root_image ∈ images[root]?, root_image.sameBinding image
  | none => image.dimension = .dim2D ∧ image.cube = false ∧
      if image.atomic then image.kind = .storageImageUint
      else image.kind = .image ∨ image.kind = .storageImage

/-- The conditions of `validateImage` on the class of an image that is bound to memory. -/
structure TypedFits (image : ImageResource) (descriptor : DescriptorValue) : Prop where
  known : descriptorDimension descriptor image.dimension ≠ .unknown
  dimension : descriptorDimension descriptor image.dimension = image.dimension
  cube : descriptorIsCube descriptor = image.cube
  format : image.kind.isImage = true →
    (image.kind.storage = true → image.storage_swizzle = descriptorImageSwizzle descriptor) ∧
    (uintDescriptor image descriptor = image.kind.uint ∨
      image.atomic = true ∧ image.kind.uint = true) ∧
    ¬ (image.depth_compare = true ∧ image.kind.uint = true)

/-- The conditions of `validateImage`. -/
structure Fits (images : List ImageResource) (image : ImageResource)
    (descriptor : DescriptorValue) : Prop where
  mip_count : storageMipCount image descriptor ≠ 0 ∧
    storageMipCount image descriptor = image.mip_count
  null : nullImageDescriptor descriptor = true → NullFits images image
  typed : nullImageDescriptor descriptor = false → TypedFits image descriptor

variable {images : List ImageResource}

theorem validateNullImage_eq_ok (i : ℕ) (u : Unit) :
    validateNullImage images i image = .ok u ↔ NullFits images image := by
  unfold validateNullImage NullFits
  cases image.indirect_root with
  | some | none => exact check_eq_ok

theorem validateImage_eq_ok (i : ℕ) (u : Unit) :
    validateImage images i (image, d) = .ok u ↔ Fits images image d := by
  unfold validateImage
  simp only [bind_eq_ok, check_eq_ok]
  cases hnull : nullImageDescriptor d with
  | true =>
    simp only [if_true, validateNullImage_eq_ok]
    exact ⟨fun ⟨_, hmip, h⟩ => ⟨hmip, fun _ => h, fun h' => absurd (hnull.symm.trans h') (by decide)⟩,
      fun h => ⟨(), h.mip_count, h.null hnull⟩⟩
  | false =>
    simp only [Bool.false_eq_true, if_false, bind_eq_ok, check_eq_ok]
    constructor
    · rintro ⟨_, hmip, _, ⟨hknown, hdimension, hcube⟩, hformat⟩
      refine ⟨hmip, fun h' => absurd (hnull.symm.trans h') (by decide),
        fun _ => ⟨hknown, hdimension, hcube, fun hkind => ?_⟩⟩
      rw [if_pos hkind] at hformat
      simp only [bind_eq_ok, check_eq_ok] at hformat
      obtain ⟨_, hswizzle, _, huint, hdepth⟩ := hformat
      exact ⟨hswizzle, huint, hdepth⟩
    · intro h
      obtain ⟨hknown, hdimension, hcube, hformat⟩ := h.typed hnull
      refine ⟨(), h.mip_count, (), ⟨hknown, hdimension, hcube⟩, ?_⟩
      split
      next hkind =>
        obtain ⟨hswizzle, huint, hdepth⟩ := hformat hkind
        simp only [bind_eq_ok, check_eq_ok]
        exact ⟨(), hswizzle, (), huint, hdepth⟩
      · rfl

/-! ## The snapshot that the program was specialized for -/

section

variable (h : TrackedImage im)

include h

theorem TrackedImage.isImage : (specializedImage im d).kind.isImage = true := by
  unfold specializedImage
  obtain ⟨hkind | hkind, hatomic⟩ | ⟨hkind, hatomic⟩ := h.kind
  all_goals
    split
    · simp [hkind, hatomic, ResourceKind.ofNull, ResourceKind.isImage]
    · split <;> simp [hkind, ResourceKind.ofUint, ResourceKind.isImage]

/-- A tracked image reads unsigned integers behind specialization if its format says so, or if
it is used by atomics. -/
theorem TrackedImage.uint_typed (hnull : nullImageDescriptor d = false) :
    (specializedImage im d).kind.uint = (uintDescriptor im d || im.atomic) := by
  rw [specializedImage_typed hnull]
  obtain ⟨hkind | hkind, hatomic⟩ | ⟨hkind, hatomic⟩ := h.kind
  all_goals
    cases huint : uintDescriptor im d <;>
      simp [hkind, hatomic, ResourceKind.ofUint, ResourceKind.uint]

theorem TrackedImage.uint_null (hnull : nullImageDescriptor d = true) :
    (specializedImage im d).kind = im.kind ∧ im.kind.uint = im.atomic := by
  rw [specializedImage_null hnull]
  obtain ⟨hkind | hkind, hatomic⟩ | ⟨hkind, hatomic⟩ := h.kind
  · simp [hkind, hatomic, ResourceKind.ofNull, ResourceKind.uint]
  · simp [hkind, hatomic, ResourceKind.ofNull, ResourceKind.uint]
  · simp [hkind, hatomic, ResourceKind.ofNull, ResourceKind.uint]

theorem TrackedImage.uintDescriptor_depth (hdepth : im.depth_compare = true) :
    uintDescriptor im d = isUintTextureFormat d.imageFormat ∧ im.atomic = false := by
  have hkind := h.depth_compare hdepth
  unfold uintDescriptor
  obtain ⟨-, hatomic⟩ | ⟨hkind', -⟩ := h.kind
  · simp [hkind, hatomic, ResourceKind.storage]
  · nomatch (hkind.symm.trans hkind')

/-- A specialized image fits the descriptor it was specialized for, unless it compares the depths
of unsigned integers. -/
theorem TrackedImage.typedFits (hnull : nullImageDescriptor d = false)
    (hknown : descriptorDimension d im.dimension ≠ .unknown) :
    TypedFits (specializedImage im d) d ↔
      ¬ (im.depth_compare = true ∧ isUintTextureFormat d.imageFormat = true) := by
  have hdepth : (specializedImage im d).depth_compare = im.depth_compare :=
    specializedImage_kept.2.2.2.1
  have hrejected : ((specializedImage im d).depth_compare = true ∧
      (specializedImage im d).kind.uint = true) ↔
      im.depth_compare = true ∧ isUintTextureFormat d.imageFormat = true := by
    rw [hdepth, h.uint_typed hnull]
    refine and_congr_right fun hcompare => ?_
    obtain ⟨huint, hatomic⟩ := h.uintDescriptor_depth (d := d) hcompare
    rw [huint, hatomic, Bool.or_false]
  rw [← hrejected]
  constructor
  · exact fun hfits => (hfits.format h.isImage).2.2
  · intro haccepted
    have hdimension : (specializedImage im d).dimension = descriptorDimension d im.dimension := by
      rw [specializedImage_typed hnull]
    refine ⟨?_, ?_, ?_, fun _ => ⟨fun hstorage => ?_, ?_, haccepted⟩⟩
    · rw [hdimension, descriptorDimension_idem]
      exact hknown
    · rw [hdimension, descriptorDimension_idem]
    · rw [specializedImage_typed hnull]
    · rw [specializedImage_storage] at hstorage
      rw [specializedImage_typed hnull]
      exact if_pos hstorage
    · have hatomic : (specializedImage im d).atomic = im.atomic := specializedImage_kept.2.2.1
      rw [uintDescriptor_specialized, h.uint_typed hnull, hatomic]
      cases im.atomic with
      | false => exact .inl (Bool.or_false _).symm
      | true => exact .inr ⟨rfl, Bool.or_true _⟩

theorem TrackedImage.nullFits (hroot : im.indirect_root = none)
    (hnull : nullImageDescriptor d = true) (images : List ImageResource) :
    NullFits images (specializedImage im d) := by
  have hroot' : (specializedImage im d).indirect_root = none := by
    rw [specializedImage_kept.2.2.2.2.1, hroot]
  unfold NullFits
  rw [hroot', specializedImage_null hnull]
  obtain ⟨hkind | hkind, hatomic⟩ | ⟨hkind, hatomic⟩ := h.kind
  · simp [hkind, hatomic, ResourceKind.ofNull]
  · simp [hkind, hatomic, ResourceKind.ofNull]
  · simp [hkind, hatomic, ResourceKind.ofNull]

end

/-! ## Other snapshots -/

variable (image : ImageResource)

/-- The fields that specialization decides. -/
def ImageResource.specialization : ImageDimension × ResourceKind × Bool × Word × Word :=
  (image.dimension, image.kind, image.cube, image.mip_count, image.storage_swizzle)

variable (descriptor : DescriptorValue)

/-- The image was asked for as an array, and is not specialized as one. -/
def ArrayForgotten : Prop :=
  image.dimension.isArray = true ∧
    (nullImageDescriptor descriptor = true ∨ descriptor.imageType.toNat ∈ [8, 9, 14])

/-- The swizzle of a plain storage image, which it loses when it is bound to no memory. -/
def SwizzleForgotten : Prop :=
  image.kind.storage = true ∧ nullImageDescriptor descriptor = false ∧
    descriptorImageSwizzle descriptor ≠ image.storage_swizzle ∧
    storageMipCount image descriptor = 1 ∧
    descriptorDimension descriptor image.dimension = .dim2D ∧
    (image.atomic = true ∨ uintDescriptor image descriptor = false)

variable {r : ImageDimension}

theorem not_cube_of_dim2D (h : descriptorDimension d r = .dim2D) : descriptorIsCube d = false := by
  have htable : ∀ type < 16, ∀ isArray, dimensionOf type isArray = .dim2D → type ≠ 11 := by decide
  rw [descriptorIsCube_eq]
  exact decide_eq_false (htable _ (imageType_lt d) _ h)

/-- The dimension of a descriptor does not depend on the one asked for, where the specialized
dimension admits it and no array is forgotten. -/
theorem descriptorDimension_reuse
    (hforgotten : ¬ (r.isArray = true ∧ a.imageType.toNat ∈ [8, 9, 14]))
    (hknown : descriptorDimension a r ≠ .unknown)
    (hb : descriptorDimension b (descriptorDimension a r) = descriptorDimension a r)
    (hcube : descriptorIsCube b = descriptorIsCube a) :
    descriptorDimension b r = descriptorDimension a r := by
  by_cases hsame : r.isArray = (descriptorDimension a r).isArray
  · rw [← hb, descriptorDimension_eq, descriptorDimension_eq b, hsame]
  -- an array was asked for, or the image is a cube
  have hplain : ∀ type < 16, dimensionOf type false ≠ .unknown →
      false ≠ (dimensionOf type false).isArray → type = 11 := by decide
  have harray : ∀ type < 16, type ∉ [8, 9, 14] → dimensionOf type true ≠ .unknown →
      true ≠ (dimensionOf type true).isArray → type = 10 := by decide
  have hsolid : ∀ type < 16, dimensionOf type false = .dim3D → type = 10 := by decide
  rw [descriptorIsCube_eq, descriptorIsCube_eq, decide_eq_decide] at hcube
  rw [descriptorDimension_eq a] at hknown hsame hb ⊢
  rw [descriptorDimension_eq b] at hb ⊢
  cases hr : r.isArray with
  | false =>
    rw [hr] at hknown hsame
    have ha := hplain _ (imageType_lt a) hknown hsame
    rw [ha, hcube.mpr ha]
  | true =>
    rw [hr] at hknown hsame hb hforgotten
    have ha := harray _ (imageType_lt a) (fun hmem => hforgotten ⟨rfl, hmem⟩) hknown hsame
    rw [ha] at hb
    rw [ha, hsolid _ (imageType_lt b) hb]

theorem descriptorDimension_of_null (hr : r.isArray = false)
    (hb : descriptorDimension b .dim2D = .dim2D) : descriptorDimension b r = .dim2D := by
  rw [descriptorDimension_eq, hr]
  exact hb

theorem storageMipCount_null (h : nullImageDescriptor d = true) : storageMipCount im d = 1 :=
  if_pos (.inr h)

section

variable (h : TrackedImage im)

include h

theorem TrackedImage.kind_ofNull : im.kind.ofNull im.atomic = im.kind := by
  obtain ⟨hkind | hkind, hatomic⟩ | ⟨hkind, hatomic⟩ := h.kind
  · simp [hkind, ResourceKind.ofNull]
  · simp [hkind, ResourceKind.ofNull]
  · simp [hkind, hatomic, ResourceKind.ofNull]

theorem TrackedImage.kind_ofUint (hatomic : im.atomic = true) : im.kind.ofUint = im.kind := by
  obtain ⟨-, hplain⟩ | ⟨hkind, -⟩ := h.kind
  · nomatch (hatomic.symm.trans hplain)
  · rw [hkind]
    rfl

theorem TrackedImage.plain_of_canonical
    (hkind : if im.atomic then (if uintDescriptor im a then im.kind.ofUint else im.kind) =
          .storageImageUint
        else (if uintDescriptor im a then im.kind.ofUint else im.kind) = .image ∨
          (if uintDescriptor im a then im.kind.ofUint else im.kind) = .storageImage) :
    im.atomic = true ∨ uintDescriptor im a = false := by
  cases hatomic : im.atomic with
  | true => exact .inl rfl
  | false =>
    refine .inr ?_
    obtain ⟨hplain | hplain, -⟩ | ⟨-, hatomic'⟩ := h.kind
    · cases huint : uintDescriptor im a with
      | false => rfl
      | true => simp [hatomic, hplain, huint, ResourceKind.ofUint] at hkind
    · cases huint : uintDescriptor im a with
      | false => rfl
      | true => simp [hatomic, hplain, huint, ResourceKind.ofUint] at hkind
    · nomatch (hatomic.symm.trans hatomic')

theorem TrackedImage.canonical_of_plain (hplain : im.atomic = true ∨ uintDescriptor im a = false) :
    if im.atomic then (if uintDescriptor im a then im.kind.ofUint else im.kind) = .storageImageUint
    else (if uintDescriptor im a then im.kind.ofUint else im.kind) = .image ∨
      (if uintDescriptor im a then im.kind.ofUint else im.kind) = .storageImage := by
  obtain ⟨hkind, hatomic⟩ | ⟨hkind, hatomic⟩ := h.kind
  · have huint := hplain.resolve_left (by simp [hatomic])
    simpa [hatomic, huint] using hkind
  · simp [hatomic, hkind, ResourceKind.ofUint]

/-- **What validation accepts is specialized the same way**, if nothing is forgotten. -/
theorem TrackedImage.reuse (hroot : im.indirect_root = none)
    (hknown : nullImageDescriptor a = true ∨ descriptorDimension a im.dimension ≠ .unknown)
    (harray : ¬ ArrayForgotten im a) (hswizzle : ¬ SwizzleForgotten im a)
    (hfits : Fits images (specializedImage im a) b) : storageMipCount im b ≠ 0 ∧
      (nullImageDescriptor b = true ∨ descriptorDimension b im.dimension ≠ .unknown) ∧
      specializedImage im b = specializedImage im a := by
  have hmip : storageMipCount im b = storageMipCount im a := by
    have hmip := hfits.mip_count.2
    rw [storageMipCount_specialized] at hmip
    rw [hmip]
    unfold specializedImage
    split <;> rfl
  have hvalid : storageMipCount im b ≠ 0 := by
    simpa using hfits.mip_count.1
  refine ⟨hvalid, ?_⟩
  cases hb : nullImageDescriptor b with
  | true =>
    refine ⟨.inl rfl, ?_⟩
    cases ha : nullImageDescriptor a with
    | true => rw [specializedImage_null ha, specializedImage_null hb, hmip]
    | false =>
      have hnull := hfits.null hb
      unfold NullFits at hnull
      rw [specializedImage_kept.2.2.2.2.1, hroot, specializedImage_typed ha] at hnull
      obtain ⟨hdimension, hcube, hkind⟩ := hnull
      have hplain := h.plain_of_canonical hkind
      have hsame : im.kind.storage = true → descriptorImageSwizzle a = im.storage_swizzle := by
        intro hstorage
        by_contra hne
        exact hswizzle ⟨hstorage, ha, hne, hmip.symm.trans (storageMipCount_null hb), hdimension,
          hplain⟩
      have hswizzle' : (if im.kind.storage then descriptorImageSwizzle a
          else im.storage_swizzle) = im.storage_swizzle := by
        split
        · exact hsame ‹_›
        · rfl
      have hkind' : (if uintDescriptor im a then im.kind.ofUint else im.kind) = im.kind := by
        obtain hatomic | hformat := hplain
        · rw [h.kind_ofUint hatomic, ite_self]
        · simp [hformat]
      rw [specializedImage_null hb, specializedImage_typed ha, hmip, hswizzle', hkind',
        h.kind_ofNull]
      dsimp only at hdimension hcube
      rw [hdimension, hcube]
  | false =>
    obtain ⟨hknown', hdimension, hcube, hformat⟩ := hfits.typed hb
    obtain ⟨hstored, huint, -⟩ := hformat h.isImage
    rw [specializedImage_storage] at hstored
    rw [uintDescriptor_specialized, specializedImage_kept.2.2.1] at huint
    cases ha : nullImageDescriptor a with
    | true =>
      rw [specializedImage_null ha] at hdimension hcube hstored
      rw [(h.uint_null ha).1, (h.uint_null ha).2] at huint
      have hr : im.dimension.isArray = false := by
        by_contra hr
        exact harray ⟨by simpa using hr, .inl ha⟩
      have hdimension' := descriptorDimension_of_null hr hdimension
      have hswizzle' : (if im.kind.storage then descriptorImageSwizzle b
          else im.storage_swizzle) = im.storage_swizzle := by
        split
        · exact (hstored ‹_›).symm
        · rfl
      have hkind' : (if uintDescriptor im b then im.kind.ofUint else im.kind) = im.kind := by
        cases hatomic : im.atomic with
        | true => rw [h.kind_ofUint hatomic, ite_self]
        | false => simp_all
      refine ⟨.inr (by rw [hdimension']; decide), ?_⟩
      rw [specializedImage_null ha, specializedImage_typed hb, hmip, hswizzle', hkind',
        h.kind_ofNull, hdimension', hcube]
    | false =>
      have hknown := hknown.resolve_left (by simp [ha])
      rw [h.uint_typed ha] at huint
      rw [specializedImage_typed ha] at hdimension hcube hstored
      have hdimension' := descriptorDimension_reuse
        (fun hr => harray ⟨hr.1, .inr hr.2⟩) hknown hdimension hcube
      have hswizzle' : (if im.kind.storage then descriptorImageSwizzle b
          else im.storage_swizzle) =
          if im.kind.storage then descriptorImageSwizzle a else im.storage_swizzle := by
        split
        next hstorage =>
          have hsame := hstored hstorage
          rw [if_pos hstorage] at hsame
          exact hsame.symm
        · rfl
      have hkind' : (if uintDescriptor im b then im.kind.ofUint else im.kind) =
          if uintDescriptor im a then im.kind.ofUint else im.kind := by
        cases hatomic : im.atomic with
        | true => rw [h.kind_ofUint hatomic, ite_self, ite_self]
        | false =>
          have hsame : uintDescriptor im b = uintDescriptor im a := by
            simpa [hatomic] using huint
          rw [hsame]
      refine ⟨.inr (by rw [hdimension']; exact hknown), ?_⟩
      rw [specializedImage_typed ha, specializedImage_typed hb, hmip, hswizzle', hkind',
        hdimension', hcube]

end

/-! ## What is forgotten -/

theorem bits_toNat (dword : Word) (shift width : ℕ) (hwidth : width ≤ 32) :
    (bits dword shift (2 ^ width - 1)).toNat =
      dword.toNat / 2 ^ shift % 2 ^ width := by
  have hlt : 2 ^ width - 1 < 2 ^ 32 := by
    have := Nat.pow_le_pow_right (by decide : 0 < 2) hwidth
    omega
  unfold DescriptorValue.bits
  rw [toNat_and, toNat_ofNat, mod_eq_of_lt hlt, and_two_pow_sub_one_eq_mod,
    toNat_ushiftRight, shiftRight_eq_div_pow]

theorem imageType_word_lt : 3 < 8 := by decide

/-- The descriptor with another image type, a number of types further on. -/
def DescriptorValue.retype (further : ℕ) : DescriptorValue where
  dwords := descriptor.dwords.set 3 (getElem descriptor.dwords 3 imageType_word_lt +
    BitVec.ofNat 32 (further * 2 ^ 28)) imageType_word_lt
  dword_count := 8

section Retype

variable {further : ℕ}

section

variable (h : a.imageType.toNat + further < 16)

include h

theorem retype_word :
    (a.retype further).dwords[3].toNat = a.dwords[3].toNat + further * 2 ^ 28 := by
  have htype : a.imageType.toNat = a.dwords[3].toNat / 2 ^ 28 % 2 ^ 4 := bits_toNat _ 28 4 (by decide)
  have hset : (a.retype further).dwords[3] = a.dwords[3] + .ofNat 32 (further * 2 ^ 28) := by
    simp [retype]
  rw [hset, toNat_add, toNat_ofNat]
  omega

theorem retype_imageType : (a.retype further).imageType.toNat = a.imageType.toNat + further := by
  have htype : a.imageType.toNat = a.dwords[3].toNat / 2 ^ 28 % 2 ^ 4 := bits_toNat _ 28 4 (by decide)
  have htype' : (a.retype further).imageType.toNat =
      (a.retype further).dwords[3].toNat / 2 ^ 28 % 2 ^ 4 := bits_toNat _ 28 4 (by decide)
  rw [htype', retype_word h]
  omega

theorem retype_bits (shift width : ℕ) (hfield : shift + width ≤ 28) :
    bits (a.retype further).dwords[3] shift (2 ^ width - 1) =
      DescriptorValue.bits a.dwords[3] shift (2 ^ width - 1) := by
  apply eq_of_toNat_eq
  rw [bits_toNat _ _ _ (by omega), bits_toNat _ _ _ (by omega), retype_word h]
  obtain ⟨rest, hrest⟩ := Nat.exists_eq_add_of_le hfield
  have hpow : further * 2 ^ 28 = 2 ^ shift * (2 ^ width * (2 ^ rest * further)) := by
    rw [hrest]
    ring
  rw [hpow, Nat.add_mul_div_left _ _ (Nat.two_pow_pos shift), Nat.add_mul_mod_self_left]

end

@[simp] theorem retype_format : (a.retype further).imageFormat = a.imageFormat := by
  simp [imageFormat, retype]

@[simp] theorem retype_null : nullImageDescriptor (a.retype further) = nullImageDescriptor a := by
  simp [nullImageDescriptor, retype]

theorem retype_swizzle (h : a.imageType.toNat + further < 16) :
    descriptorImageSwizzle (a.retype further) = descriptorImageSwizzle a := by
  have hbits := retype_bits h 0 12 (by decide)
  simpa [DescriptorValue.bits, descriptorImageSwizzle] using hbits

theorem retype_mip (h : a.imageType.toNat + further < 16) :
    storageMipCount im (a.retype further) = storageMipCount im a := by
  have hbase := retype_bits h 12 4 (by decide)
  have hlast := retype_bits h 16 4 (by decide)
  unfold storageMipCount
  rw [retype_null]
  simp only [show (0xf : ℕ) = 2 ^ 4 - 1 from rfl, hbase, hlast]

@[simp] theorem retype_uint : uintDescriptor im (a.retype further) = uintDescriptor im a := by
  unfold uintDescriptor
  rw [retype_format]

end Retype

/-- An array image without mips and with a normalized format. -/
def arrayDescriptor : DescriptorValue where
  dwords := #v[1, 0x00100000, 0, 0xd0000fac, 0, 0, 0, 0]
  dword_count := 8

/-- The descriptor that binds no memory. -/
def emptyDescriptor : DescriptorValue where
  dwords := Vector.replicate 8 0
  dword_count := 8

theorem specializedImage_mip_count : (specializedImage im a).mip_count = storageMipCount im a := by
  unfold specializedImage
  split <;> rfl

theorem specialization_ne_of_dimension
    (h : (specializedImage im b).dimension ≠ (specializedImage im a).dimension) :
    (specializedImage im b).specialization ≠ (specializedImage im a).specialization :=
  fun heq => h (congrArg Prod.fst heq)

theorem TrackedImage.forget_null (h : TrackedImage im) (ha : nullImageDescriptor a = true)
    (harray : im.dimension.isArray = true) : Fits images (specializedImage im a) arrayDescriptor ∧
      (specializedImage im arrayDescriptor).specialization ≠
        (specializedImage im a).specialization := by
  have hnull : nullImageDescriptor arrayDescriptor = false := by decide
  have hmip : storageMipCount im arrayDescriptor = 1 := by
    unfold storageMipCount
    split
    · rfl
    · decide
  have huint : uintDescriptor im arrayDescriptor = false := by
    have hformat : isUintTextureFormat arrayDescriptor.imageFormat = false := by decide
    have hsint : (arrayDescriptor.imageFormat == 21) = false := by decide
    unfold uintDescriptor
    rw [hformat, hsint, Bool.and_false]
    rfl
  constructor
  · refine ⟨?_, fun h' => absurd (hnull.symm.trans h') (by decide), fun _ => ?_⟩
    · rw [storageMipCount_specialized, specializedImage_mip_count, hmip, storageMipCount_null ha]
      exact ⟨by decide, rfl⟩
    · have hdimension : (specializedImage im a).dimension = .dim2D := by
        rw [specializedImage_null ha]
      have hcube : (specializedImage im a).cube = false := by rw [specializedImage_null ha]
      have hswizzle : (specializedImage im a).storage_swizzle = im.storage_swizzle := by
        rw [specializedImage_null ha]
      refine ⟨?_, ?_, ?_, fun _ => ⟨fun _ => ?_, ?_, ?_⟩⟩
      · rw [hdimension]
        decide
      · rw [hdimension]
        decide
      · rw [hcube]
        decide
      · rw [hswizzle, h.storage_swizzle]
        decide
      · rw [uintDescriptor_specialized, huint, (h.uint_null ha).1, (h.uint_null ha).2,
          specializedImage_kept.2.2.1]
        cases im.atomic with
        | false => exact .inl rfl
        | true => exact .inr ⟨rfl, rfl⟩
      · rw [specializedImage_kept.2.2.2.1, (h.uint_null ha).1, (h.uint_null ha).2]
        rintro ⟨hdepth, hatomic⟩
        nomatch ((h.uintDescriptor_depth (d := a) hdepth).2.symm.trans hatomic)
  · apply specialization_ne_of_dimension
    rw [specializedImage_null ha, specializedImage_typed hnull]
    dsimp only
    rw [descriptorDimension_eq, harray]
    decide

theorem TrackedImage.forget_plain (ha : nullImageDescriptor a = false)
    (harray : im.dimension.isArray = true) (htype : a.imageType.toNat ∈ [8, 9, 14])
    (hfits : Fits images (specializedImage im a) a) :
    ∃ b : DescriptorValue, b.dword_count = 8 ∧ Fits images (specializedImage im a) b ∧
      (specializedImage im b).specialization ≠ (specializedImage im a).specialization := by
  obtain ⟨further, hlt, hcube, hplain, hsame, hother⟩ : ∃ further, a.imageType.toNat + further < 16 ∧
      (a.imageType.toNat + further ≠ 11 ∧ a.imageType.toNat ≠ 11) ∧
      (dimensionOf a.imageType.toNat true).isArray = false ∧
      dimensionOf (a.imageType.toNat + further) false = dimensionOf a.imageType.toNat true ∧
      dimensionOf (a.imageType.toNat + further) true ≠ dimensionOf a.imageType.toNat true := by
    simp only [List.mem_cons, List.not_mem_nil, or_false] at htype
    obtain htype | htype | htype := htype
    · rw [htype]
      exact ⟨4, by decide⟩
    · rw [htype]
      exact ⟨4, by decide⟩
    · rw [htype]
      exact ⟨1, by decide⟩
  have hnull : nullImageDescriptor (a.retype further) = false := by rw [retype_null, ha]
  have hdimension : (specializedImage im a).dimension = dimensionOf a.imageType.toNat true := by
    rw [specializedImage_typed ha, ← harray]
    rfl
  obtain ⟨hknown, hown, hcube', hformat⟩ := hfits.typed ha
  rw [hown] at hknown
  refine ⟨a.retype further, rfl, ⟨?_, fun h' => absurd (hnull.symm.trans h') (by decide),
    fun _ => ⟨?_, ?_, ?_, fun hkind => ?_⟩⟩, ?_⟩
  · rw [retype_mip hlt]
    exact hfits.mip_count
  · rw [hdimension] at hknown ⊢
    rw [descriptorDimension_eq, retype_imageType hlt, hplain, hsame]
    exact hknown
  · rw [hdimension, descriptorDimension_eq, retype_imageType hlt, hplain, hsame]
  · rw [← hcube', descriptorIsCube_eq, descriptorIsCube_eq, retype_imageType hlt]
    simp [hcube.1, hcube.2]
  · rw [retype_swizzle hlt, retype_uint]
    exact hformat hkind
  · apply specialization_ne_of_dimension
    rw [hdimension, specializedImage_typed hnull]
    rw [descriptorDimension_eq, retype_imageType hlt, harray]
    exact hother

theorem TrackedImage.forget_swizzle (h : TrackedImage im) (hroot : im.indirect_root = none)
    (hforgotten : SwizzleForgotten im a) : Fits images (specializedImage im a) emptyDescriptor ∧
      (specializedImage im emptyDescriptor).specialization ≠
        (specializedImage im a).specialization := by
  obtain ⟨hstorage, ha, hne, hmip, hdimension, hplain⟩ := hforgotten
  have hnull : nullImageDescriptor emptyDescriptor = true := by decide
  constructor
  · refine ⟨?_, fun _ => ?_, fun h' => nomatch (hnull.symm.trans h')⟩
    · rw [storageMipCount_specialized, specializedImage_mip_count, hmip, storageMipCount_null hnull]
      exact ⟨by decide, rfl⟩
    · unfold NullFits
      rw [specializedImage_kept.2.2.2.2.1, hroot, specializedImage_typed ha]
      exact ⟨hdimension, not_cube_of_dim2D hdimension, h.canonical_of_plain hplain⟩
  · intro heq
    have hswizzle := congrArg (fun fields => fields.2.2.2.2) heq
    rw [specializedImage_null hnull, specializedImage_typed ha] at hswizzle
    simp only [ImageResource.specialization, hstorage, if_true] at hswizzle
    exact hne hswizzle.symm

end MagnusPS5.Shader.ResourceSpecialization
