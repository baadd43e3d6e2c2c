/-
When a specialization is right for the snapshot it was made for, and for others.

Validation reads the resources of the specialized program as if they were those that were
asked for. It refuses what specialization lets pass (`DepthRefused`), and it takes an array
for a plain image where the plain image was all that specialization has left
(`ArrayForgotten`). With image tables it reads the program that has an image for each
candidate, so that what it takes is no snapshot of the original program.
-/
import MagnusPS5.Shader.ResourceFamilies

namespace MagnusPS5.Shader.ResourceSpecialization

open Lib List Option ResourceSnapshot

/-! ## Statements -/

/-- What resource tracking leaves: images that no table has expanded, each with an instruction
that uses it, which samples only images that are not stored to. -/
structure Tracked (program : Program) : Prop where
  images : ∀ image ∈ program.info.images, TrackedImage image ∧ image.indirect_root = none
  used : ∀ values ∈ program.values, ∀ (i : ℕ) (image : ImageResource),
    program.info.images[i]? = some image → ∃ inst ∈ values.image_insts,
      ∃ memory ∈ values.memory_info[inst.index]?, memory.resource = i ∧
        (inst.op = .imageSampleRaw → image.kind = .image)

/-- What specialization decides about the resources of a program. -/
def ShaderInfo.specialization (info : ShaderInfo) :
    List (ImageDimension × ResourceKind × Bool × Word × Word) × List (Word × Word × Word) ×
      List (BitVec 64) :=
  (info.images.map ImageResource.specialization,
    info.buffers.map fun buffer =>
      (buffer.packed_stride, buffer.descriptor_format, buffer.descriptor_swizzle),
    info.addresses.map AddressResource.specialized_base)

/-- A descriptor that a snapshot has for an image of the program. -/
def Offers (program : Program) (snapshot : ResourceSnapshot) (image : ImageResource)
    (descriptor : DescriptorValue) : Prop :=
  (∃ i : ℕ, program.info.images[i]? = some image ∧ snapshot.images[i]? = some descriptor) ∨
    ∃ table ∈ snapshot.indirect_images, program.info.images[table.resource]? = some image ∧
      ∃ candidate ∈ table.descriptors, candidate.val = descriptor

/-- A comparison of depths with unsigned integers. -/
def DepthRefused (image : ImageResource) (descriptor : DescriptorValue) : Prop :=
  nullImageDescriptor descriptor = false ∧ image.depth_compare = true ∧
    isUintTextureFormat descriptor.imageFormat = true

/-- When the specialization of a program is right for its own snapshot and for others: the
snapshot has no image tables, and no image that is refused or forgotten. -/
def Meets (program : Program) (snapshot : ResourceSnapshot) : Prop :=
  snapshot.indirect_images = [] ∧
    ∀ (i : ℕ) (image : ImageResource) (descriptor : DescriptorValue),
      program.info.images[i]? = some image → snapshot.images[i]? = some descriptor →
        ¬ DepthRefused image descriptor ∧
          ¬ ArrayForgotten image descriptor ∧ ¬ SwizzleForgotten image descriptor

/-! ## What the functions check -/

variable {program : Program} {snapshot : ResourceSnapshot} {images : List ImageResource}
  {memory_info : List MemoryInfo} {values : ValueProgram} {expansion : Expansion} {α β γ : Type}
  {xs : List α} {ys : List β} {g : α × β → γ}

section Checks

variable {program' : Program} {snapshot' : ResourceSnapshot}

/-- The conditions of `validateResourceSnapshot`. -/
structure Valid (program : Program) (values : ValueProgram) (snapshot : ResourceSnapshot) :
    Prop where
  tracked : program.resource_tracking_complete = true
  buffers : snapshot.buffers.length = program.info.buffers.length
  images : snapshot.images.length = program.info.images.length
  samplers : snapshot.samplers.length = program.info.samplers
  addresses : snapshot.addresses.length = program.info.addresses.length
  flattened : snapshot.flattened_srt.length =
    flattenedRuntimeDwords program.info.images values.srt_reads
  user_data : program.binding_layout_complete = true → ∀ reg ∈ program.user_data_registers,
    program.user_data_base ≤ reg ∧ reg - program.user_data_base < snapshot.user_data.length
  image_alias : ∀ buffer ∈ program.info.buffers, ∀ image ∈ buffer.image_alias,
    image < program.info.images.length
  binds : ∀ address ∈ snapshot.addresses, address.binding_base ≤ address.guest_base
  tables : checkIndirectImages program values snapshot [] snapshot.indirect_images = .ok ()
  buffer_width : ∀ value ∈ snapshot.buffers, value.dword_count = 4
  image_width : ∀ value ∈ snapshot.images, value.dword_count = 8
  sampler_width : ∀ value ∈ snapshot.samplers, value.dword_count = 4

variable {u : Unit}

theorem checkWidth_eq_ok {width : ℕ} {error : ℕ → Error} {values : List DescriptorValue} :
    checkWidth width error values = .ok u ↔ ∀ value ∈ values, value.dword_count = width :=
  forEach_check 0 values u

theorem checkUserData_eq_ok :
    checkUserData program snapshot = .ok u ↔
      (program.binding_layout_complete = true → ∀ reg ∈ program.user_data_registers,
        program.user_data_base ≤ reg ∧
          reg - program.user_data_base < snapshot.user_data.length) := by
  unfold checkUserData
  split
  next hlayout =>
    rw [forEach_check]
    exact ⟨fun h _ => h, fun h => h hlayout⟩
  next hlayout =>
    exact ⟨fun _ h => absurd h hlayout, fun _ => rfl⟩

theorem validateResourceSnapshot_eq_ok :
    validateResourceSnapshot program snapshot = .ok u ↔
      ∃ values, program.values = some values ∧ Valid program values snapshot := by
  unfold validateResourceSnapshot
  simp only [bind_eq_ok, check_eq_ok]
  cases hvalues : program.values with
  | none => simp
  | some values =>
    simp only [bind_eq_ok, check_eq_ok, checkUserData_eq_ok, forEach_check, checkWidth_eq_ok]
    constructor
    · rintro ⟨_, htracked, _, ⟨hb, hi, hs, ha⟩, _, hflattened, _, huser, _, halias, _, hbinds, _,
        htables, _, hbw, _, hiw, hsw⟩
      exact ⟨values, rfl, htracked, hb, hi, hs, ha, hflattened, huser, halias, hbinds, htables, hbw,
        hiw, hsw⟩
    · rintro ⟨_, heq, h⟩
      cases heq
      exact ⟨(), h.tracked, (), ⟨h.buffers, h.images, h.samplers, h.addresses⟩, (), h.flattened, (),
        h.user_data, (), h.image_alias, (), h.binds, (), h.tables, (), h.buffer_width, (),
        h.image_width, h.sampler_width⟩

/-- A buffer of the program has what its descriptor says. -/
def BufferFits (buffer : BufferResource) (descriptor : DescriptorValue) : Prop :=
  buffer.packed_stride = packedStride descriptor ∧
    buffer.descriptor_format = bufferFormat descriptor ∧
    buffer.descriptor_swizzle = dstSelXYZW descriptor

/-- The conditions of `validateResourceSpecialization`. -/
structure Accepts (program : Program) (snapshot : ResourceSnapshot) : Prop where
  valid : ∃ values, program.values = some values ∧ Valid program values snapshot
  tables : snapshot.indirect_images = []
  buffers : ∀ entry ∈ program.info.buffers.zip snapshot.buffers, BufferFits entry.1 entry.2
  images : ∀ entry ∈ program.info.images.zip snapshot.images,
    Fits program.info.images entry.1 entry.2
  addresses : ∀ entry ∈ program.info.addresses.zip snapshot.addresses,
    entry.1.specialized_base = addressSpecialization entry.1 entry.2

theorem validateBuffer_eq_ok (i : ℕ) (entry : BufferResource × DescriptorValue) (u : Unit) :
    validateBuffer i entry = .ok u ↔
      entry.2.dword_count = 4 ∧ BufferFits entry.1 entry.2 := by
  unfold validateBuffer
  simp only [bind_eq_ok, check_eq_ok, exists_const]
  rfl

theorem validateResourceSpecialization_eq_ok :
    validateResourceSpecialization program snapshot = .ok u ↔ Accepts program snapshot := by
  unfold validateResourceSpecialization
  simp only [bind_eq_ok, check_eq_ok, validateResourceSnapshot_eq_ok, forEach_check,
    forEach_eq_ok validateBuffer_eq_ok,
    forEach_eq_ok (P := fun entry : ImageResource × DescriptorValue =>
      Fits program.info.images entry.1 entry.2) fun i _ u => validateImage_eq_ok i u]
  constructor
  · rintro ⟨_, hvalid, _, htables, _, hbuffers, _, himages, haddresses⟩
    exact ⟨hvalid, htables, fun entry hentry => (hbuffers entry hentry).2, himages, haddresses⟩
  · intro h
    obtain ⟨values, -, hvalid⟩ := h.valid
    refine ⟨(), h.valid, (), h.tables, (), fun entry hentry => ⟨?_, h.buffers entry hentry⟩, (),
      h.images, h.addresses⟩
    exact hvalid.buffer_width _ (of_mem_zip hentry).2

/-! ## Specialization, step by step -/

/-- A buffer as its descriptor has it. -/
def specializedBuffer (buffer : BufferResource) (descriptor : DescriptorValue) : BufferResource :=
  { buffer with
    packed_stride := packedStride descriptor
    descriptor_format := bufferFormat descriptor
    descriptor_swizzle := dstSelXYZW descriptor }

theorem specializeBuffer_eq_ok (i : ℕ) (entry : BufferResource × DescriptorValue)
    (buffer : BufferResource) :
    specializeBuffer i entry = .ok buffer ↔
      entry.2.dword_count = 4 ∧ buffer = specializedBuffer entry.1 entry.2 := by
  unfold specializeBuffer
  simp only [bind_eq_ok, check_eq_ok, Except.ok.injEq, exists_const]
  rw [eq_comm (b := buffer)]
  rfl

/-- What `specializeImage` checks. -/
def Specializable (image : ImageResource) (descriptor : DescriptorValue) : Prop :=
  storageMipCount image descriptor ≠ 0 ∧
    (nullImageDescriptor descriptor = true ∨
      descriptorDimension descriptor image.dimension ≠ .unknown)

theorem specializeImage_eq_ok (i : ℕ) (entry : ImageResource × DescriptorValue)
    (image : ImageResource) :
    specializeImage i entry = .ok image ↔
      Specializable entry.1 entry.2 ∧ image = specializedImage entry.1 entry.2 := by
  unfold specializeImage Specializable
  simp only [bind_eq_ok, check_eq_ok, Except.ok.injEq, exists_const]
  rw [eq_comm (b := image), and_assoc]

/-- The resource that a memory operation names. -/
def resourceAt (memory_info : List MemoryInfo) (index : ℕ) : Option ℕ :=
  memory_info[index]?.map MemoryInfo.resource

theorem patchMemory_isOk {insts : List ImageInst} :
    (∃ patched, patchMemory images memory_info insts = .ok patched) ↔
      ∀ inst ∈ insts, ∃ resource ∈ resourceAt memory_info inst.index, ∃ image ∈ images[resource]?,
        image.indirect_root = some resource → inst.op = .imageSampleRaw := by
  induction insts generalizing memory_info with
  | nil => exact ⟨fun _ => forall_mem_nil _, fun _ => ⟨memory_info, rfl⟩⟩
  | cons inst insts ih =>
    unfold patchMemory
    cases hmemory : memory_info[inst.index]? with
    | none =>
      simp [resourceAt, hmemory]
    | some memory =>
      cases himage : images[memory.resource]? with
      | none => simp [resourceAt, hmemory, himage]
      | some image =>
        simp only [bind_eq_ok, check_eq_ok, himage]
        have hresource (index : ℕ) :
            resourceAt (memory_info.set inst.index (memory.ofImage image)) index =
              resourceAt memory_info index := by
          unfold resourceAt
          rw [getElem?_set]
          split
          next heq =>
            rw [← heq, hmemory, if_pos (List.getElem?_eq_some_iff.mp hmemory).1]
            rfl
          · rfl
        have hrest := @ih (memory_info.set inst.index (memory.ofImage image))
        simp only [hresource] at hrest
        rw [forall_mem_cons, ← hrest]
        constructor
        · rintro ⟨patched, _, hsample, hpatched⟩
          exact ⟨⟨memory.resource, by simp [resourceAt, hmemory], image, himage, hsample⟩,
            patched, hpatched⟩
        · rintro ⟨⟨resource, hat, other, hother, hsample⟩, patched, hpatched⟩
          obtain rfl : memory.resource = resource := by
            simpa [resourceAt, hmemory] using hat
          cases himage.symm.trans hother
          exact ⟨patched, (), hsample, hpatched⟩

/-- The images of an expansion as their descriptors have them. -/
def Expansion.specialized (expansion : Expansion) : List ImageResource :=
  (expansion.images.zip expansion.descriptors).map fun entry => specializedImage entry.1 entry.2

/-- The steps of a specialization that succeeds. -/
structure Steps (program : Program) (snapshot : ResourceSnapshot) (values : ValueProgram)
    (expansion : Expansion) (images : List ImageResource) (memory_info : List MemoryInfo) :
    Prop where
  early : program.shader_info_complete = false ∧ program.binding_layout_complete = false
  ready : program.values = some values
  valid : Valid program values snapshot
  expands : expandTables ⟨program.info.images, snapshot.images, snapshot.flattened_srt⟩
    snapshot.indirect_images = .ok expansion
  specializable : ∀ entry ∈ expansion.images.zip expansion.descriptors,
    Specializable entry.1 entry.2
  unifies : unifyFamilies expansion.descriptors expansion.flattened_srt.length
    expansion.specialized (List.range expansion.specialized.length) = .ok images
  patches : patchMemory images values.memory_info values.image_insts = .ok memory_info

/-- The program behind these steps. -/
def specializedProgram (program : Program) (snapshot : ResourceSnapshot) (values : ValueProgram)
    (images : List ImageResource) (memory_info : List MemoryInfo) : Program :=
  { program with
    info := { program.info with
      buffers := (program.info.buffers.zip snapshot.buffers).map fun entry =>
        specializedBuffer entry.1 entry.2
      images := images
      addresses := (program.info.addresses.zip snapshot.addresses).map fun entry =>
        { entry.1 with specialized_base := addressSpecialization entry.1 entry.2 } }
    values := some { values with memory_info := memory_info } }

/-- The snapshot behind these steps. -/
def specializedSnapshot (snapshot : ResourceSnapshot) (expansion : Expansion) : ResourceSnapshot :=
  { snapshot with
    images := expansion.descriptors
    flattened_srt := expansion.flattened_srt
    indirect_images := [] }

theorem specializeResources_eq_ok {result : Program × ResourceSnapshot} :
    specializeResources program snapshot = .ok result ↔
      ∃ values expansion images memory_info,
        Steps program snapshot values expansion images memory_info ∧
        result = (specializedProgram program snapshot values images memory_info,
          specializedSnapshot snapshot expansion) := by
  unfold specializeResources
  simp only [bind_eq_ok, check_eq_ok, validateResourceSnapshot_eq_ok,
    mapEach_eq_ok specializeBuffer_eq_ok, mapEach_eq_ok specializeImage_eq_ok]
  constructor
  · rintro ⟨_, htracked, _, hearly, _, ⟨values, hvalues, hvalid⟩, expansion, hexpansion, buffers,
      ⟨hwidths, rfl⟩, images, ⟨hspecializable, rfl⟩, final, hfinal, h⟩
    rw [hvalues] at h
    simp only [bind_eq_ok, Except.ok.injEq] at h
    obtain ⟨memory_info, hmemory, rfl⟩ := h
    exact ⟨values, expansion, final, memory_info,
      ⟨hearly, hvalues, hvalid, hexpansion, hspecializable, hfinal, hmemory⟩, rfl⟩
  · rintro ⟨values, expansion, images, memory_info, h, rfl⟩
    refine ⟨(), h.valid.tracked, (), h.early, (), ⟨values, h.ready, h.valid⟩, expansion, h.expands,
      _, ⟨fun entry hentry => h.valid.buffer_width _ (of_mem_zip hentry).2, rfl⟩, _,
      ⟨h.specializable, rfl⟩, images, h.unifies, ?_⟩
    rw [h.ready]
    simp only [bind_eq_ok, Except.ok.injEq]
    exact ⟨memory_info, h.patches, rfl⟩

end Checks

/-! ## The snapshot of the specialization -/

variable {image : ImageResource} {descriptor : DescriptorValue}

section Own

section

variable (h : Steps program snapshot values expansion images memory_info)

include h

theorem Steps.expanded (ht : Tracked program) :
    ∃ all, Expanded program snapshot values.srt_reads all expansion ∧
      ∀ table, table ∈ all ↔ table ∈ snapshot.indirect_images := by
  have hroots (image : ImageResource) (himage : image ∈ program.info.images) :=
    (ht.images image himage).2
  obtain ⟨all, hall, hmem⟩ := (expanded_start hroots h.valid.images h.valid.flattened).addAll hroots
    (tablesFit_of_ok h.valid.tables) (forall_mem_nil _) h.expands
  exact ⟨all, hall, fun table => (hmem table).trans (by simp)⟩

theorem Steps.unified (hlengths : expansion.images.length = expansion.descriptors.length) :
    images.length = expansion.images.length ∧
      Stays expansion.descriptors expansion.specialized images
        (range expansion.specialized.length) ∧
      ∀ r, (∃ root ∈ expansion.specialized[r]?, root.indirect_root = some r) →
        FamilyOf expansion.descriptors expansion.specialized images r := by
  have hspecialized : expansion.specialized.length = expansion.images.length := by
    simp [Expansion.specialized, hlengths]
  obtain ⟨hlength, hstays, hfamilies⟩ := unifyFamilies_spec (hspecialized.trans hlengths)
    nodup_range h.unifies
  refine ⟨hlength.trans hspecialized, hstays, fun r hroot => hfamilies r ?_ hroot⟩
  obtain ⟨root, hroot, -⟩ := hroot
  exact List.mem_range.mpr (List.getElem?_eq_some_iff.mp hroot).1

end

variable {j : ℕ}

theorem specialized_getElem? (himage : expansion.images[j]? = some image)
    (hdescriptor : expansion.descriptors[j]? = some descriptor) :
    expansion.specialized[j]? = some (specializedImage image descriptor) := by
  have hzip : (expansion.images.zip expansion.descriptors)[j]? = some (image, descriptor) :=
    getElem?_zip_eq_some.mpr ⟨himage, hdescriptor⟩
  unfold Expansion.specialized
  rw [getElem?_map, hzip]
  rfl

variable {all : List IndirectImage} {last : ImageResource}

theorem tracked_origin (ht : Tracked program)
    (he : Expanded program snapshot values.srt_reads all expansion)
    (himage : expansion.images[j]? = some image)
    (hdescriptor : expansion.descriptors[j]? = some descriptor) : TrackedImage image := by
  obtain ⟨-, hplain, -⟩ | ⟨table, -, -, ⟨root, hroot, hbase⟩, -⟩ :=
    he.origin j image descriptor himage hdescriptor
  · exact (ht.images image (mem_of_getElem? hplain)).1
  · exact (ht.images root (mem_of_getElem? hroot)).1.of_base hbase

variable {table : IndirectImage}

theorem Steps.family_mip_mode (h : Steps program snapshot values expansion images memory_info)
    (ht : Tracked program) (he : Expanded program snapshot values.srt_reads all expansion)
    (htable : table ∈ all) {root : ImageResource}
    (hroot : program.info.images[table.resource]? = some root) : root.mip_mode = .none := by
  obtain ⟨hlength, hstays, -⟩ := h.unified he.lengths
  obtain ⟨image, himage, hself⟩ := he.root table htable
  have hlt : table.resource < expansion.descriptors.length :=
    he.lengths ▸ (List.getElem?_eq_some_iff.mp himage).1
  obtain ⟨last, hlast, hkept, -, -⟩ := hstays _ _ _
    (specialized_getElem? himage (getElem?_eq_getElem hlt)) (getElem?_eq_getElem hlt)
  have hlastRoot : last.indirect_root = some table.resource := by
    rw [hkept.indirect_root, specializedImage_kept.2.2.2.2.1, hself]
  -- an instruction uses the image, and samples it
  obtain ⟨inst, hinst, memory, hmemory, hresource, hsample⟩ :=
    ht.used values h.ready table.resource root hroot
  obtain ⟨resource, hat, other, hother, honly⟩ :=
    patchMemory_isOk.mp ⟨memory_info, h.patches⟩ inst hinst
  obtain rfl : memory.resource = resource := by
    simpa [resourceAt, mem_def.mp hmemory] using hat
  rw [hresource] at hother honly
  cases Eq.trans (Eq.symm hother) hlast
  have hkind := hsample (honly hlastRoot)
  cases hmode : root.mip_mode with
  | none => rfl
  | dynamicStorage =>
    have hstorage := (ht.images root (mem_of_getElem? hroot)).1.mip_mode hmode
    rw [hkind] at hstorage
    nomatch hstorage

theorem ImageResource.sameBinding.common {a b c : ImageResource} (ha : a.sameBinding c)
    (hb : b.sameBinding c) : a.sameBinding b := by
  obtain ⟨h1, h2, h3, h4, h5, h6⟩ := ha
  obtain ⟨h1', h2', h3', h4', h5', h6'⟩ := hb
  exact ⟨h1.trans h1'.symm, h2.trans h2'.symm, h3.trans h3'.symm, h4.trans h4'.symm,
    h5.trans h5'.symm, h6.trans h6'.symm⟩

section

variable (h : Steps program snapshot values expansion images memory_info)

include h

section

variable (ht : Tracked program) (he : Expanded program snapshot values.srt_reads all expansion)

include ht he

theorem Steps.family_fits (htable : table ∈ all) (himage : expansion.images[j]? = some image)
    (hdescriptor : expansion.descriptors[j]? = some descriptor) (hlast : images[j]? = some last)
    (hfamily : image.indirect_root = some table.resource)
    (hnull : nullImageDescriptor descriptor = true) : Fits images last descriptor := by
  obtain ⟨hlength, hstays, hfamilies⟩ := h.unified he.lengths
  have hat {k : ℕ} {image : ImageResource} (himage : expansion.images[k]? = some image) :
      ∃ descriptor, expansion.descriptors[k]? = some descriptor := by
    have hlt : k < expansion.descriptors.length :=
      he.lengths ▸ (List.getElem?_eq_some_iff.mp himage).1
    exact ⟨_, getElem?_eq_getElem hlt⟩
  obtain ⟨root, hroot, hself⟩ := he.root table htable
  obtain ⟨root_descriptor, hroot_descriptor⟩ := hat hroot
  obtain ⟨e, image_class, class_descriptor, hclass, hclass_descriptor, htyped, hclass_root, hmembers⟩ :=
    hfamilies table.resource ⟨_, specialized_getElem? hroot hroot_descriptor, by
      rw [specializedImage_kept.2.2.2.2.1, hself]⟩
  obtain ⟨last', hlast', hbinding⟩ := hmembers j _ (specialized_getElem? himage hdescriptor)
    (by rw [specializedImage_kept.2.2.2.2.1, hfamily])
  cases Eq.trans (Eq.symm hlast) hlast'
  obtain ⟨root', hroot', hroot_binding⟩ := hmembers table.resource _
    (specialized_getElem? hroot hroot_descriptor)
    (by rw [specializedImage_kept.2.2.2.2.1, hself])
  -- the class has one level
  have hcount : image_class.mip_count = 1 := by
    have hlt : e < expansion.images.length := by
      rw [he.lengths]
      exact (List.getElem?_eq_some_iff.mp hclass_descriptor).1
    have hsource := getElem?_eq_getElem hlt
    obtain rfl := some.inj
      (Eq.trans (Eq.symm (specialized_getElem? hsource hclass_descriptor)) hclass)
    rw [specializedImage_kept.2.2.2.2.1] at hclass_root
    rw [specializedImage_mip_count]
    obtain ⟨hnone, -⟩ | ⟨other, hother, hother_root, ⟨source, hsource', hbase⟩, -⟩ :=
      he.origin e _ _ hsource hclass_descriptor
    · rw [hnone] at hclass_root
      nomatch hclass_root
    · have hmode := h.family_mip_mode ht he hother hsource'
      have hmode' : (expansion.images[e]).mip_mode = .none := by
        exact (mip_mode_of_base hbase).trans hmode
      unfold storageMipCount
      rw [if_pos (.inl (by rw [hmode']; decide))]
  have hlast_root : last.indirect_root = some table.resource := by
    obtain ⟨same, hsame, hkept, -, -⟩ := hstays j _ _ (specialized_getElem? himage hdescriptor)
      hdescriptor
    cases Eq.trans (Eq.symm hlast) hsame
    rw [hkept.indirect_root, specializedImage_kept.2.2.2.2.1, hfamily]
  refine ⟨?_, fun _ => ?_, fun htyped => nomatch (hnull.symm.trans htyped)⟩
  · rw [storageMipCount_null hnull, hbinding.2.2.2.1, hcount]
    exact ⟨by decide, rfl⟩
  · unfold NullFits
    rw [hlast_root]
    exact ⟨root', hroot', hroot_binding.common hbinding⟩

/-- **An image fits its own descriptor**, unless it compares the depths of unsigned integers. -/
theorem Steps.fits_iff (himage : expansion.images[j]? = some image)
    (hdescriptor : expansion.descriptors[j]? = some descriptor) (hlast : images[j]? = some last) :
    Fits images last descriptor ↔ ¬ DepthRefused image descriptor := by
  obtain ⟨-, hstays, -⟩ := h.unified he.lengths
  obtain ⟨same, hsame, -, htyped, hother⟩ :=
    hstays j _ _ (specialized_getElem? himage hdescriptor) hdescriptor
  cases Eq.trans (Eq.symm hlast) hsame
  have htracked := tracked_origin ht he himage hdescriptor
  have hzip : (expansion.images.zip expansion.descriptors)[j]? = some (image, descriptor) :=
    getElem?_zip_eq_some.mpr ⟨himage, hdescriptor⟩
  obtain ⟨hmip, hknown⟩ := h.specializable _ (mem_of_getElem? hzip)
  have hcount : storageMipCount (specializedImage image descriptor) descriptor ≠ 0 ∧
      storageMipCount (specializedImage image descriptor) descriptor =
        (specializedImage image descriptor).mip_count := by
    rw [storageMipCount_specialized, specializedImage_mip_count]
    exact ⟨hmip, rfl⟩
  cases hnull : nullImageDescriptor descriptor with
  | false =>
    have hfits := htracked.typedFits hnull (hknown.resolve_left (by simp [hnull]))
    have hrefused : DepthRefused image descriptor ↔
        image.depth_compare = true ∧ isUintTextureFormat descriptor.imageFormat = true :=
      ⟨fun h => h.2, fun h => ⟨hnull, h⟩⟩
    rw [htyped hnull, hrefused, ← hfits]
    exact ⟨fun h => h.typed hnull, fun h => ⟨hcount,
      fun hnull' => absurd (hnull.symm.trans hnull') (by decide), fun _ => h⟩⟩
  | true =>
    have haccepted : ¬ DepthRefused image descriptor := fun h =>
      absurd (h.1.symm.trans hnull) (by decide)
    refine ⟨fun _ => haccepted, fun _ => ?_⟩
    obtain ⟨hnone, -⟩ | ⟨table, htable, hfamily, -⟩ := he.origin j image descriptor himage hdescriptor
    · have hplain : last = specializedImage image descriptor := hother fun r _ hr => by
        rw [specializedImage_kept.2.2.2.2.1, hnone] at hr
        nomatch hr
      rw [hplain]
      exact ⟨hcount, fun _ => htracked.nullFits hnone hnull images,
        fun htyped => nomatch (hnull.symm.trans htyped)⟩
    · exact h.family_fits ht he htable himage hdescriptor hlast hfamily hnull

end

theorem Steps.offers_iff (he : Expanded program snapshot values.srt_reads all expansion)
    (hall : ∀ table, table ∈ all ↔ table ∈ snapshot.indirect_images) :
    (∀ image descriptor, Offers program snapshot image descriptor →
        ¬ DepthRefused image descriptor) ↔
      ∀ (j : ℕ) image descriptor, expansion.images[j]? = some image →
        expansion.descriptors[j]? = some descriptor → ¬ DepthRefused image descriptor := by
  have hsame {image image' : ImageResource} (hbase : image.base = image'.base)
      (descriptor : DescriptorValue) :
      DepthRefused image descriptor ↔ DepthRefused image' descriptor := by
    unfold DepthRefused
    rw [depth_compare_of_base hbase]
  constructor
  · intro hoffers j image descriptor himage hdescriptor
    obtain ⟨-, hplain, hown⟩ | ⟨table, htable, -, ⟨root, hroot, hbase⟩, candidate, hcandidate, rfl⟩ :=
      he.origin j image descriptor himage hdescriptor
    · exact hoffers image descriptor (.inl ⟨j, hplain, hown⟩)
    · rw [hsame hbase]
      exact hoffers root candidate.val
        (.inr ⟨table, (hall table).mp htable, hroot, candidate, hcandidate, rfl⟩)
  · intro hexpansion image descriptor hoffer
    -- a candidate of a table has an image of the family
    have hcandidate {table : IndirectImage} (htable : table ∈ snapshot.indirect_images)
        (hroot : program.info.images[table.resource]? = some image) {candidate : ImageDescriptor}
        (hmem : candidate ∈ table.descriptors) : ¬ DepthRefused image candidate.val := by
      obtain ⟨j, member, hmember, hdescriptor, hfamily⟩ :=
        he.member table ((hall table).mpr htable) candidate hmem
      obtain ⟨hnone, -⟩ | ⟨other, -, hother, ⟨root, hroot', hbase⟩, -⟩ :=
        he.origin j member candidate.val hmember hdescriptor
      · rw [hnone] at hfamily
        nomatch hfamily
      · rw [some.inj (hother.symm.trans hfamily)] at hroot'
        cases Eq.trans (Eq.symm hroot) hroot'
        rw [← hsame hbase]
        exact hexpansion j member candidate.val hmember hdescriptor
    obtain ⟨i, himage, hdescriptor⟩ | ⟨table, htable, hroot, candidate, hmem, rfl⟩ := hoffer
    · by_cases hfree : ∀ table ∈ all, table.resource ≠ i
      · obtain ⟨himage', hdescriptor'⟩ :=
          he.rest i (List.getElem?_eq_some_iff.mp himage).1 hfree
        exact hexpansion i image descriptor (himage'.trans himage) (hdescriptor'.trans hdescriptor)
      · push Not at hfree
        obtain ⟨table, htable, rfl⟩ := hfree
        obtain ⟨candidate, hmem, hown⟩ :=
          (tablesFit_of_ok h.valid.tables).own table ((hall table).mp htable)
        cases hdescriptor.symm.trans hown
        exact hcandidate ((hall table).mp htable) himage hmem
    · exact hcandidate htable hroot hmem

theorem Steps.source (hlengths : expansion.images.length = expansion.descriptors.length)
    (hlast : images[j]? = some last) : ∃ image descriptor, expansion.images[j]? = some image ∧
      expansion.descriptors[j]? = some descriptor ∧ Kept image last := by
  obtain ⟨hlength, hstays, -⟩ := h.unified hlengths
  have hj : j < expansion.images.length := by
    rw [← hlength]
    exact (List.getElem?_eq_some_iff.mp hlast).1
  have himage := getElem?_eq_getElem hj
  have hdescriptor := getElem?_eq_getElem (hlengths ▸ hj)
  obtain ⟨same, hsame, hkept, -, -⟩ := hstays j _ _ (specialized_getElem? himage hdescriptor)
    hdescriptor
  cases Eq.trans (Eq.symm hlast) hsame
  have hsource (image : ImageResource) (descriptor : DescriptorValue) :
      Kept image (specializedImage image descriptor) := by
    obtain ⟨hmode, -, -, -, hroot, hoffset, hcapacity, -⟩ :=
      @specializedImage_kept image descriptor
    exact ⟨hmode, hroot, hoffset, hcapacity⟩
  exact ⟨_, _, himage, hdescriptor, (hsource _ _).trans hkept⟩

end

theorem mappingEnd_of_kept (h : Kept image last) (j : ℕ) :
    mappingEnd j last = mappingEnd j image := by
  unfold mappingEnd
  rw [h.indirect_root, h.indirect_mapping_offset, h.indirect_mapping_capacity]

theorem Steps.valid_specialized (h : Steps program snapshot values expansion images memory_info)
    (he : Expanded program snapshot values.srt_reads all expansion) :
    Valid (specializedProgram program snapshot values images memory_info)
      { values with memory_info := memory_info } (specializedSnapshot snapshot expansion) := by
  obtain ⟨hlength, hstays, -⟩ := h.unified he.lengths
  have hv := h.valid
  refine
    { tracked := hv.tracked
      buffers := by simp [specializedProgram, specializedSnapshot, hv.buffers]
      images := hlength.symm ▸ he.lengths.symm
      samplers := hv.samplers
      addresses := by simp [specializedProgram, specializedSnapshot, hv.addresses]
      flattened := (flattenedRuntimeDwords_eq he.srt ?_ (he.attained.imp_right ?_)).symm
      user_data := fun hlayout => nomatch (h.early.2.symm.trans hlayout)
      image_alias := ?_
      binds := hv.binds
      tables := rfl
      buffer_width := hv.buffer_width
      image_width := ?_
      sampler_width := hv.sampler_width }
  · intro j last hlast
    obtain ⟨image, descriptor, himage, -, hkept⟩ := h.source he.lengths hlast
    rw [mappingEnd_of_kept hkept]
    exact he.mapping_le j image himage
  · rintro ⟨j, image, himage, hend⟩
    have hj : j < images.length := by
      rw [hlength]
      exact (List.getElem?_eq_some_iff.mp himage).1
    obtain ⟨image', -, himage', -, hkept⟩ := h.source he.lengths (getElem?_eq_getElem hj)
    cases himage.symm.trans himage'
    exact ⟨j, _, getElem?_eq_getElem hj, (mappingEnd_of_kept hkept j).trans hend⟩
  · intro buffer hbuffer image halias
    obtain ⟨⟨source, descriptor⟩, hsource, rfl⟩ := mem_map.mp hbuffer
    have hlt := hv.image_alias source (of_mem_zip hsource).1 image halias
    exact lt_of_lt_of_le hlt (hlength.symm ▸ le_trans (Nat.le_add_right _ _) he.covers)
  · intro descriptor hdescriptor
    obtain ⟨j, hj⟩ := mem_iff_getElem?.mp hdescriptor
    have hlt : j < expansion.images.length := by
      rw [he.lengths]
      exact (List.getElem?_eq_some_iff.mp hj).1
    obtain ⟨-, -, hown⟩ | ⟨table, -, -, -, candidate, -, rfl⟩ :=
      he.origin j _ descriptor (getElem?_eq_getElem hlt) hj
    · exact hv.image_width _ (mem_of_getElem? hown)
    · exact candidate.property

theorem mem_zip_map_zip {δ : Type} {zs : List δ}
    {entry : γ × δ} (h : entry ∈ ((xs.zip ys).map g).zip zs) :
    ∃ (j : ℕ) (x : α) (y : β) (z : δ), xs[j]? = some x ∧ ys[j]? = some y ∧ zs[j]? = some z ∧
      entry = (g (x, y), z) := by
  obtain ⟨j, hj⟩ := mem_iff_getElem?.mp h
  obtain ⟨hleft, hright⟩ := getElem?_zip_eq_some.mp hj
  rw [getElem?_map, map_eq_some_iff] at hleft
  obtain ⟨⟨x, y⟩, hpair, hg⟩ := hleft
  obtain ⟨hx, hy⟩ := getElem?_zip_eq_some.mp hpair
  exact ⟨j, x, y, entry.2, hx, hy, hright, Prod.ext hg.symm rfl⟩

/-- **A specialization fits its own snapshot** if it compares no depths of unsigned integers. -/
theorem Steps.accepts_iff (h : Steps program snapshot values expansion images memory_info)
    (ht : Tracked program) :
    Accepts (specializedProgram program snapshot values images memory_info)
        (specializedSnapshot snapshot expansion) ↔
      ∀ image descriptor, Offers program snapshot image descriptor →
        ¬ DepthRefused image descriptor := by
  obtain ⟨all, he, hall⟩ := h.expanded ht
  obtain ⟨hlength, -, -⟩ := h.unified he.lengths
  rw [h.offers_iff he hall]
  constructor
  · intro haccepts j image descriptor himage hdescriptor
    have hj : j < images.length := by
      rw [hlength]
      exact (List.getElem?_eq_some_iff.mp himage).1
    have hlast := getElem?_eq_getElem hj
    have hzip : (images.zip expansion.descriptors)[j]? = some (images[j], descriptor) :=
      getElem?_zip_eq_some.mpr ⟨hlast, hdescriptor⟩
    exact (h.fits_iff ht he himage hdescriptor hlast).mp (haccepts.images _ (mem_of_getElem? hzip))
  · intro hrefused
    refine ⟨⟨_, rfl, h.valid_specialized he⟩, rfl, ?_, ?_, ?_⟩
    · intro entry hentry
      obtain ⟨j, buffer, descriptor, descriptor', -, hdescriptor, hdescriptor', rfl⟩ :=
        mem_zip_map_zip hentry
      cases hdescriptor.symm.trans hdescriptor'
      exact ⟨rfl, rfl, rfl⟩
    · intro entry hentry
      obtain ⟨j, hj⟩ := mem_iff_getElem?.mp hentry
      obtain ⟨hlast, hdescriptor⟩ := getElem?_zip_eq_some.mp hj
      obtain ⟨image, descriptor, himage, hdescriptor', -⟩ := h.source he.lengths hlast
      exact (h.fits_iff ht he himage hdescriptor hlast).mpr (hrefused j image _ himage hdescriptor)
    · intro entry hentry
      obtain ⟨j, address, bound, bound', -, hbound, hbound', rfl⟩ := mem_zip_map_zip hentry
      cases hbound.symm.trans hbound'
      rfl

end Own

/-! ## Other snapshots -/

section Other

variable {other : ResourceSnapshot}

theorem zip_map_congr {zs : List β} (hy : ys.length = xs.length) (hz : zs.length = xs.length)
    (h : ∀ (j : ℕ) x y z, xs[j]? = some x → ys[j]? = some y → zs[j]? = some z →
      g (x, z) = g (x, y)) : (xs.zip zs).map g = (xs.zip ys).map g := by
  refine ext_getElem (by simp [hy, hz]) fun j hj hj' => ?_
  rw [length_map, length_zip] at hj hj'
  rw [getElem_map, getElem_map, getElem_zip, getElem_zip]
  exact h j _ _ _ (getElem?_eq_getElem _) (getElem?_eq_getElem _) (getElem?_eq_getElem _)

theorem unifyFamilies_of_no_root {descriptors : List DescriptorValue} {flattened_dwords : ℕ}
    (hroots : ∀ image ∈ images, image.indirect_root = none) (roots : List ℕ) :
    unifyFamilies descriptors flattened_dwords images roots = .ok images := by
  induction roots with
  | nil => rfl
  | cons r roots ih =>
    have hskip : unifyFamily descriptors flattened_dwords images r = .ok images := by
      unfold unifyFamily
      split
      · rfl
      next root hroot =>
        rw [if_pos (by rw [hroots root (mem_of_getElem? hroot)]; exact nofun)]
    unfold unifyFamilies
    rw [hskip]
    exact ih

/-- The program and the snapshot themselves, for a snapshot without tables. -/
def plainExpansion (program : Program) (snapshot : ResourceSnapshot) : Expansion :=
  ⟨program.info.images, snapshot.images, snapshot.flattened_srt⟩

theorem plain_no_root (ht : Tracked program) :
    ∀ image ∈ (plainExpansion program snapshot).specialized, image.indirect_root = none := by
  intro image himage
  obtain ⟨⟨source, descriptor⟩, hsource, rfl⟩ := mem_map.mp himage
  rw [specializedImage_kept.2.2.2.2.1]
  exact (ht.images source (of_mem_zip hsource).1).2

theorem Steps.plain (h : Steps program snapshot values expansion images memory_info)
    (ht : Tracked program) (hnone : snapshot.indirect_images = []) :
    expansion = plainExpansion program snapshot ∧
      images = (plainExpansion program snapshot).specialized := by
  have hexpansion : expansion = plainExpansion program snapshot := by
    have hexpands := h.expands
    rw [hnone] at hexpands
    exact (Except.ok.inj hexpands).symm
  have hunifies := h.unifies
  rw [hexpansion, unifyFamilies_of_no_root (plain_no_root ht)] at hunifies
  exact ⟨hexpansion, (Except.ok.inj hunifies).symm⟩

theorem steps_plain (ht : Tracked program) (hnone : other.indirect_images = [])
    (hearly : program.shader_info_complete = false ∧ program.binding_layout_complete = false)
    (hready : program.values = some values) (hvalid : Valid program values other)
    (hspecializable : ∀ entry ∈ program.info.images.zip other.images,
      Specializable entry.1 entry.2)
    (hpatches : patchMemory (plainExpansion program other).specialized values.memory_info
      values.image_insts = .ok memory_info) :
    Steps program other values (plainExpansion program other)
      (plainExpansion program other).specialized memory_info :=
  { early := hearly
    ready := hready
    valid := hvalid
    expands := by rw [hnone]; rfl
    specializable := hspecializable
    unifies := unifyFamilies_of_no_root (plain_no_root ht) _
    patches := hpatches }

/-- **Reuse.** A snapshot that is accepted is specialized for in the same way. -/
theorem Steps.reuse (h : Steps program snapshot values expansion images memory_info)
    (ht : Tracked program) (hnone : snapshot.indirect_images = [])
    (hmeets : ∀ (i : ℕ) (image : ImageResource) (descriptor : DescriptorValue),
      program.info.images[i]? = some image → snapshot.images[i]? = some descriptor →
        ¬ ArrayForgotten image descriptor ∧ ¬ SwizzleForgotten image descriptor)
    (hvalid : Valid program values other)
    (haccepts : Accepts (specializedProgram program snapshot values images memory_info) other) :
    ∃ result, specializeResources program other = .ok result ∧
      result.1.info = (specializedProgram program snapshot values images memory_info).info := by
  obtain ⟨rfl, rfl⟩ := h.plain ht hnone
  have hv := h.valid
  have hreuse (j : ℕ) (image : ImageResource) (a b : DescriptorValue)
      (himage : program.info.images[j]? = some image) (ha : snapshot.images[j]? = some a)
      (hb : other.images[j]? = some b) :
      Specializable image b ∧ specializedImage image b = specializedImage image a := by
    obtain ⟨htracked, hroot⟩ := ht.images image (mem_of_getElem? himage)
    obtain ⟨harray, hswizzle⟩ := hmeets j image a himage ha
    have hzip : (program.info.images.zip snapshot.images)[j]? = some (image, a) :=
      getElem?_zip_eq_some.mpr ⟨himage, ha⟩
    have hspecialized : (plainExpansion program snapshot).specialized[j]? =
        some (specializedImage image a) := specialized_getElem? himage ha
    have hentry : ((plainExpansion program snapshot).specialized.zip other.images)[j]? =
        some (specializedImage image a, b) := getElem?_zip_eq_some.mpr ⟨hspecialized, hb⟩
    obtain ⟨hmip, hknown, hsame⟩ := htracked.reuse hroot
      (h.specializable _ (mem_of_getElem? hzip)).2 harray hswizzle
      (haccepts.images _ (mem_of_getElem? hentry))
    exact ⟨⟨hmip, hknown⟩, hsame⟩
  have himages : (plainExpansion program other).specialized =
      (plainExpansion program snapshot).specialized :=
    zip_map_congr hv.images hvalid.images fun j image a b himage ha hb =>
      (hreuse j image a b himage ha hb).2
  have hspecializable : ∀ entry ∈ program.info.images.zip other.images,
      Specializable entry.1 entry.2 := by
    intro entry hentry
    obtain ⟨j, hj⟩ := mem_iff_getElem?.mp hentry
    obtain ⟨himage, hb⟩ := getElem?_zip_eq_some.mp hj
    have hlt : j < snapshot.images.length := by
      rw [hv.images]
      exact (List.getElem?_eq_some_iff.mp himage).1
    exact (hreuse j _ _ _ himage (getElem?_eq_getElem hlt) hb).1
  have hsteps := steps_plain ht haccepts.tables h.early h.ready hvalid hspecializable
    (himages.symm ▸ h.patches)
  refine ⟨_, specializeResources_eq_ok.mpr ⟨_, _, _, _, hsteps, rfl⟩, ?_⟩
  have hbuffers : (program.info.buffers.zip other.buffers).map
        (fun entry => specializedBuffer entry.1 entry.2) =
      (program.info.buffers.zip snapshot.buffers).map
        fun entry => specializedBuffer entry.1 entry.2 := by
    refine zip_map_congr hv.buffers hvalid.buffers fun j buffer a b hbuffer ha hb => ?_
    have hzip : (program.info.buffers.zip snapshot.buffers)[j]? = some (buffer, a) :=
      getElem?_zip_eq_some.mpr ⟨hbuffer, ha⟩
    have hmap : ((program.info.buffers.zip snapshot.buffers).map fun entry =>
        specializedBuffer entry.1 entry.2)[j]? = some (specializedBuffer buffer a) := by
      rw [getElem?_map, hzip]
      rfl
    have hentry : (((program.info.buffers.zip snapshot.buffers).map fun entry =>
        specializedBuffer entry.1 entry.2).zip other.buffers)[j]? =
        some (specializedBuffer buffer a, b) := getElem?_zip_eq_some.mpr ⟨hmap, hb⟩
    obtain ⟨hstride, hformat, hswizzle⟩ := haccepts.buffers _ (mem_of_getElem? hentry)
    dsimp only [specializedBuffer] at hstride hformat hswizzle ⊢
    rw [hstride, hformat, hswizzle]
  have haddresses : (program.info.addresses.zip other.addresses).map
        (fun entry => { entry.1 with
          specialized_base := addressSpecialization entry.1 entry.2 : AddressResource }) =
      (program.info.addresses.zip snapshot.addresses).map
        fun entry => { entry.1 with
          specialized_base := addressSpecialization entry.1 entry.2 } := by
    refine zip_map_congr hv.addresses hvalid.addresses fun j address a b haddress ha hb => ?_
    have hzip : (program.info.addresses.zip snapshot.addresses)[j]? = some (address, a) :=
      getElem?_zip_eq_some.mpr ⟨haddress, ha⟩
    have hmap : ((program.info.addresses.zip snapshot.addresses).map fun entry =>
        { entry.1 with
          specialized_base := addressSpecialization entry.1 entry.2 : AddressResource })[j]? =
        some { address with specialized_base := addressSpecialization address a } := by
      rw [getElem?_map, hzip]
      rfl
    have hentry : (((program.info.addresses.zip snapshot.addresses).map fun entry =>
        { entry.1 with
          specialized_base := addressSpecialization entry.1 entry.2 : AddressResource }).zip
        other.addresses)[j]? =
        some ({ address with specialized_base := addressSpecialization address a }, b) :=
      getElem?_zip_eq_some.mpr ⟨hmap, hb⟩
    have hbase := haccepts.addresses _ (mem_of_getElem? hentry)
    dsimp only [addressSpecialization] at hbase ⊢
    rw [hbase]
  unfold specializedProgram
  rw [hbuffers, haddresses, himages]

/-- A snapshot with another descriptor for one image. -/
def ResourceSnapshot.setImage (snapshot : ResourceSnapshot) (i : ℕ) (descriptor : DescriptorValue) :
    ResourceSnapshot :=
  { snapshot with images := snapshot.images.set i descriptor }

theorem Valid.setImage (h : Valid program values snapshot) (hnone : snapshot.indirect_images = [])
    (i : ℕ) (hwidth : descriptor.dword_count = 8) :
    Valid program values (snapshot.setImage i descriptor) :=
  { h with
    images := by simpa [ResourceSnapshot.setImage] using h.images
    tables := by
      unfold ResourceSnapshot.setImage
      rw [hnone]
      rfl
    image_width := fun value hvalue => by
      obtain hvalue | rfl := mem_or_eq_of_mem_set hvalue
      · exact h.image_width value hvalue
      · exact hwidth }

section

variable (h : Steps program snapshot values expansion images memory_info) (ht : Tracked program)

include h ht

/-- **What is forgotten is accepted.** A snapshot is accepted that is not specialized for in the
same way. -/
theorem Steps.forgotten (hnone : snapshot.indirect_images = [])
    (hown : Accepts (specializedProgram program snapshot values images memory_info)
      (specializedSnapshot snapshot expansion)) {i : ℕ} {a : DescriptorValue}
    (himage : program.info.images[i]? = some image) (ha : snapshot.images[i]? = some a)
    (hforgotten : ArrayForgotten image a ∨ SwizzleForgotten image a) :
    ∃ other, Accepts (specializedProgram program snapshot values images memory_info) other ∧
      ∀ result, specializeResources program other = .ok result →
        result.1.info.specialization ≠
          (specializedProgram program snapshot values images memory_info).info.specialization := by
  obtain ⟨rfl, rfl⟩ := h.plain ht hnone
  obtain ⟨htracked, hroot⟩ := ht.images image (mem_of_getElem? himage)
  have hspecialized : (plainExpansion program snapshot).specialized[i]? =
      some (specializedImage image a) := specialized_getElem? himage ha
  have hentry : ((plainExpansion program snapshot).specialized.zip snapshot.images)[i]? =
      some (specializedImage image a, a) := getElem?_zip_eq_some.mpr ⟨hspecialized, ha⟩
  have hfits : Fits (plainExpansion program snapshot).specialized (specializedImage image a) a :=
    hown.images _ (mem_of_getElem? hentry)
  obtain ⟨b, hwidth, hfits', hdiffers⟩ : ∃ b : DescriptorValue, b.dword_count = 8 ∧
      Fits (plainExpansion program snapshot).specialized (specializedImage image a) b ∧
      (specializedImage image b).specialization ≠ (specializedImage image a).specialization := by
    obtain ⟨harray, hnull | htype⟩ | hswizzle := hforgotten
    · obtain ⟨hfits', hdiffers⟩ := htracked.forget_null hnull harray
      exact ⟨arrayDescriptor, rfl, hfits', hdiffers⟩
    · cases hnull : nullImageDescriptor a with
      | true =>
        obtain ⟨hfits', hdiffers⟩ := htracked.forget_null hnull harray
        exact ⟨arrayDescriptor, rfl, hfits', hdiffers⟩
      | false => exact TrackedImage.forget_plain hnull harray htype hfits
    · obtain ⟨hfits', hdiffers⟩ := htracked.forget_swizzle hroot hswizzle
      exact ⟨emptyDescriptor, rfl, hfits', hdiffers⟩
  have hi : i < snapshot.images.length := (List.getElem?_eq_some_iff.mp ha).1
  have hset : (snapshot.setImage i b).images[i]? = some b := by
    unfold setImage
    rw [getElem?_set, if_pos rfl, if_pos hi]
  obtain ⟨values', hvalues', hvalid'⟩ := hown.valid
  have hplain : specializedSnapshot snapshot (plainExpansion program snapshot) = snapshot := by
    unfold specializedSnapshot plainExpansion
    rw [← hnone]
  rw [hplain] at hown hvalid'
  refine ⟨snapshot.setImage i b, ⟨⟨values', hvalues', hvalid'.setImage hnone i hwidth⟩, hnone,
    hown.buffers, ?_, hown.addresses⟩, ?_⟩
  · intro entry hentry
    obtain ⟨j, hj⟩ := mem_iff_getElem?.mp hentry
    obtain ⟨hlast, hdescriptor⟩ := getElem?_zip_eq_some.mp hj
    by_cases heq : j = i
    · subst heq
      have hfirst : entry.1 = specializedImage image a :=
        some.inj (hlast.symm.trans hspecialized)
      have hsecond : entry.2 = b := some.inj (hdescriptor.symm.trans hset)
      rw [hfirst, hsecond]
      exact hfits'
    · have hkept : snapshot.images[j]? = some entry.2 := by
        rw [← hdescriptor]
        exact (getElem?_set_ne (Ne.symm heq)).symm
      have hzip : ((plainExpansion program snapshot).specialized.zip snapshot.images)[j]? =
          some (entry.1, entry.2) := getElem?_zip_eq_some.mpr ⟨hlast, hkept⟩
      exact hown.images _ (mem_of_getElem? hzip)
  · intro result hresult heq
    obtain ⟨values'', expansion, images, memory_info', hsteps, rfl⟩ :=
      specializeResources_eq_ok.mp hresult
    obtain ⟨rfl, rfl⟩ := hsteps.plain ht hnone
    have himages := congrArg (fun fields => fields.1[i]?) heq
    have hother : (plainExpansion program (snapshot.setImage i b)).specialized[i]? =
        some (specializedImage image b) := specialized_getElem? himage hset
    simp only [ShaderInfo.specialization, specializedProgram, getElem?_map, hother,
      hspecialized, map_some, some.injEq] at himages
    exact hdiffers himages

theorem Steps.grows (htables : snapshot.indirect_images ≠ []) :
    program.info.images.length < images.length := by
  obtain ⟨all, he, hall⟩ := h.expanded ht
  obtain ⟨hlength, -, -⟩ := h.unified he.lengths
  obtain ⟨table, htable⟩ := exists_mem_of_ne_nil _ htables
  have hpos := length_pos_of_mem ((hall table).mpr htable)
  have hcovers := he.covers
  omega

/-- **With image tables the specialized program takes no snapshot of the original one.** It has
an image for every candidate. -/
theorem Steps.not_valid (htables : snapshot.indirect_images ≠ []) {values' : ValueProgram}
    (haccepts : Accepts (specializedProgram program snapshot values images memory_info) other) :
    ¬ Valid program values' other := by
  intro hvalid
  obtain ⟨_, -, hspecialized⟩ := haccepts.valid
  have hmore : other.images.length = images.length := hspecialized.images
  rw [hvalid.images] at hmore
  exact absurd hmore (Nat.ne_of_lt (h.grows ht htables))

/-- Without image tables, what the specialized program takes is a snapshot of the original one:
specialization changes no count of a resource. -/
theorem Steps.valid_other (hnone : snapshot.indirect_images = [])
    (haccepts : Accepts (specializedProgram program snapshot values images memory_info) other) :
    Valid program values other := by
  obtain ⟨all, he, -⟩ := h.expanded ht
  have hown := h.valid_specialized he
  obtain ⟨rfl, rfl⟩ := h.plain ht hnone
  obtain ⟨values', hvalues', hother⟩ := haccepts.valid
  cases hvalues'
  have hv := h.valid
  have hbuffers := hother.buffers
  have haddresses := hother.addresses
  simp only [specializedProgram, length_map, length_zip, hv.buffers, hv.addresses,
    Nat.min_self] at hbuffers haddresses
  have hflattened : flattenedRuntimeDwords (plainExpansion program snapshot).specialized
      values.srt_reads = flattenedRuntimeDwords program.info.images values.srt_reads :=
    hown.flattened.symm.trans hv.flattened
  exact
    { tracked := hother.tracked
      buffers := hbuffers
      images := hother.images.trans (hown.images.symm.trans hv.images)
      samplers := hother.samplers
      addresses := haddresses
      flattened := hother.flattened.trans hflattened
      user_data := hother.user_data
      image_alias := hv.image_alias
      binds := hother.binds
      tables := by
        rw [haccepts.tables]
        rfl
      buffer_width := hother.buffer_width
      image_width := hother.image_width
      sampler_width := hother.sampler_width }

end

end Other

/-- **Specialization reuse.** A specialized program fits the snapshot it was specialized for, and
every snapshot that it accepts would have specialized the original program in the same way, if and
only if there are no image tables, no depths of unsigned integers are compared, and no array and no
swizzle is forgotten. -/
theorem specialization_reuse {program specialized : Program} {snapshot snapshot' : ResourceSnapshot}
    (ht : Tracked program)
    (h : specializeResources program snapshot = .ok (specialized, snapshot')) :
    (validateResourceSpecialization specialized snapshot' = .ok () ∧
      ∀ other, validateResourceSpecialization specialized other = .ok () →
        ∃ result, specializeResources program other = .ok result ∧
          result.1.info.specialization = specialized.info.specialization) ↔
      Meets program snapshot := by
  obtain ⟨values, expansion, images, memory_info, hsteps, heq⟩ := specializeResources_eq_ok.mp h
  cases heq
  simp only [validateResourceSpecialization_eq_ok]
  constructor
  · rintro ⟨hown, hothers⟩
    -- the snapshot that the specialization leaves is an accepted one
    have hnone : snapshot.indirect_images = [] := by
      by_contra htables
      obtain ⟨result, hresult, -⟩ := hothers _ hown
      obtain ⟨_, _, _, _, hagain, -⟩ := specializeResources_eq_ok.mp hresult
      exact hsteps.not_valid ht htables hown hagain.valid
    refine ⟨hnone, fun i image descriptor himage hdescriptor => ⟨?_, ?_⟩⟩
    · exact (hsteps.accepts_iff ht).mp hown image descriptor (.inl ⟨i, himage, hdescriptor⟩)
    · by_contra hforgotten
      obtain ⟨other, haccepts, hdiffers⟩ := hsteps.forgotten ht hnone hown himage hdescriptor
        (by tauto)
      obtain ⟨result, hresult, hsame⟩ := hothers other haccepts
      exact hdiffers result hresult hsame
  · rintro ⟨hnone, hmeets⟩
    refine ⟨(hsteps.accepts_iff ht).mpr ?_, fun other haccepts => ?_⟩
    · rintro image descriptor (⟨i, himage, hdescriptor⟩ | ⟨table, htable, -⟩)
      · exact (hmeets i image descriptor himage hdescriptor).1
      · rw [hnone] at htable
        exact absurd htable not_mem_nil
    · have hvalid := hsteps.valid_other ht hnone haccepts
      obtain ⟨result, hresult, hinfo⟩ := hsteps.reuse ht hnone
        (fun i image descriptor himage hdescriptor =>
          (hmeets i image descriptor himage hdescriptor).2) hvalid haccepts
      exact ⟨result, hresult, by rw [hinfo]⟩

/-- A program that samples one image. -/
def samplingProgram (dimension : ImageDimension) : Program where
  resource_tracking_complete := true
  shader_info_complete := false
  binding_layout_complete := false
  user_data_base := 0
  user_data_registers := []
  info :=
    { buffers := []
      images :=
        [{ source := 0, kind := .image, dimension := dimension, mip_mode := .none, mip_count := 1
           storage_swizzle := storageImageIdentitySwizzle, read := true, atomic := false
           depth_compare := false, cube := false, indirect_root := none
           indirect_mapping_offset := 0, indirect_mapping_capacity := 0
           indirect_resources := [] }]
      samplers := 0
      addresses := [] }
  values := some
    { descriptor_sources := [false]
      srt_reads := 0
      memory_info :=
        [{ resource := 0, kind := .image, image_dimension := dimension, image_cube := false }]
      image_insts := [⟨.imageSampleRaw, 0⟩] }

/-- A snapshot with one image of a type, in the format `k8UNorm`. -/
def imageSnapshot (type : Word) : ResourceSnapshot where
  buffers := []
  images := [⟨#v[1, 0x00100000, 0, type <<< 28, 0, 0, 0, 0], 8⟩]
  samplers := []
  addresses := []
  flattened_srt := []
  user_data := []
  indirect_images := []

theorem samplingProgram_tracked (dimension : ImageDimension) :
    Tracked (samplingProgram dimension) where
  images image himage := by
    obtain rfl := mem_singleton.mp himage
    exact ⟨⟨.inl ⟨.inl rfl, rfl⟩, nofun, nofun, rfl⟩, rfl⟩
  used values hvalues i image himage := by
    cases hvalues
    refine ⟨_, mem_singleton_self _, _, rfl, ?_, fun _ => ?_⟩
    · have hi := (List.getElem?_eq_some_iff.mp himage).1
      exact (Nat.lt_one_iff.mp hi).symm
    · obtain rfl := mem_singleton.mp (mem_of_getElem? himage)
      rfl

/-- A plain image, sampled as one. -/
theorem specialization_reuse_plain :
    (validateResourceSpecialization (samplingProgram .dim2D) (imageSnapshot 9) = .ok () ∧
      ∀ other, validateResourceSpecialization (samplingProgram .dim2D) other = .ok () →
        ∃ result, specializeResources (samplingProgram .dim2D) other = .ok result ∧
          result.1.info.specialization = (samplingProgram .dim2D).info.specialization) ↔
      Meets (samplingProgram .dim2D) (imageSnapshot 9) :=
  specialization_reuse (samplingProgram_tracked .dim2D) (by decide)

/-- An array of images that was specialized for a plain image is reused for an array. -/
theorem specialization_reuse_array :
    ¬ ∀ (program specialized : Program) (snapshot snapshot' : ResourceSnapshot), Tracked program →
      specializeResources program snapshot = .ok (specialized, snapshot') →
      validateResourceSpecialization specialized snapshot' = .ok () ∧
        ∀ other, validateResourceSpecialization specialized other = .ok () →
          ∃ result, specializeResources program other = .ok result ∧
            result.1.info.specialization = specialized.info.specialization := by
  intro h
  have hplain : specializeResources (samplingProgram .dim2DArray) (imageSnapshot 9) =
      .ok (samplingProgram .dim2D, imageSnapshot 9) := by decide
  have hother : specializeResources (samplingProgram .dim2DArray) (imageSnapshot 13) =
      .ok (samplingProgram .dim2DArray, imageSnapshot 13) := by decide
  obtain ⟨-, hreuse⟩ := h _ _ _ _ (samplingProgram_tracked .dim2DArray) hplain
  obtain ⟨result, hresult, hsame⟩ := hreuse (imageSnapshot 13) (by decide)
  cases hother.symm.trans hresult
  exact nomatch (congrArg (fun fields => fields.1.map Prod.fst) hsame)

end MagnusPS5.Shader.ResourceSpecialization
