/-
Specialization of a shader program for the resources it is run with
(`ResourceMaterialization.cpp`).

`SpecializeResources` writes what the descriptors of a snapshot say of their shape and
format into the resources of the program, before code is emitted for it.
`ValidateResourceSpecialization` decides if the code fits the descriptors of another
snapshot. A table of images that the shader indexes becomes a family of images: its root,
and one more image for each further descriptor.

Of a program and a snapshot the model keeps what these functions read. Register and slot
numbers are naturals, an index that may be missing is an option.
-/
import MagnusPS5.Lib.Checks

namespace MagnusPS5.Shader.ResourceSpecialization

open Lib

abbrev Word := BitVec 32

/-! ## Programs -/

inductive ImageDimension
  | unknown | dim1D | dim1DArray | dim2D | dim3D | dim2DArray | dim2DMsaa | dim2DMsaaArray
  deriving DecidableEq

inductive ResourceKind
  | none | scalarBuffer | scalarAddress | buffer | flat | global | scratch | lds | gds
  | image | imageUint | storageImage | storageImageUint | sampler
  deriving DecidableEq

inductive ImageMipMode
  | none | dynamicStorage
  deriving DecidableEq

structure BufferResource where
  packed_stride : Word
  descriptor_format : Word
  descriptor_swizzle : Word
  image_alias : Option ℕ
  deriving DecidableEq

structure ImageResource where
  source : ℕ
  kind : ResourceKind
  dimension : ImageDimension
  mip_mode : ImageMipMode
  mip_count : Word
  storage_swizzle : Word
  read : Bool
  atomic : Bool
  depth_compare : Bool
  cube : Bool
  indirect_root : Option ℕ
  indirect_mapping_offset : ℕ
  indirect_mapping_capacity : ℕ
  indirect_resources : List ℕ
  deriving DecidableEq

structure AddressResource where
  kind : ResourceKind
  unbased : Bool
  specialized_base : BitVec 64
  deriving DecidableEq

structure ShaderInfo where
  buffers : List BufferResource
  images : List ImageResource
  /-- the number of samplers -/
  samplers : ℕ
  addresses : List AddressResource
  deriving DecidableEq

/-- The opcodes of `IsImageOp`. -/
inductive ImageOp
  | imageQueryDimensions | imageQueryLod | imageRead | imageWrite | imageSampleRaw
  | imageGatherRaw | imageAtomicIAdd32 | imageAtomicUMin32 | imageAtomicUMax32
  | imageAtomicAnd32 | imageAtomicOr32 | imageAtomicXor32
  deriving DecidableEq

/-- An image instruction, with the index of its `MemoryInfo`. -/
structure ImageInst where
  op : ImageOp
  index : ℕ
  deriving DecidableEq

structure MemoryInfo where
  resource : ℕ
  kind : ResourceKind
  image_dimension : ImageDimension
  image_cube : Bool
  deriving DecidableEq

structure ValueProgram where
  /-- of each descriptor source, if it is an indirect image -/
  descriptor_sources : List Bool
  /-- the number of SRT reads -/
  srt_reads : ℕ
  memory_info : List MemoryInfo
  image_insts : List ImageInst
  deriving DecidableEq

structure Program where
  resource_tracking_complete : Bool
  shader_info_complete : Bool
  binding_layout_complete : Bool
  user_data_base : ℕ
  user_data_registers : List ℕ
  info : ShaderInfo
  values : Option ValueProgram
  deriving DecidableEq

def maxImages : ℕ := 32

def storageImageIdentitySwizzle : Word := 0x00000fac

/-! ## Snapshots -/

structure DescriptorValue where
  dwords : Vector Word 8
  dword_count : ℕ
  deriving DecidableEq

/-- A descriptor of an image table, which always has eight dwords. -/
abbrev ImageDescriptor := { descriptor : DescriptorValue // descriptor.dword_count = 8 }

structure Address where
  guest_base : BitVec 64
  binding_base : BitVec 64
  deriving DecidableEq

structure IndirectImage where
  resource : ℕ
  capacity : ℕ
  keys : List Word
  candidates : List ℕ
  descriptors : List ImageDescriptor
  deriving DecidableEq

structure ResourceSnapshot where
  buffers : List DescriptorValue
  images : List DescriptorValue
  samplers : List DescriptorValue
  addresses : List Address
  flattened_srt : List Word
  user_data : List Word
  indirect_images : List IndirectImage
  deriving DecidableEq

/-- Why a snapshot or a program is refused, with the resource that the message names. -/
inductive Error
  | notTracked | specializationTooLate | ssaNotReady
  | topology | flattenedSrt
  | missingUserSgpr (reg : ℕ)
  | imageAlias (buffer : ℕ)
  | bindsAbove (address : ℕ)
  | indirectSnapshot | indirectCandidate | indirectRoot
  | bufferWidth (index : ℕ) | imageWidth (index : ℕ) | samplerWidth (index : ℕ)
  | notSpecialized
  | bufferChanged (index : ℕ)
  | mipRangeChanged (image : ℕ)
  | nullIndirectChanged (image : ℕ)
  | nullChanged (image : ℕ)
  | dimensionChanged (image : ℕ)
  | swizzleChanged (image : ℕ)
  | formatChanged (image : ℕ)
  | depthCompare (image : ℕ)
  | addressChanged (address : ℕ)
  | imageLimit
  | mipRange (image : ℕ)
  | imageType (image : ℕ)
  | keyMapping | candidateResource | noTypedCandidate | incompatibleCandidates
  | memoryMetadata (index : ℕ)
  | memoryResource (resource : ℕ)
  | indirectUse (op : ImageOp)
  deriving DecidableEq

/-! ## Image descriptors -/

namespace DescriptorValue

variable (descriptor : DescriptorValue)

/-- A field of one dword. -/
def bits (dword : Word) (shift mask : ℕ) : Word := (dword >>> shift) &&& BitVec.ofNat 32 mask

/-- The `Prospero::ImageType` of an image. -/
def imageType : Word := bits descriptor.dwords[3] 28 0xf

/-- The `Prospero::BufferFormat` of an image. -/
def imageFormat : Word := bits descriptor.dwords[1] 20 0x1ff

end DescriptorValue

/-- An array image was asked for. -/
def ImageDimension.isArray : ImageDimension → Bool
  | .dim1DArray | .dim2DArray | .dim2DMsaaArray => true
  | _ => false

variable (descriptor : DescriptorValue)

def descriptorDimension (requested : ImageDimension) : ImageDimension :=
  match descriptor.imageType.toNat with
  | 8 => .dim1D
  | 12 => if requested.isArray then .dim1DArray else .dim1D
  | 10 => .dim3D
  | 11 => .dim2DArray
  | 13 => if requested.isArray then .dim2DArray else .dim2D
  | 15 => if requested.isArray then .dim2DMsaaArray else .dim2DMsaa
  | 9 => .dim2D
  | 14 => .dim2DMsaa
  | _ => .unknown

def nullImageDescriptor : Bool :=
  descriptor.dwords[0] == 0 && (descriptor.dwords[1] &&& 0xff) == 0

def validImageDescriptor : Bool :=
  let type := descriptor.imageType.toNat
  if type < 8 ∨ descriptor.imageFormat = 0 then false
  else if type = 14 ∨ type = 15 then
    let base_level := DescriptorValue.bits descriptor.dwords[3] 12 0xf
    let fragments := DescriptorValue.bits descriptor.dwords[3] 16 0xf
    let max_mip := DescriptorValue.bits descriptor.dwords[5] 4 0xf
    base_level == 0 && decide (1 ≤ fragments) && decide (fragments ≤ 3) && max_mip == fragments
  else true

def descriptorImageSwizzle : Word := descriptor.dwords[3] &&& 0xfff

def descriptorIsCube : Bool := descriptor.imageType == 11

variable (image : ImageResource)

variable (descriptor : DescriptorValue)

def storageMipCount : Word :=
  if image.mip_mode ≠ .dynamicStorage ∨ nullImageDescriptor descriptor then 1
  else
    let base := DescriptorValue.bits descriptor.dwords[3] 12 0xf
    let last := DescriptorValue.bits descriptor.dwords[3] 16 0xf
    if base ≤ last then last - base + 1 else 0

/-- `Prospero::IsUintTextureFormat`: `k8UInt`, `k16UInt`, `k8_8UInt`, `k32UInt`, `k16_16UInt`,
`k10_10_10_2UInt`, `k8_8_8_8UInt`, `k32_32UInt`, `k16_16_16_16UInt`, `k32_32_32UInt` and
`k32_32_32_32UInt`. -/
def isUintTextureFormat (format : Word) : Bool :=
  format.toNat ∈ [5, 11, 18, 20, 27, 54, 60, 62, 69, 72, 75]

/-- The storage images. -/
def ResourceKind.storage : ResourceKind → Bool
  | .storageImage | .storageImageUint => true
  | _ => false

/-- `uint_image` and `uint_descriptor`: the format reads as unsigned, or is `k32SInt` and is
only written. -/
def uintDescriptor : Bool :=
  isUintTextureFormat descriptor.imageFormat ||
    (image.kind.storage && descriptor.imageFormat == 21 && !image.read && !image.atomic)

/-! ## Buffers and addresses -/

structure ShaderBufferResource where
  fields : Vector Word 4
  deriving DecidableEq

def decodeBufferDescriptor : Option ShaderBufferResource :=
  if descriptor.dword_count = 4 then
    some ⟨#v[descriptor.dwords[0], descriptor.dwords[1], descriptor.dwords[2],
      descriptor.dwords[3]]⟩
  else none

def packedStride : Word :=
  DescriptorValue.bits descriptor.dwords[1] 16 0x3fff |||
    (DescriptorValue.bits descriptor.dwords[1] 31 1 <<< 14) |||
    (DescriptorValue.bits descriptor.dwords[3] 21 3 <<< 16) |||
    (DescriptorValue.bits descriptor.dwords[3] 23 1 <<< 20)

def bufferFormat : Word :=
  DescriptorValue.bits descriptor.dwords[3] 12 0x7f

def dstSelXYZW : Word :=
  DescriptorValue.bits descriptor.dwords[3] 0 0xfff

def addressSpecialization (resource : AddressResource) (snapshot : Address) : BitVec 64 :=
  if resource.kind = .flat ∨ resource.unbased then snapshot.binding_base
  else snapshot.guest_base - snapshot.binding_base

/-! ## Validation of a snapshot -/

/-- Where the key mapping of an indirect image ends, if the resource is the root of one. -/
def mappingEnd (resource : ℕ) (image : ImageResource) : ℕ :=
  if image.indirect_root = some resource then
    image.indirect_mapping_offset + 1 + image.indirect_mapping_capacity * 2
  else 0

variable (images : List ImageResource)

def flattenedRuntimeDwords (srt_reads : ℕ) : ℕ :=
  (images.zipIdx.map fun entry => mappingEnd entry.2 entry.1).foldl max srt_reads

def checkWidth (width : ℕ) (error : ℕ → Error) (values : List DescriptorValue) :
    Except Error Unit :=
  forEach (fun i value => check (value.dword_count = width) (error i)) 0 values

/-- The tables of a snapshot, with the resources that have one already. -/
def checkIndirectImages (program : Program) (values : ValueProgram) (snapshot : ResourceSnapshot) :
    List ℕ → List IndirectImage → Except Error Unit
  | _, [] => .ok ()
  | seen, table :: tables => do
      match program.info.images[table.resource]? with
      | none => .error .indirectSnapshot
      | some image => do
          check (values.descriptor_sources[image.source]? = some true ∧ image.indirect_root = none ∧
            table.keys ≠ [] ∧ table.keys.length = table.candidates.length ∧
            table.keys.length ≤ table.capacity ∧ table.descriptors ≠ [] ∧
            table.resource ∉ seen) .indirectSnapshot
          check (∀ candidate ∈ table.candidates, candidate < table.descriptors.length)
            .indirectCandidate
          check (snapshot.images[table.resource]? =
            (table.candidates[0]?.bind (table.descriptors[·]?)).map Subtype.val) .indirectRoot
          checkIndirectImages program values snapshot (table.resource :: seen) tables

variable (program : Program)

variable (snapshot : ResourceSnapshot)

/-- The snapshot has the user registers that a program with bindings reads. -/
def checkUserData : Except Error Unit :=
  if program.binding_layout_complete then
    forEach (fun _ reg => check (program.user_data_base ≤ reg ∧
      reg - program.user_data_base < snapshot.user_data.length) (.missingUserSgpr reg)) 0
      program.user_data_registers
  else .ok ()

def validateResourceSnapshot : Except Error Unit := do
  check (program.resource_tracking_complete = true) .notTracked
  check (snapshot.buffers.length = program.info.buffers.length ∧
    snapshot.images.length = program.info.images.length ∧
    snapshot.samplers.length = program.info.samplers ∧
    snapshot.addresses.length = program.info.addresses.length) .topology
  match program.values with
  | none => .error .flattenedSrt
  | some values => do
      check (snapshot.flattened_srt.length =
        flattenedRuntimeDwords program.info.images values.srt_reads) .flattenedSrt
      checkUserData program snapshot
      forEach (fun i buffer => check (∀ image ∈ buffer.image_alias,
        image < program.info.images.length) (.imageAlias i)) 0 program.info.buffers
      forEach (fun i address => check (address.binding_base ≤ address.guest_base)
        (.bindsAbove i)) 0 snapshot.addresses
      checkIndirectImages program values snapshot [] snapshot.indirect_images
      checkWidth 4 .bufferWidth snapshot.buffers
      checkWidth 8 .imageWidth snapshot.images
      checkWidth 4 .samplerWidth snapshot.samplers

/-! ## Validation of a specialization -/

variable (i : ℕ)

/-- The part of `ValidateResourceSpecialization` about one buffer. -/
def validateBuffer (entry : BufferResource × DescriptorValue) : Except Error Unit := do
  check (entry.2.dword_count = 4) (.bufferWidth i)
  check (entry.1.packed_stride = packedStride entry.2 ∧
    entry.1.descriptor_format = bufferFormat entry.2 ∧
    entry.1.descriptor_swizzle = dstSelXYZW entry.2) (.bufferChanged i)

/-- The fields that the images of one family share. -/
def ImageResource.sameBinding (root image : ImageResource) : Prop :=
  root.kind = image.kind ∧ root.dimension = image.dimension ∧ root.mip_mode = image.mip_mode ∧
    root.mip_count = image.mip_count ∧ root.storage_swizzle = image.storage_swizzle ∧
    root.cube = image.cube

instance (root image : ImageResource) : Decidable (root.sameBinding image) :=
  inferInstanceAs (Decidable (_ ∧ _))

/-- What is asked of an image that is bound to no memory: its root is of the same class, or it
has the class that all such images have. -/
def validateNullImage (image : ImageResource) : Except Error Unit :=
  match image.indirect_root with
  | some root =>
    check (∃ root_image ∈ images[root]?, root_image.sameBinding image) (.nullIndirectChanged i)
  | none =>
    check (image.dimension = .dim2D ∧ image.cube = false ∧
      if image.atomic then image.kind = .storageImageUint
      else image.kind = .image ∨ image.kind = .storageImage) (.nullChanged i)

/-- The kind of an image reads unsigned integers. -/
def ResourceKind.uint : ResourceKind → Bool
  | .imageUint | .storageImageUint => true
  | _ => false

/-- The kinds of images. -/
def ResourceKind.isImage : ResourceKind → Bool
  | .image | .imageUint | .storageImage | .storageImageUint => true
  | _ => false

/-- The part of `ValidateResourceSpecialization` about one image. -/
def validateImage (entry : ImageResource × DescriptorValue) : Except Error Unit := do
  let (image, descriptor) := entry
  let mip_count := storageMipCount image descriptor
  check (mip_count ≠ 0 ∧ mip_count = image.mip_count) (.mipRangeChanged i)
  if nullImageDescriptor descriptor then validateNullImage images i image
  else do
    let dimension := descriptorDimension descriptor image.dimension
    check (dimension ≠ .unknown ∧ dimension = image.dimension ∧
      descriptorIsCube descriptor = image.cube) (.dimensionChanged i)
    if image.kind.isImage then do
      check (image.kind.storage → image.storage_swizzle = descriptorImageSwizzle descriptor)
        (.swizzleChanged i)
      check (uintDescriptor image descriptor = image.kind.uint ∨ image.atomic ∧ image.kind.uint)
        (.formatChanged i)
      check (¬ (image.depth_compare ∧ image.kind.uint)) (.depthCompare i)
    else .ok ()

def validateResourceSpecialization : Except Error Unit := do
  validateResourceSnapshot program snapshot
  check (snapshot.indirect_images = []) .notSpecialized
  forEach validateBuffer 0 (program.info.buffers.zip snapshot.buffers)
  forEach (validateImage program.info.images) 0 (program.info.images.zip snapshot.images)
  forEach (fun i (entry : AddressResource × Address) =>
    check (entry.1.specialized_base = addressSpecialization entry.1 entry.2) (.addressChanged i)) 0
    (program.info.addresses.zip snapshot.addresses)

/-! ## Specialization -/

/-- The images and the snapshot that `SpecializeResources` builds. -/
structure Expansion where
  images : List ImageResource
  descriptors : List DescriptorValue
  flattened_srt : List Word

/-- The key mapping of a table: the number of keys, and the keys in order with their candidates. -/
def keyMapping (table : IndirectImage) : List Word :=
  let order := (List.range table.keys.length).mergeSort
    fun i j => decide (table.keys.getD i 0 ≤ table.keys.getD j 0)
  let entries := order.flatMap fun source =>
    [table.keys.getD source 0, BitVec.ofNat 32 (table.candidates.getD source 0)]
  let words := BitVec.ofNat 32 table.keys.length :: entries
  words ++ List.replicate (1 + table.capacity * 2 - words.length) 0

/-- A table of images becomes a family of them. -/
def expandTable (expansion : Expansion) (table : IndirectImage) : Except Error Expansion :=
  match expansion.images[table.resource]?, table.descriptors with
  | some root_image, first :: second :: rest => do
      let added := second :: rest
      check (expansion.images.length + added.length ≤ maxImages) .imageLimit
      let image := { root_image with indirect_root := some table.resource }
      let root := { image with
        indirect_mapping_offset := expansion.flattened_srt.length
        indirect_mapping_capacity := table.capacity
        indirect_resources := table.resource ::
          (List.range added.length).map (expansion.images.length + ·) }
      .ok
        { images := expansion.images.set table.resource root ++
            List.replicate added.length image
          descriptors := expansion.descriptors.set table.resource first.val ++
            added.map Subtype.val
          flattened_srt := expansion.flattened_srt ++ keyMapping table }
  | _, _ => .error .imageLimit

def expandTables : Expansion → List IndirectImage → Except Error Expansion
  | expansion, [] => .ok expansion
  | expansion, table :: tables => do
      let expansion ← expandTable expansion table
      expandTables expansion tables

/-- The kind of an image that is bound to no memory. -/
def ResourceKind.ofNull (atomic : Bool) : ResourceKind → ResourceKind
  | .imageUint => .image
  | .storageImageUint => if atomic then .storageImageUint else .storageImage
  | kind => kind

/-- The kind of an image with a format of unsigned integers. -/
def ResourceKind.ofUint : ResourceKind → ResourceKind
  | .image => .imageUint
  | .storageImage => .storageImageUint
  | kind => kind

/-- An image as its descriptor has it. -/
def specializedImage : ImageResource :=
  if nullImageDescriptor descriptor then
    { image with
      mip_count := storageMipCount image descriptor
      dimension := .dim2D
      cube := false
      kind := image.kind.ofNull image.atomic }
  else
    { image with
      mip_count := storageMipCount image descriptor
      dimension := descriptorDimension descriptor image.dimension
      cube := descriptorIsCube descriptor
      storage_swizzle :=
        if image.kind.storage then descriptorImageSwizzle descriptor else image.storage_swizzle
      kind := if uintDescriptor image descriptor then image.kind.ofUint else image.kind }

/-- The part of `SpecializeResources` about one image. -/
def specializeImage (entry : ImageResource × DescriptorValue) : Except Error ImageResource := do
  let (image, descriptor) := entry
  check (storageMipCount image descriptor ≠ 0) (.mipRange i)
  check (nullImageDescriptor descriptor ∨
    descriptorDimension descriptor image.dimension ≠ .unknown) (.imageType i)
  .ok (specializedImage image descriptor)

/-- The first image of a family that is bound to memory. -/
def findExemplar (images : List ImageResource) (descriptors : List DescriptorValue)
    (root_index : ℕ) : List ℕ → Except Error ImageResource
  | [] => .error .noTypedCandidate
  | resource :: resources =>
    match images[resource]?, descriptors[resource]? with
    | some image, some descriptor => do
        check (image.indirect_root = some root_index) .candidateResource
        if nullImageDescriptor descriptor then
          findExemplar images descriptors root_index resources
        else .ok image
    | _, _ => .error .candidateResource

/-- An image of a family takes the class of the exemplar if it is bound to no memory. -/
def unifyCandidate (image_class : ImageResource) (root_index : ℕ)
    (entry : ImageResource × DescriptorValue) : Except Error ImageResource := do
  let (image, descriptor) := entry
  if image.indirect_root ≠ some root_index then .ok image
  else do
    let image :=
      if nullImageDescriptor descriptor then
        { image with
          kind := image_class.kind
          dimension := image_class.dimension
          mip_count := image_class.mip_count
          storage_swizzle := image_class.storage_swizzle
          cube := image_class.cube }
      else image
    check (image.sameBinding image_class ∧ image.depth_compare = image_class.depth_compare)
      .incompatibleCandidates
    .ok image

/-- One turn of the loop over the roots. -/
def unifyFamily (descriptors : List DescriptorValue) (flattened_dwords : ℕ)
    (images : List ImageResource) (root_index : ℕ) : Except Error (List ImageResource) :=
  match images[root_index]? with
  | none => .ok images
  | some root =>
    if root.indirect_root ≠ some root_index then .ok images
    else do
      check (root.indirect_mapping_capacity ≠ 0 ∧ 2 ≤ root.indirect_resources.length ∧
        mappingEnd root_index root ≤ flattened_dwords) .keyMapping
      let image_class ← findExemplar images descriptors root_index root.indirect_resources
      mapEach (fun _ => unifyCandidate image_class root_index) 0 (images.zip descriptors)

def unifyFamilies (descriptors : List DescriptorValue) (flattened_dwords : ℕ) :
    List ImageResource → List ℕ → Except Error (List ImageResource)
  | images, [] => .ok images
  | images, root_index :: roots => do
      let images ← unifyFamily descriptors flattened_dwords images root_index
      unifyFamilies descriptors flattened_dwords images roots

/-- The class of the image that a memory operation uses. -/
def MemoryInfo.ofImage (memory : MemoryInfo) (image : ImageResource) : MemoryInfo :=
  { memory with kind := image.kind, image_dimension := image.dimension, image_cube := image.cube }

/-- The image instructions take over the class of their resource. -/
def patchMemory (images : List ImageResource) :
    List MemoryInfo → List ImageInst → Except Error (List MemoryInfo)
  | memory_info, [] => .ok memory_info
  | memory_info, inst :: insts =>
    match memory_info[inst.index]? with
    | none => .error (.memoryMetadata inst.index)
    | some memory =>
      match images[memory.resource]? with
      | none => .error (.memoryResource memory.resource)
      | some image => do
          check (image.indirect_root = some memory.resource → inst.op = .imageSampleRaw)
            (.indirectUse inst.op)
          patchMemory images (memory_info.set inst.index (memory.ofImage image)) insts

/-- The part of `SpecializeResources` about one buffer. -/
def specializeBuffer (entry : BufferResource × DescriptorValue) : Except Error BufferResource := do
  check (entry.2.dword_count = 4) (.bufferWidth i)
  .ok { entry.1 with
    packed_stride := packedStride entry.2
    descriptor_format := bufferFormat entry.2
    descriptor_swizzle := dstSelXYZW entry.2 }

/-- `SpecializeResources`: the program and the snapshot behind it. -/
def specializeResources : Except Error (Program × ResourceSnapshot) := do
  check (program.resource_tracking_complete = true) .notTracked
  check (program.shader_info_complete = false ∧ program.binding_layout_complete = false)
    .specializationTooLate
  validateResourceSnapshot program snapshot
  let expansion ← expandTables ⟨program.info.images, snapshot.images, snapshot.flattened_srt⟩
    snapshot.indirect_images
  let buffers ← mapEach specializeBuffer 0 (program.info.buffers.zip snapshot.buffers)
  let addresses := (program.info.addresses.zip snapshot.addresses).map fun entry =>
    { entry.1 with specialized_base := addressSpecialization entry.1 entry.2 }
  let images ← mapEach specializeImage 0 (expansion.images.zip expansion.descriptors)
  let images ← unifyFamilies expansion.descriptors expansion.flattened_srt.length images
    (List.range images.length)
  match program.values with
  | none => .error .ssaNotReady
  | some values => do
      let memory_info ← patchMemory images values.memory_info values.image_insts
      .ok
        ({ program with
            info := { program.info with
              buffers := buffers, images := images, addresses := addresses }
            values := some { values with memory_info := memory_info } },
          { snapshot with
            images := expansion.descriptors
            flattened_srt := expansion.flattened_srt
            indirect_images := [] })

end MagnusPS5.Shader.ResourceSpecialization
