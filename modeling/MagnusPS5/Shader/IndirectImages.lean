/-
Tables of images that a shader indexes (`ResourceMaterialization.cpp`,
`ResourceTracking.cpp`, `spirvEmitterImage.cpp`).

A shader may take an image descriptor from a heap, at a key that it loads from a table of
materials. `MaterializeIndirectImage` reads every key that the table can yield, and the
descriptor of every key. The keys are written in order, behind the SRT, with the number of the
descriptor of each (`keyMapping`), and the code that is emitted for a sample looks its key
up there.

Offsets and addresses are naturals; none of them leaves 64 bits. The memory of the
specialization is a function from addresses to words, undefined where a read fails.
-/
import MagnusPS5.Lib.BinarySearch
import MagnusPS5.Shader.ResourceSpecialization
import Mathlib

namespace MagnusPS5.Shader.ResourceSpecialization

open Lib

def addressMask : ℕ := 0x0000ffffffffffff

def maxIndirectImageProbes : ℕ := 65536

/-- `read_specialization_memory`. -/
abbrev Memory := ℕ → Option Word

/-- Why materialization fails, with the pc of the use. `unfinished` is no error of the source:
it says that the model gave a loop too few turns. -/
inductive MaterializeError
  | invalidDescriptors (use_pc : Word)
  | changedStride (use_pc : Word)
  | boundedProbes (use_pc : Word) (probe_count : ℕ)
  | exceedsAddressSpace (use_pc : Word)
  | readFailed (use_pc : Word) (address : ℕ)
  | changedTopology (use_pc : Word)
  | invalidCandidate
  | unmaterialized
  | unfinished
  deriving DecidableEq

/-! ## Scalar reads -/

namespace ShaderBufferResource

variable (descriptor : ShaderBufferResource)

def stride : Word := DescriptorValue.bits descriptor.fields[1] 16 0x3fff

def numRecords : Word := descriptor.fields[2]

def base48 : BitVec 64 :=
  (descriptor.fields[0].setWidth 64 ||| descriptor.fields[1].setWidth 64 <<< 32) &&&
    BitVec.ofNat 64 addressMask

def scalarBufferSize : ℕ :=
  if descriptor.stride = 0 then descriptor.numRecords.toNat
  else descriptor.stride.toNat * descriptor.numRecords.toNat

/-- The base of scalar reads. -/
def scalarBase : ℕ := descriptor.base48.toNat / 4 * 4

end ShaderBufferResource

def readScalarBufferWord (descriptor : ShaderBufferResource) (dynamic_offset immediate_offset : Word)
    (memory : Memory) (use_pc : Word) : Except MaterializeError Word :=
  let byte_offset := dynamic_offset.toNat + immediate_offset.toNat
  let aligned := byte_offset / 4 * 4
  let size := descriptor.scalarBufferSize
  if aligned > size ∨ size - aligned < 4 then .ok 0
  else if aligned > addressMask - descriptor.scalarBase then .error (.exceedsAddressSpace use_pc)
  else
    match memory (descriptor.scalarBase + aligned) with
    | none => .error (.readFailed use_pc (descriptor.scalarBase + aligned))
    | some word => .ok word

/-! ## Materialization of a table -/

/-- `DescriptorSource::IndirectImage`, without its sources. -/
structure IndirectSource where
  selector_stride : Word
  selector_offset : Word
  deriving DecidableEq

/-- A descriptor that names no image becomes zero. -/
def canonicalDescriptor (dwords : Vector Word 8) : ImageDescriptor :=
  let candidate : ImageDescriptor := ⟨⟨dwords, 8⟩, rfl⟩
  if nullImageDescriptor candidate.val || !validImageDescriptor candidate.val then
    ⟨⟨Vector.replicate 8 0, 8⟩, rfl⟩
  else candidate

section Table

variable (material heap : ShaderBufferResource) (memory : Memory) (use_pc : Word)

/-- The loop over the offsets of the table. The set `seen` of the source has the elements of
`keys`. -/
def collectKeys (step limit probe_count : ℕ) :
    ℕ → ℕ → List Word → Except MaterializeError (List Word)
  | 0, _, _ => .error .unfinished
  | fuel + 1, offset, keys =>
    if offset ≤ limit ∧ probe_count ≠ 0 then do
      let key ← readScalarBufferWord material (BitVec.ofNat 32 offset) 0 memory use_pc
      let keys := if key ∈ keys then keys else keys ++ [key]
      if limit - offset < step then .ok keys
      else collectKeys step limit probe_count fuel (offset + step) keys
    else .ok keys

/-- The first `n` dwords of a candidate. -/
def readDwords (heap_offset : Word) : (n : ℕ) → Except MaterializeError (Vector Word n)
  | 0 => .ok #v[]
  | n + 1 => do
      let dwords ← readDwords heap_offset n
      let word ← readScalarBufferWord heap heap_offset (BitVec.ofNat 32 (n * 4)) memory use_pc
      .ok (dwords.push word)

/-- A key more, with its candidate. -/
def addCandidate (next : IndirectImage) (candidate : ImageDescriptor) : IndirectImage :=
  match next.descriptors.idxOf? candidate with
  | none =>
    { next with
      descriptors := next.descriptors ++ [candidate]
      candidates := next.candidates ++ [next.descriptors.length] }
  | some found => { next with candidates := next.candidates ++ [found] }

/-- The loop over the keys. -/
def collectCandidates : IndirectImage → List Word → Except MaterializeError IndirectImage
  | next, [] => .ok next
  | next, key :: keys => do
      let dwords ← readDwords heap memory use_pc (key <<< 5) 8
      collectCandidates (addCandidate next (canonicalDescriptor dwords)) keys

end Table

def materializeIndirectImage (indirect : IndirectSource) (material_value heap_value : DescriptorValue)
    (memory : Memory) (use_pc : Word) : Except MaterializeError IndirectImage :=
  match decodeBufferDescriptor material_value, decodeBufferDescriptor heap_value with
  | some material, some heap => do
      check (material.stride = indirect.selector_stride) (.changedStride use_pc)
      let period := 2 ^ 32
      let step := Nat.gcd indirect.selector_stride.toNat period
      let residue := indirect.selector_offset.toNat % step
      let limit := min (2 ^ 32 - 1) (material.scalarBufferSize + 3)
      let probe_count := if residue ≤ limit then (limit - residue) / step + 1 else 0
      check (probe_count ≤ maxIndirectImageProbes) (.boundedProbes use_pc probe_count)
      let keys ← collectKeys material memory use_pc step limit probe_count (probe_count + 1) residue
        [0]
      collectCandidates heap memory use_pc
        { resource := 0
          capacity := probe_count + 1
          keys := keys
          candidates := []
          descriptors := [] } keys
  | _, _ => .error (.invalidDescriptors use_pc)

/-! ## Materialization of the images of a program -/

/-- What the source of an image evaluates to. -/
inductive ImageSource
  | direct (descriptor : DescriptorValue)
  | indirect (source : IndirectSource) (material heap : DescriptorValue)
  deriving DecidableEq

/-- The part of a snapshot that the images are written to. -/
structure ImageSnapshot where
  images : List DescriptorValue
  image_written : List Bool
  flattened_srt : List Word
  indirect_images : List IndirectImage
  deriving DecidableEq

/-- The words of a key mapping: the number of keys, and the keys in order with their
candidates. -/
def mappingWords (table : IndirectImage) : List Word :=
  let order := (List.range table.keys.length).mergeSort
    fun i j => decide (table.keys.getD i 0 ≤ table.keys.getD j 0)
  BitVec.ofNat 32 table.keys.length :: order.flatMap fun source =>
    [table.keys.getD source 0, BitVec.ofNat 32 (table.candidates.getD source 0)]

/-- The words from an index on are written. -/
def writeWords (flattened_srt : List Word) (offset : ℕ) (words : List Word) : List Word :=
  flattened_srt.take offset ++ words ++ flattened_srt.drop (offset + words.length)

/-- The candidates of a table are written to the images of a family. -/
def writeCandidates (images : List ImageResource) (image_index : ℕ) (table : IndirectImage) :
    ImageSnapshot → ℕ → List ℕ → Except MaterializeError ImageSnapshot
  | next, _, [] => .ok next
  | next, candidate, resource :: resources =>
    match images[resource]? with
    | none => .error .invalidCandidate
    | some image => do
        check (image.indirect_root = some image_index) .invalidCandidate
        let descriptor := table.descriptors[if candidate < table.descriptors.length
          then candidate else 0]?
        writeCandidates images image_index table
          { next with
            images := next.images.set resource ((descriptor.map Subtype.val).getD
              ⟨Vector.replicate 8 0, 0⟩)
            image_written := next.image_written.set resource true } (candidate + 1) resources

/-- One turn of the loop of `MaterializeResources` over the images. -/
def materializeImage (images : List ImageResource) (sources : ℕ → ImageSource) (memory : Memory)
    (first_use_pc : ℕ → Word) (next : ImageSnapshot) (image_index : ℕ) (image : ImageResource) :
    Except MaterializeError ImageSnapshot :=
  match sources image.source with
  | .direct descriptor =>
    let descriptor := if validImageDescriptor descriptor then descriptor
      else { descriptor with dwords := Vector.replicate 8 0 }
    .ok { next with
      images := next.images.set image_index descriptor
      image_written := next.image_written.set image_index true }
  | .indirect source material heap =>
    if image.indirect_root ≠ none ∧ image.indirect_root ≠ some image_index then .ok next
    else do
      let table ← materializeIndirectImage source material heap memory (first_use_pc image_index)
      if image.indirect_root = none then
        let descriptor := table.candidates[0]?.bind (table.descriptors[·]?)
        let next := { next with
          images := next.images.set image_index ((descriptor.map Subtype.val).getD
            ⟨Vector.replicate 8 0, 0⟩)
          image_written := next.image_written.set image_index true }
        .ok (if table.descriptors.length > 1 then
          { next with
            indirect_images := next.indirect_images ++ [{ table with resource := image_index }] }
          else next)
      else do
        check (table.keys.length ≤ image.indirect_mapping_capacity ∧
          table.descriptors.length ≤ image.indirect_resources.length)
          (.changedTopology (first_use_pc image_index))
        let next ← writeCandidates images image_index table next 0 image.indirect_resources
        .ok { next with
          flattened_srt := writeWords next.flattened_srt image.indirect_mapping_offset
            (mappingWords table) }

/-- The loop of `MaterializeResources` over the images. -/
def materializeLoop (images : List ImageResource) (sources : ℕ → ImageSource) (memory : Memory)
    (first_use_pc : ℕ → Word) :
    ImageSnapshot → ℕ → List ImageResource → Except MaterializeError ImageSnapshot
  | next, _, [] => .ok next
  | next, image_index, image :: rest => do
      let next ← materializeImage images sources memory first_use_pc next image_index image
      materializeLoop images sources memory first_use_pc next (image_index + 1) rest

/-- The part of `MaterializeResources` about the images. The flattened SRT that was evaluated
gets room for the key mappings. -/
def materializeImages (images : List ImageResource) (sources : ℕ → ImageSource) (memory : Memory)
    (first_use_pc : ℕ → Word) (flattened_srt : List Word) : Except MaterializeError ImageSnapshot := do
  let size := flattenedRuntimeDwords images flattened_srt.length
  let next ← materializeLoop images sources memory first_use_pc
    { images := List.replicate images.length ⟨Vector.replicate 8 0, 0⟩
      image_written := List.replicate images.length false
      flattened_srt := flattened_srt ++ List.replicate (size - flattened_srt.length) 0
      indirect_images := [] } 0 images
  check (∀ written ∈ next.image_written, written = true) .unmaterialized
  .ok next

/-! ## The emitted code -/

/-- `ReadConstBuffer` as it is emitted: the word at an address, zero behind the words of the
buffer. -/
def readConstBuffer (descriptor : ShaderBufferResource) (memory : Memory) (address : Word) :
    Option Word :=
  let index := address.toNat / 4
  if index < descriptor.scalarBufferSize / 4 then memory (descriptor.scalarBase + index * 4)
  else some 0

/-- The key that a shader loads for a selector. -/
def selectorKey (indirect : IndirectSource) (material : ShaderBufferResource) (memory : Memory)
    (selector : Word) : Option Word :=
  readConstBuffer material memory (selector * indirect.selector_stride + indirect.selector_offset)

/-- The first `n` dwords at an offset of a heap. -/
def heapDwords (heap : ShaderBufferResource) (memory : Memory) (heap_offset : Word) :
    (n : ℕ) → Option (Vector Word n)
  | 0 => some #v[]
  | n + 1 => do
      let dwords ← heapDwords heap memory heap_offset n
      let word ← readConstBuffer heap memory (heap_offset + BitVec.ofNat 32 (n * 4))
      some (dwords.push word)

/-- The image that a heap has at a key. -/
def heapImage (heap : ShaderBufferResource) (memory : Memory) (key : Word) : Option ImageDescriptor :=
  (heapDwords heap memory (key <<< 5) 8).map canonicalDescriptor

/-- One iteration of the search that `EmitValueImage` emits. A load outside of the SRT is
undefined. -/
def searchStep (flattened_srt : List Word) (mapping : ℕ) (key : Word) (s : Window Word) :
    Option (Window Word) := do
  let active := s.low < s.high
  let mid := (s.low + s.high) / 2
  let probe := if active then mid else 0
  let entry := mapping + (probe * 2 + 1)
  let mapped_key ← flattened_srt[entry]?
  let candidate ← flattened_srt[entry + 1]?
  some
    { low := if active ∧ mapped_key < key then mid + 1 else s.low
      high := if active ∧ ¬ mapped_key < key then mid else s.high
      selected := if active ∧ mapped_key = key then candidate else s.selected }

def searchLoop (flattened_srt : List Word) (mapping : ℕ) (key : Word) :
    ℕ → Window Word → Option (Window Word)
  | 0, s => some s
  | iterations + 1, s => do
      let s ← searchStep flattened_srt mapping key s
      searchLoop flattened_srt mapping key iterations s

/-- The resource that a sample of an image family takes for a key: the search of the mapping,
and the switch over the candidates. -/
def sampledResource (image : ImageResource) (flattened_srt : List Word) (key : Word) : Option ℕ := do
  let high ← flattened_srt[image.indirect_mapping_offset]?
  let s ← searchLoop flattened_srt image.indirect_mapping_offset key
    (Nat.size image.indirect_mapping_capacity) ⟨0, high.toNat, 0⟩
  if 0 < s.selected.toNat ∧ s.selected.toNat < image.indirect_resources.length then
    image.indirect_resources[s.selected.toNat]?
  else image.indirect_resources[0]?

end MagnusPS5.Shader.ResourceSpecialization
