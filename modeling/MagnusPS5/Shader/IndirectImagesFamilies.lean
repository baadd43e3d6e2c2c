/-
The family of images that a table becomes samples what the heap has.

`SpecializeResources` adds an image for each further descriptor of a table, and writes its key
mapping behind the SRT. What it adds for one table, the next tables leave.
-/
import MagnusPS5.Shader.IndirectImagesSearch
import MagnusPS5.Shader.ResourceReuse

namespace MagnusPS5.Shader.ResourceSpecialization

open Lib List Nat ImageResource

/-! ## Families -/

/-- What makes an image one of a family. -/
def ImageResource.mapping (image : ImageResource) : ℕ × Option ℕ × ℕ × ℕ × List ℕ :=
  (image.source, image.indirect_root, image.indirect_mapping_offset,
    image.indirect_mapping_capacity, image.indirect_resources)

variable {image root added : ImageResource} {indirect : IndirectSource}
  {material heap : ShaderBufferResource} {memory : Memory} {descriptors : List DescriptorValue}
  {flattened_srt : List Word} {table : IndirectImage} {program : Program}
  {snapshot : ResourceSnapshot} {expansion : Expansion} {images images' : List ImageResource}
  {r j k : ℕ}

section Mapping

variable {image' : ImageResource}

section

variable (h : image'.mapping = image.mapping)

include h

theorem source_of_mapping : image'.source = image.source :=
  congrArg Prod.fst h

theorem root_of_mapping : image'.indirect_root = image.indirect_root :=
  congrArg (fun m => m.2.1) h

theorem offset_of_mapping : image'.indirect_mapping_offset = image.indirect_mapping_offset :=
  congrArg (fun m => m.2.2.1) h

theorem capacity_of_mapping : image'.indirect_mapping_capacity = image.indirect_mapping_capacity :=
  congrArg (fun m => m.2.2.2.1) h

theorem resources_of_mapping : image'.indirect_resources = image.indirect_resources :=
  congrArg (fun m => m.2.2.2.2) h

theorem mappingEnd_of_mapping (r : ℕ) : mappingEnd r image' = mappingEnd r image := by
  unfold mappingEnd
  rw [root_of_mapping h, offset_of_mapping h, capacity_of_mapping h]

end

end Mapping

/-- The image is the root of the family of a table. `first_added` is the number of images that
the program had before its tables were expanded. -/
structure FamilyAt (first_added : ℕ) (descriptors : List DescriptorValue) (flattened_srt : List Word)
    (table : IndirectImage) (image : ImageResource) : Prop where
  root : image.indirect_root = some table.resource
  mapped : MappedAt flattened_srt image.indirect_mapping_offset table
  capacity : table.keys.length ≤ image.indirect_mapping_capacity
  added : ∀ resource ∈ image.indirect_resources, resource = table.resource ∨ first_added ≤ resource
  candidate : ∀ (c : ℕ) descriptor, table.descriptors[c]? = some descriptor →
    ∃ resource, image.indirect_resources[c]? = some resource ∧
      descriptors[resource]? = some descriptor.val

/-- For every selector the image samples what the heap has at its key. -/
def SamplesHeap (indirect : IndirectSource) (material heap : ShaderBufferResource) (memory : Memory)
    (descriptors : List DescriptorValue) (flattened_srt : List Word) (image : ImageResource) :
    Prop :=
  ∀ selector, ∃ key resource descriptor, selectorKey indirect material memory selector = some key ∧
    heapImage heap memory key = some descriptor ∧
    sampledResource image flattened_srt key = some resource ∧
    descriptors[resource]? = some descriptor.val

section Samples

section

variable (h : Materialized indirect material heap memory table)

include h

theorem Materialized.candidate (selector : Word) :
    ∃ (i : ℕ) (key : Word) (c : ℕ) (descriptor : ImageDescriptor),
      selectorKey indirect material memory selector = some key ∧ table.keys[i]? = some key ∧
      table.candidates[i]? = some c ∧ table.descriptors[c]? = some descriptor ∧
      heapImage heap memory key = some descriptor := by
  obtain ⟨key, hkey, hselector⟩ := h.selector selector
  obtain ⟨i, hi⟩ := mem_iff_getElem?.mp hkey
  obtain ⟨c, descriptor, hc, hdescriptor, himage⟩ := h.covers.image i key hi
  exact ⟨i, key, c, descriptor, hselector, hi, hc, hdescriptor, himage⟩

/-- **A family samples what the heap has.** -/
theorem samples_of_mapped (hmapped : MappedAt flattened_srt image.indirect_mapping_offset table)
    (hcapacity : table.keys.length ≤ image.indirect_mapping_capacity)
    (hcandidate : ∀ (c : ℕ) descriptor, table.descriptors[c]? = some descriptor →
      ∃ resource, image.indirect_resources[c]? = some resource ∧
        descriptors[resource]? = some descriptor.val) :
    SamplesHeap indirect material heap memory descriptors flattened_srt image := by
  intro selector
  obtain ⟨i, key, c, descriptor, hselector, hi, hc, hdescriptor, himage⟩ := h.candidate selector
  obtain ⟨resource, hresource, hget⟩ := hcandidate c descriptor hdescriptor
  -- the probes are few, so no number of the mapping is cut
  have hprobes : maxIndirectImageProbes = 65536 := rfl
  have hkeys := h.keys_le
  have hlimit := h.capacity_le
  have hdescriptors := h.covers.descriptors_le
  have hc' : c < table.descriptors.length := (List.getElem?_eq_some_iff.mp hdescriptor).1
  refine ⟨key, resource, descriptor, hselector, himage, ?_, hget⟩
  exact sampledResource_of_mapped hmapped h.nodup hcapacity (by omega) hi hc (by omega) hresource

end

end Samples

/-! ## Expansion -/

/-- The families of a list of images keep apart. `size` is the size of the flattened SRT. -/
structure Separate (images : List ImageResource) (size : ℕ) : Prop where
  distinct : ∀ (r : ℕ) image, images[r]? = some image → image.indirect_root = some r →
    image.indirect_resources.Nodup
  member : ∀ (r : ℕ) image, images[r]? = some image → image.indirect_root = some r →
    ∀ resource ∈ image.indirect_resources, ∃ member, images[resource]? = some member ∧
      member.source = image.source ∧ member.indirect_root = some r
  end_le : ∀ (r : ℕ) image, images[r]? = some image → mappingEnd r image ≤ size
  apart : ∀ (r s : ℕ) image other, r ≠ s → images[r]? = some image → images[s]? = some other →
    image.indirect_root = some r → other.indirect_root = some s →
    mappingEnd r image ≤ other.indirect_mapping_offset ∨
      mappingEnd s other ≤ image.indirect_mapping_offset

/-- What the tables that are done have made of a program. -/
structure Grown (program : Program) (done : List IndirectImage) (e : Expansion) : Prop where
  lengths : e.images.length = e.descriptors.length
  covers : program.info.images.length ≤ e.images.length
  separate : Separate e.images e.flattened_srt.length
  family : ∀ table ∈ done, ∃ image, e.images[table.resource]? = some image ∧
    FamilyAt program.info.images.length e.descriptors e.flattened_srt table image
  rest : ∀ i < program.info.images.length, (∀ table ∈ done, table.resource ≠ i) →
    e.images[i]? = program.info.images[i]?

section Expansion

variable {expansion' : Expansion}
  {tables done : List IndirectImage}

theorem keyMapping_eq (table : IndirectImage) :
    keyMapping table = mappingWords table ++
      replicate (1 + table.capacity * 2 - (mappingWords table).length) 0 := rfl

theorem MappedAt.append {words : List Word} {mapping : ℕ}
    (h : MappedAt flattened_srt mapping table) : MappedAt (flattened_srt ++ words) mapping table := by
  intro i word hi
  have hget := h i word hi
  rw [List.getElem?_append_left (List.getElem?_eq_some_iff.mp hget).1]
  exact hget

theorem mappedAt_keyMapping (flattened_srt : List Word) :
    MappedAt (flattened_srt ++ keyMapping table) flattened_srt.length table := by
  intro i word hi
  rw [getElem?_append_right (Nat.le_add_right _ _), Nat.add_sub_cancel_left, keyMapping_eq,
    List.getElem?_append_left (List.getElem?_eq_some_iff.mp hi).1]
  exact hi

theorem grown_start (hroots : ∀ image ∈ program.info.images, image.indirect_root = none)
    (hlength : snapshot.images.length = program.info.images.length) :
    Grown program [] ⟨program.info.images, snapshot.images, snapshot.flattened_srt⟩ := by
  have hnone {r : ℕ} {image : ImageResource} (himage : program.info.images[r]? = some image)
      (hroot : image.indirect_root = some r) : False := by
    rw [hroots image (mem_of_getElem? himage)] at hroot
    nomatch hroot
  refine ⟨hlength.symm, le_rfl, ⟨?_, ?_, ?_, ?_⟩, forall_mem_nil _, fun _ _ _ => rfl⟩
  · intro r image himage hroot
    exact (hnone himage hroot).elim
  · intro r image himage hroot
    exact (hnone himage hroot).elim
  · intro r image himage
    unfold mappingEnd
    rw [if_neg fun hroot => hnone himage hroot]
    exact zero_le _
  · intro r s image other _ himage _ hroot
    exact (hnone himage hroot).elim

/-- An image of an expansion is the root of the new family, one that was there, or one that is
added to the family. -/
theorem expanded_cases (hr : r < images.length)
    (h : (images.set r root ++ replicate k added)[j]? = some image) :
    j = r ∧ image = root ∨ j ≠ r ∧ images[j]? = some image ∨
      images.length ≤ j ∧ image = added := by
  rw [getElem?_extended hr] at h
  split at h
  · split at h
    next heq =>
      exact .inl ⟨heq, (Option.some.inj h).symm⟩
    next hne =>
      exact .inr (.inl ⟨hne, h⟩)
  · exact .inr (.inr ⟨by omega, eq_of_mem_replicate (mem_of_getElem? h)⟩)

theorem Separate.add {F F' capacity : ℕ} {root_image : ImageResource} (h : Separate images F)
    (hplain : images[r]? = some root_image) (hnone : root_image.indirect_root = none)
    (hroot : root = { root_image with
      indirect_root := some r
      indirect_mapping_offset := F
      indirect_mapping_capacity := capacity
      indirect_resources := r :: (range k).map (images.length + ·) })
    (hadded : added = { root_image with indirect_root := some r })
    (hF : F + 1 + capacity * 2 ≤ F') :
    Separate (images.set r root ++ replicate k added) F' := by
  have hr : r < images.length := (List.getElem?_eq_some_iff.mp hplain).1
  have hroots : root.indirect_root = some r := by rw [hroot]
  have hend : mappingEnd r root = F + 1 + capacity * 2 := by
    unfold mappingEnd
    rw [if_pos hroots, hroot]
  -- an added image is the root of no family
  have hmember {j : ℕ} (hj : images.length ≤ j) : added.indirect_root ≠ some j := by
    rw [hadded]
    intro heq
    injection heq with heq
    omega
  have hat_root : (images.set r root ++ replicate k added)[r]? = some root := by
    rw [getElem?_extended hr, if_pos hr, if_pos rfl]
  refine ⟨?_, ?_, ?_, ?_⟩
  · intro j image himage hself
    obtain ⟨rfl, rfl⟩ | ⟨hne, hold⟩ | ⟨hj, rfl⟩ := expanded_cases hr himage
    · rw [hroot]
      refine nodup_cons.mpr ⟨?_, nodup_range.map fun a b hab => ?_⟩
      · intro hmem
        obtain ⟨a, -, ha⟩ := mem_map.mp hmem
        omega
      · exact add_left_cancel hab
    · exact h.distinct j image hold hself
    · exact absurd hself (hmember hj)
  · intro j image himage hself resource hresource
    obtain ⟨rfl, rfl⟩ | ⟨hne, hold⟩ | ⟨hj, rfl⟩ := expanded_cases hr himage
    · rw [hroot] at hresource
      obtain rfl | hmem := mem_cons.mp hresource
      · exact ⟨image, hat_root, rfl, hroots⟩
      · obtain ⟨a, ha, rfl⟩ := mem_map.mp hmem
        refine ⟨added, ?_, ?_, ?_⟩
        · rw [getElem?_extended hr, if_neg (by omega), Nat.add_sub_cancel_left,
            getElem?_replicate, if_pos (mem_range.mp ha)]
        · rw [hadded, hroot]
        · rw [hadded]
    · obtain ⟨member, hget, hsource, hfamily⟩ := h.member j image hold hself resource hresource
      have hne' : resource ≠ r := by
        rintro rfl
        cases hplain.symm.trans hget
        rw [hnone] at hfamily
        nomatch hfamily
      refine ⟨member, ?_, hsource, hfamily⟩
      rw [getElem?_extended hr, if_pos (List.getElem?_eq_some_iff.mp hget).1, if_neg hne']
      exact hget
    · exact absurd hself (hmember hj)
  · intro j image himage
    obtain ⟨rfl, rfl⟩ | ⟨hne, hold⟩ | ⟨hj, rfl⟩ := expanded_cases hr himage
    · rw [hend]
      exact hF
    · have hle := h.end_le j image hold
      omega
    · unfold mappingEnd
      rw [if_neg (hmember hj)]
      exact zero_le _
  · intro i j image other hne himage hother hself hself'
    have hbehind {m : ℕ} {old : ImageResource} (hold : images[m]? = some old) :
        mappingEnd m old ≤ root.indirect_mapping_offset := by
      rw [hroot]
      exact h.end_le m old hold
    obtain ⟨rfl, rfl⟩ | ⟨hi, hold⟩ | ⟨hi, rfl⟩ := expanded_cases hr himage
    · obtain ⟨rfl, rfl⟩ | ⟨hj, hold⟩ | ⟨hj, rfl⟩ := expanded_cases hr hother
      · exact absurd rfl hne
      · exact .inr (hbehind hold)
      · exact absurd hself' (hmember hj)
    · obtain ⟨rfl, rfl⟩ | ⟨hj, hold'⟩ | ⟨hj, rfl⟩ := expanded_cases hr hother
      · exact .inl (hbehind hold)
      · exact h.apart i j image other hne hold hold' hself hself'
      · exact absurd hself' (hmember hj)
    · exact absurd hself (hmember hi)

section

variable (h : Grown program done expansion)
  (hroots : ∀ image ∈ program.info.images, image.indirect_root = none)

include h hroots

/-- **One table more.** -/
theorem Grown.add (hresource : table.resource < program.info.images.length)
    (hfresh : ∀ other ∈ done, other.resource ≠ table.resource)
    (hkeys : table.keys.length ≤ table.capacity)
    (hexpand : expandTable expansion table = .ok expansion') :
    Grown program (table :: done) expansion' := by
  obtain ⟨root_image, first, second, rest, hroot, hdescriptors, rfl⟩ := expandTable_eq_ok hexpand
  have hplain := (h.rest _ hresource hfresh).symm.trans hroot
  have hnone := hroots root_image (mem_of_getElem? hplain)
  have hlt : table.resource < expansion.images.length := (List.getElem?_eq_some_iff.mp hroot).1
  have hlt' : table.resource < expansion.descriptors.length := h.lengths ▸ hlt
  have hcovers := h.covers
  have hlengths := h.lengths
  refine ⟨?_, ?_, ?_, ?_, ?_⟩
  · simp [hlengths]
  · rw [length_append, length_set]
    omega
  · refine h.separate.add hroot hnone rfl rfl ?_
    rw [length_append, keyMapping_length hkeys]
    omega
  · intro other hother
    obtain rfl | hother := mem_cons.mp hother
    · refine ⟨_, (getElem?_extended hlt).trans ((if_pos hlt).trans (if_pos rfl)), rfl,
        mappedAt_keyMapping _, hkeys, ?_, ?_⟩
      · intro resource hmem
        obtain rfl | hmem := mem_cons.mp hmem
        · exact .inl rfl
        · obtain ⟨a, -, rfl⟩ := mem_map.mp hmem
          exact .inr (by omega)
      · intro c descriptor hc
        rw [hdescriptors] at hc
        cases c with
        | zero =>
          cases hc
          exact ⟨other.resource, rfl,
            (getElem?_extended hlt').trans ((if_pos hlt').trans (if_pos rfl))⟩
        | succ c =>
          have hc' : (second :: rest)[c]? = some descriptor := hc
          have hcount := (List.getElem?_eq_some_iff.mp hc').1
          refine ⟨expansion.images.length + c, ?_, ?_⟩
          · rw [getElem?_cons_succ, getElem?_map, getElem?_range hcount]
            rfl
          · rw [getElem?_extended hlt', ← hlengths, if_neg (by omega), Nat.add_sub_cancel_left,
              getElem?_map, hc']
            rfl
    · obtain ⟨image, himage, hfamily⟩ := h.family other hother
      have hne := hfresh other hother
      refine ⟨image, ?_, hfamily.root, hfamily.mapped.append, hfamily.capacity, hfamily.added, ?_⟩
      · rw [getElem?_extended hlt, if_pos (List.getElem?_eq_some_iff.mp himage).1, if_neg hne]
        exact himage
      · intro c descriptor hc
        obtain ⟨resource, hresource', hget⟩ := hfamily.candidate c descriptor hc
        refine ⟨resource, hresource', ?_⟩
        -- the root of the new family is in no other
        have hother' : resource ≠ table.resource := by
          obtain rfl | hle := hfamily.added resource (mem_of_getElem? hresource')
          · exact hne
          · omega
        rw [getElem?_extended hlt', if_pos (List.getElem?_eq_some_iff.mp hget).1, if_neg hother']
        exact hget
  · intro i hi hnot
    have hne : i ≠ table.resource := fun heq => hnot table mem_cons_self heq.symm
    rw [getElem?_extended hlt, if_pos (by omega), if_neg hne]
    exact h.rest i hi fun other hother => hnot other (.tail _ hother)

/-- **All the tables of a snapshot.** -/
theorem Grown.addAll {seen : List ℕ} (hfit : TablesFit program snapshot seen tables)
    (hdone : ∀ other ∈ done, ∀ table ∈ tables, other.resource ≠ table.resource)
    (hexpand : expandTables expansion tables = .ok expansion') :
    ∃ all, Grown program all expansion' ∧ (∀ table ∈ tables, table ∈ all) ∧
      ∀ table ∈ done, table ∈ all := by
  obtain ⟨all, hall, hmem⟩ := expandTables_induct h hfit hdone hexpand fun h => h.add hroots
  exact ⟨all, hall, fun t ht => (hmem t).mpr (.inl ht), fun t ht => (hmem t).mpr (.inr ht)⟩

end

end Expansion

/-! ## The classes of the images -/

section Classes

variable {image_class : ImageResource} {descriptor : DescriptorValue}
  {flattened_dwords : ℕ}

theorem mapping_specializedImage (image : ImageResource) (descriptor : DescriptorValue) :
    (specializedImage image descriptor).mapping = image.mapping := by
  unfold specializedImage
  split <;> rfl

theorem mapping_unified (image_class : ImageResource) (root_index : ℕ) (image : ImageResource)
    (descriptor : DescriptorValue) :
    (unified image_class root_index image descriptor).mapping = image.mapping := by
  unfold unified
  split <;> rfl

section

variable (hlength : images.length = descriptors.length)

include hlength

theorem map_mapping_zip {f : ImageResource → DescriptorValue → ImageResource}
    (hf : ∀ image descriptor, (f image descriptor).mapping = image.mapping) :
    ((images.zip descriptors).map fun entry => f entry.1 entry.2).map mapping =
      images.map mapping := by
  rw [map_map]
  calc
    _ = (images.zip descriptors).map (mapping ∘ Prod.fst) :=
        map_congr_left fun entry _ => hf entry.1 entry.2
    _ = _ := by
        rw [← map_map, map_fst_zip hlength.le]

theorem unifyFamily_mapping {root_index : ℕ}
    (h : unifyFamily descriptors flattened_dwords images root_index = .ok images') :
    images'.map mapping = images.map mapping := by
  unfold unifyFamily at h
  split at h
  · rw [← Except.ok.inj h]
  · split at h
    · rw [← Except.ok.inj h]
    · obtain ⟨_, -, h⟩ := bind_eq_ok.mp h
      obtain ⟨image_class, -, h⟩ := bind_eq_ok.mp h
      obtain ⟨-, rfl⟩ := (mapEach_eq_ok (fun _ entry _ => unifyCandidate_eq_ok entry) _ _ _).mp h
      exact map_mapping_zip hlength (mapping_unified image_class root_index)

theorem unifyFamilies_mapping {roots : List ℕ}
    (h : unifyFamilies descriptors flattened_dwords images roots = .ok images') :
    images'.map mapping = images.map mapping := by
  induction roots generalizing images with
  | nil => rw [← Except.ok.inj h]
  | cons r roots ih =>
    obtain ⟨next, hnext, hrest⟩ := bind_eq_ok.mp h
    have hfirst := unifyFamily_mapping hlength hnext
    have hsame : next.length = images.length := by
      have hmap := congrArg length hfirst
      rwa [length_map, length_map] at hmap
    exact (ih (hsame.trans hlength) hrest).trans hfirst

end

end Classes

/-! ## Specialized programs -/

section Specialized

variable {program' : Program} {snapshot' : ResourceSnapshot}
  {values : ValueProgram}
  {memory_info : List MemoryInfo}

theorem getElem?_of_mapping (h : images'.map mapping = images.map mapping)
    (hj : images[j]? = some image) :
    ∃ image', images'[j]? = some image' ∧ image'.mapping = image.mapping := by
  have hget := congrArg (·[j]?) h
  simp only [getElem?_map, hj, Option.map_some] at hget
  exact Option.map_eq_some_iff.mp hget

theorem Separate.congr {size : ℕ} (h : Separate images size)
    (heq : images'.map mapping = images.map mapping) : Separate images' size := by
  have hback {j : ℕ} {image' : ImageResource} (hj : images'[j]? = some image') :
      ∃ image, images[j]? = some image ∧ image.mapping = image'.mapping :=
    getElem?_of_mapping heq.symm hj
  refine ⟨?_, ?_, ?_, ?_⟩
  · intro r image' himage' hself
    obtain ⟨image, himage, hmapping⟩ := hback himage'
    rw [← resources_of_mapping hmapping]
    exact h.distinct r image himage ((root_of_mapping hmapping).trans hself)
  · intro r image' himage' hself resource hresource
    obtain ⟨image, himage, hmapping⟩ := hback himage'
    rw [← resources_of_mapping hmapping] at hresource
    obtain ⟨member, hmember, hsource, hroot⟩ :=
      h.member r image himage ((root_of_mapping hmapping).trans hself) resource hresource
    obtain ⟨member', hmember', hmapping'⟩ := getElem?_of_mapping heq hmember
    refine ⟨member', hmember', ?_, (root_of_mapping hmapping').trans hroot⟩
    rw [source_of_mapping hmapping', hsource, source_of_mapping hmapping]
  · intro r image' himage'
    obtain ⟨image, himage, hmapping⟩ := hback himage'
    rw [← mappingEnd_of_mapping hmapping]
    exact h.end_le r image himage
  · intro r s image' other' hne himage' hother' hself hself'
    obtain ⟨image, himage, hmapping⟩ := hback himage'
    obtain ⟨other, hother, hmapping'⟩ := hback hother'
    rw [← mappingEnd_of_mapping hmapping, ← mappingEnd_of_mapping hmapping',
      ← offset_of_mapping hmapping, ← offset_of_mapping hmapping']
    exact h.apart r s image other hne himage hother ((root_of_mapping hmapping).trans hself)
      ((root_of_mapping hmapping').trans hself')

theorem Steps.families (h : Steps program snapshot values expansion images memory_info)
    (hroots : ∀ image ∈ program.info.images, image.indirect_root = none) :
    Separate images expansion.flattened_srt.length ∧
      ∀ table ∈ snapshot.indirect_images, ∃ image, images[table.resource]? = some image ∧
        MappedAt expansion.flattened_srt image.indirect_mapping_offset table ∧
        table.keys.length ≤ image.indirect_mapping_capacity ∧
        ∀ (c : ℕ) descriptor, table.descriptors[c]? = some descriptor →
          ∃ resource, image.indirect_resources[c]? = some resource ∧
            expansion.descriptors[resource]? = some descriptor.val := by
  obtain ⟨all, hgrown, htables, -⟩ := (grown_start hroots h.valid.images).addAll hroots
    (tablesFit_of_ok h.valid.tables) (forall_mem_nil _) h.expands
  have hspecialized : expansion.specialized.map mapping = expansion.images.map mapping :=
    map_mapping_zip hgrown.lengths mapping_specializedImage
  have hlength : expansion.specialized.length = expansion.descriptors.length := by
    have hmap := congrArg length hspecialized
    rw [length_map, length_map] at hmap
    exact hmap.trans hgrown.lengths
  have heq : images.map mapping = expansion.images.map mapping :=
    (unifyFamilies_mapping hlength h.unifies).trans hspecialized
  refine ⟨hgrown.separate.congr heq, ?_⟩
  intro table htable
  obtain ⟨image, himage, hfamily⟩ := hgrown.family table (htables table htable)
  obtain ⟨image', himage', hmapping⟩ := getElem?_of_mapping heq himage
  refine ⟨image', himage', ?_, ?_, ?_⟩
  · rw [offset_of_mapping hmapping]
    exact hfamily.mapped
  · rw [capacity_of_mapping hmapping]
    exact hfamily.capacity
  · rw [resources_of_mapping hmapping]
    exact hfamily.candidate

theorem Materialized.withResource (h : Materialized indirect material heap memory table) (r : ℕ) :
    Materialized indirect material heap memory { table with resource := r } :=
  ⟨h.nodup, h.keys_le, h.capacity_le, h.selector,
    ⟨h.covers.lengths, h.covers.descriptors_le, h.covers.image⟩⟩

section

variable (hroots : ∀ image ∈ program.info.images, image.indirect_root = none)
  (h : specializeResources program snapshot = .ok (program', snapshot'))

include hroots h

/-- **A specialized program samples what the heap has.** -/
theorem specialized_samples (hmaterialized : Materialized indirect material heap memory table)
    (htable : table ∈ snapshot.indirect_images) :
    ∃ image, program'.info.images[table.resource]? = some image ∧
      SamplesHeap indirect material heap memory snapshot'.images snapshot'.flattened_srt image := by
  obtain ⟨values, expansion, images, memory_info, hsteps, hresult⟩ :=
    specializeResources_eq_ok.mp h
  cases hresult
  obtain ⟨image, himage, hmapped, hcapacity, hcandidate⟩ := (hsteps.families hroots).2 table htable
  exact ⟨image, himage, samples_of_mapped hmaterialized hmapped hcapacity hcandidate⟩

theorem specialized_separate : Separate program'.info.images snapshot'.flattened_srt.length := by
  obtain ⟨values, expansion, images, memory_info, hsteps, hresult⟩ :=
    specializeResources_eq_ok.mp h
  cases hresult
  exact (hsteps.families hroots).1

end

end Specialized

end MagnusPS5.Shader.ResourceSpecialization
