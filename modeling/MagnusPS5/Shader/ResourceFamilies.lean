/-
Tables of images, and the families of images that a program is specialized with.
-/
import MagnusPS5.Shader.ResourceSpecializationSpec

namespace MagnusPS5.Shader.ResourceSpecialization

open Lib List Nat ImageResource

/-- An image without what makes it one of a family. -/
def ImageResource.base (image : ImageResource) : ImageResource :=
  { image with
    indirect_root := none
    indirect_mapping_offset := 0
    indirect_mapping_capacity := 0
    indirect_resources := [] }

section Base

variable {image image' : ImageResource}

theorem mip_mode_of_base (h : image'.base = image.base) : image'.mip_mode = image.mip_mode :=
  (mk.inj h).2.2.2.1

theorem depth_compare_of_base (h : image'.base = image.base) :
    image'.depth_compare = image.depth_compare :=
  (mk.inj h).2.2.2.2.2.2.2.2.1

theorem TrackedImage.of_base (h : TrackedImage image) (hbase : image'.base = image.base) :
    TrackedImage image' := by
  obtain ⟨-, hkind, -, hmip, -, hswizzle, -, hatomic, hdepth, -⟩ := mk.inj hbase
  exact ⟨by rw [hkind, hatomic]; exact h.kind, by rw [hkind, hmip]; exact h.mip_mode,
    by rw [hkind, hdepth]; exact h.depth_compare, by rw [hswizzle]; exact h.storage_swizzle⟩

end Base

/-! ## Expansion -/

section Expansion

variable {program : Program} {snapshot : ResourceSnapshot} {expansion expansion' : Expansion}
  {table : IndirectImage} {tables : List IndirectImage}

theorem expandTable_eq_ok (h : expandTable expansion table = .ok expansion') :
    ∃ root_image first second rest,
      expansion.images[table.resource]? = some root_image ∧
      table.descriptors = first :: second :: rest ∧
      expansion' =
        { images := expansion.images.set table.resource
            { root_image with
              indirect_root := some table.resource
              indirect_mapping_offset := expansion.flattened_srt.length
              indirect_mapping_capacity := table.capacity
              indirect_resources := table.resource ::
                (range (second :: rest).length).map (expansion.images.length + ·) } ++
            replicate (second :: rest).length
              { root_image with indirect_root := some table.resource }
          descriptors := expansion.descriptors.set table.resource first.val ++
            (second :: rest).map Subtype.val
          flattened_srt := expansion.flattened_srt ++ keyMapping table } := by
  unfold expandTable at h
  split at h
  next root_image first second rest hroot hdescriptors =>
    simp only [bind_eq_ok, check_eq_ok, Except.ok.injEq] at h
    obtain ⟨-, -, rfl⟩ := h
    exact ⟨root_image, first, second, rest, hroot, hdescriptors, rfl⟩
  · simp at h

theorem keyMapping_length (hkeys : table.keys.length ≤ table.capacity) :
    (keyMapping table).length = 1 + table.capacity * 2 := by
  obtain ⟨entries, hentries⟩ : ∃ entries, entries =
      ((range table.keys.length).mergeSort fun i j =>
        decide (table.keys.getD i 0 ≤ table.keys.getD j 0)).flatMap fun source =>
          [table.keys.getD source 0, .ofNat 32 (table.candidates.getD source 0)] := ⟨_, rfl⟩
  have hlength : entries.length = table.keys.length * 2 := by
    rw [hentries, length_flatMap]
    simp [map_const']
  unfold keyMapping
  dsimp only
  rw [← hentries, length_append, length_replicate, length_cons, hlength]
  omega

theorem getElem?_extended {α : Type} {l added : List α} {r j : ℕ} {a : α} (hr : r < l.length) :
    (l.set r a ++ added)[j]? =
      if j < l.length then (if j = r then some a else l[j]?) else added[j - l.length]? := by
  rw [getElem?_append, length_set]
  split
  · rw [getElem?_set]
    split
    next heq =>
      subst heq
      simp
    next hne =>
      rw [if_neg (Ne.symm hne)]
  · rfl

variable {L srt_reads : ℕ} {done : List IndirectImage} {seen : List ℕ}

theorem foldl_max_eq {s : ℕ} {l : List ℕ} (hs : s ≤ L) (hl : ∀ x ∈ l, x ≤ L)
    (hattained : L = s ∨ L ∈ l) : l.foldl max s = L := by
  induction l generalizing s with
  | nil => simpa [eq_comm] using hattained
  | cons x l ih =>
    have hx := hl x mem_cons_self
    refine ih (Nat.max_le.mpr ⟨hs, hx⟩) (fun y hy => hl y (.tail _ hy)) ?_
    obtain rfl | hmem := hattained
    · exact .inl (max_eq_left hx).symm
    · obtain rfl | hmem := mem_cons.mp hmem
      · exact .inl (max_eq_right hs).symm
      · exact .inr hmem

theorem flattenedRuntimeDwords_eq {images : List ImageResource}
    (hs : srt_reads ≤ L) (hle : ∀ (j : ℕ) image, images[j]? = some image → mappingEnd j image ≤ L)
    (hattained : L = srt_reads ∨ ∃ j image, images[j]? = some image ∧ mappingEnd j image = L) :
    flattenedRuntimeDwords images srt_reads = L := by
  refine foldl_max_eq hs (fun x hx => ?_) (hattained.imp_right fun ⟨j, image, himage, hend⟩ => ?_)
  · obtain ⟨⟨image, j⟩, hmem, rfl⟩ := mem_map.mp hx
    exact hle j image (mem_zipIdx_iff_getElem?.mp hmem)
  · exact mem_map.mpr ⟨(image, j), mem_zipIdx_iff_getElem?.mpr himage, hend⟩

/-- What the tables that are done have made of the images of a program. -/
structure Expanded (program : Program) (snapshot : ResourceSnapshot) (srt_reads : ℕ)
    (done : List IndirectImage) (e : Expansion) : Prop where
  lengths : e.images.length = e.descriptors.length
  covers : program.info.images.length + done.length ≤ e.images.length
  /-- an image is one of the program, or one of a family -/
  origin : ∀ (j : ℕ) image descriptor, e.images[j]? = some image →
    e.descriptors[j]? = some descriptor →
    (image.indirect_root = none ∧ program.info.images[j]? = some image ∧
        snapshot.images[j]? = some descriptor) ∨
      ∃ table ∈ done, image.indirect_root = some table.resource ∧
        (∃ root ∈ program.info.images[table.resource]?, image.base = root.base) ∧
        ∃ candidate ∈ table.descriptors, candidate.val = descriptor
  rest : ∀ i < program.info.images.length, (∀ table ∈ done, table.resource ≠ i) →
    e.images[i]? = program.info.images[i]? ∧ e.descriptors[i]? = snapshot.images[i]?
  member : ∀ table ∈ done, ∀ candidate ∈ table.descriptors, ∃ (j : ℕ) (image : ImageResource),
    e.images[j]? = some image ∧ e.descriptors[j]? = some candidate.val ∧
      image.indirect_root = some table.resource
  root : ∀ table ∈ done, ∃ image, e.images[table.resource]? = some image ∧
    image.indirect_root = some table.resource
  srt : srt_reads ≤ e.flattened_srt.length
  mapping_le : ∀ (j : ℕ) image, e.images[j]? = some image →
    mappingEnd j image ≤ e.flattened_srt.length
  attained : e.flattened_srt.length = srt_reads ∨
    ∃ (j : ℕ) (image : ImageResource), e.images[j]? = some image ∧
      mappingEnd j image = e.flattened_srt.length

theorem expanded_start (hroot : ∀ image ∈ program.info.images, image.indirect_root = none)
    (hlength : snapshot.images.length = program.info.images.length)
    (hflattened : snapshot.flattened_srt.length =
      flattenedRuntimeDwords program.info.images srt_reads) :
    Expanded program snapshot srt_reads []
      ⟨program.info.images, snapshot.images, snapshot.flattened_srt⟩ := by
  have hend (j : ℕ) (image : ImageResource) (himage : program.info.images[j]? = some image) :
      mappingEnd j image = 0 := by
    unfold mappingEnd
    rw [hroot image (mem_of_getElem? himage)]
    rfl
  have hsize : snapshot.flattened_srt.length = srt_reads := by
    rw [hflattened]
    exact flattenedRuntimeDwords_eq (le_rfl)
      (fun j image himage => (hend j image himage).symm ▸ zero_le _) (.inl rfl)
  exact
    { lengths := hlength.symm
      covers := le_rfl
      origin := fun j image descriptor himage hdescriptor =>
        .inl ⟨hroot image (mem_of_getElem? himage), himage, hdescriptor⟩
      rest := fun _ _ _ => ⟨rfl, rfl⟩
      member := nofun
      root := nofun
      srt := hsize.ge
      mapping_le := fun j image himage => (hend j image himage).symm ▸ zero_le _
      attained := .inl hsize }

theorem Expanded.add (h : Expanded program snapshot srt_reads done expansion)
    (hroots : ∀ image ∈ program.info.images, image.indirect_root = none)
    (hresource : table.resource < program.info.images.length)
    (hfresh : ∀ other ∈ done, other.resource ≠ table.resource)
    (hkeys : table.keys.length ≤ table.capacity)
    (hexpand : expandTable expansion table = .ok expansion') :
    Expanded program snapshot srt_reads (table :: done) expansion' := by
  obtain ⟨root_image, first, second, rest, hroot, hdescriptors, rfl⟩ := expandTable_eq_ok hexpand
  have hprogram : program.info.images[table.resource]? = some root_image := by
    rw [← (h.rest _ hresource hfresh).1]
    exact hroot
  have hlt : table.resource < expansion.images.length :=
    (List.getElem?_eq_some_iff.mp hroot).1
  have hlt' : table.resource < expansion.descriptors.length := h.lengths ▸ hlt
  have hlengths := h.lengths
  have hcovers := h.covers
  have hflattened := keyMapping_length hkeys
  refine
    { lengths := by simp [hlengths]
      covers := by simp; omega
      origin := ?_
      rest := ?_
      member := ?_
      root := ?_
      srt := by
        rw [length_append]
        exact le_trans h.srt (le_add_right _ _)
      mapping_le := ?_
      attained := ?_ }
  · intro j image descriptor himage hdescriptor
    rw [getElem?_extended hlt] at himage
    rw [getElem?_extended hlt', ← hlengths] at hdescriptor
    split at himage
    next hj =>
      rw [if_pos hj] at hdescriptor
      split at himage
      next heq =>
        rw [if_pos heq] at hdescriptor
        cases himage
        cases hdescriptor
        exact .inr ⟨table, .head _, rfl, ⟨root_image, hprogram, rfl⟩, first,
          hdescriptors ▸ .head _, rfl⟩
      next hne =>
        rw [if_neg hne] at hdescriptor
        refine (h.origin j image descriptor himage hdescriptor).imp_right ?_
        rintro ⟨other, hother, hfamily⟩
        exact ⟨other, .tail _ hother, hfamily⟩
    next hj =>
      rw [if_neg hj] at hdescriptor
      obtain rfl := eq_of_mem_replicate (mem_of_getElem? himage)
      obtain ⟨candidate, hcandidate, rfl⟩ := mem_map.mp (mem_of_getElem? hdescriptor)
      exact .inr ⟨table, .head _, rfl, ⟨root_image, hprogram, rfl⟩, candidate,
        hdescriptors ▸ .tail _ hcandidate, rfl⟩
  · intro i hi hnot
    have hne : i ≠ table.resource := fun heq => hnot table mem_cons_self heq.symm
    have hi' : i < expansion.images.length := by omega
    rw [getElem?_extended hlt, getElem?_extended hlt', ← hlengths, if_pos hi', if_pos hi',
      if_neg hne, if_neg hne]
    exact h.rest i hi fun other hother => hnot other (.tail _ hother)
  · intro other hother candidate hcandidate
    obtain rfl | hother := mem_cons.mp hother
    · -- the first descriptor is the root's, the others follow behind
      rw [hdescriptors] at hcandidate
      obtain rfl | hadded := mem_cons.mp hcandidate
      · exact ⟨other.resource, _,
          (getElem?_extended hlt).trans ((if_pos hlt).trans (if_pos rfl)),
          (getElem?_extended hlt').trans ((if_pos hlt').trans (if_pos rfl)), rfl⟩
      · obtain ⟨k, hk, hget⟩ := getElem_of_mem hadded
        refine ⟨expansion.images.length + k,
          { root_image with indirect_root := some other.resource }, ?_, ?_, rfl⟩
        · rw [getElem?_extended hlt, if_neg (by omega), Nat.add_sub_cancel_left,
            getElem?_replicate, if_pos hk]
        · rw [getElem?_extended hlt', ← hlengths, if_neg (by omega), Nat.add_sub_cancel_left,
            getElem?_map, getElem?_eq_getElem hk, hget]
          rfl
    · obtain ⟨j, image, himage, hdescriptor, hfamily⟩ := h.member other hother candidate hcandidate
      have hj : j < expansion.images.length := (List.getElem?_eq_some_iff.mp himage).1
      have hne : j ≠ table.resource := by
        rintro rfl
        have hplain := (h.rest _ hresource hfresh).1.symm.trans himage
        rw [hroots image (mem_of_getElem? hplain)] at hfamily
        nomatch hfamily
      refine ⟨j, image, ?_, ?_, hfamily⟩
      · rw [getElem?_extended hlt, if_pos hj, if_neg hne, himage]
      · rw [getElem?_extended hlt', ← hlengths, if_pos hj, if_neg hne, hdescriptor]
  · intro other hother
    obtain rfl | hother := mem_cons.mp hother
    · exact ⟨_, (getElem?_extended hlt).trans ((if_pos hlt).trans (if_pos rfl)), rfl⟩
    · obtain ⟨image, himage, hfamily⟩ := h.root other hother
      have hj : other.resource < expansion.images.length := (List.getElem?_eq_some_iff.mp himage).1
      refine ⟨image, ?_, hfamily⟩
      rw [getElem?_extended hlt, if_pos hj, if_neg (hfresh other hother), himage]
  · intro j image himage
    rw [getElem?_extended hlt] at himage
    rw [length_append, hflattened]
    split at himage
    · split at himage
      · cases himage
        unfold mappingEnd
        split
        · dsimp only
          omega
        · exact zero_le _
      · exact le_trans (h.mapping_le j image himage) (le_add_right _ _)
    · obtain rfl := eq_of_mem_replicate (mem_of_getElem? himage)
      have hne : some table.resource ≠ some j := fun heq => by
        injection heq with heq
        omega
      unfold mappingEnd
      rw [if_neg hne]
      exact zero_le _
  · refine .inr ⟨table.resource, _, by rw [getElem?_extended hlt, if_pos hlt, if_pos rfl], ?_⟩
    rw [length_append, hflattened]
    unfold mappingEnd
    rw [if_pos rfl]
    dsimp only
    omega

/-- The tables of a snapshot name different images of the program, and have room for their keys. -/
structure TablesFit (program : Program) (snapshot : ResourceSnapshot) (seen : List ℕ)
    (tables : List IndirectImage) : Prop where
  resource : ∀ table ∈ tables, table.resource < program.info.images.length
  fresh : ∀ table ∈ tables, table.resource ∉ seen
  distinct : tables.Pairwise fun table other => table.resource ≠ other.resource
  keys : ∀ table ∈ tables, table.keys.length ≤ table.capacity
  own : ∀ table ∈ tables, ∃ candidate ∈ table.descriptors,
    snapshot.images[table.resource]? = some candidate.val

theorem tablesFit_of_ok {values : ValueProgram} {u : Unit}
    (h : checkIndirectImages program values snapshot seen tables = .ok u) :
    TablesFit program snapshot seen tables := by
  induction tables generalizing seen with
  | nil =>
    exact ⟨forall_mem_nil _, forall_mem_nil _, .nil, forall_mem_nil _, forall_mem_nil _⟩
  | cons table tables ih =>
    unfold checkIndirectImages at h
    split at h
    · nomatch h
    next image himage =>
      simp only [bind_eq_ok, check_eq_ok] at h
      obtain ⟨_, ⟨-, -, hnonempty, hlengths, hkeys, -, hfresh⟩, _, hcandidates, _, hown, h⟩ := h
      have hrest := ih h
      have hlt : table.resource < program.info.images.length :=
        (List.getElem?_eq_some_iff.mp himage).1
      refine ⟨forall_mem_cons.mpr ⟨hlt, hrest.resource⟩,
        forall_mem_cons.mpr ⟨hfresh, fun other hother hseen =>
          hrest.fresh other hother (.tail _ hseen)⟩,
        pairwise_cons.mpr ⟨fun other hother heq =>
          hrest.fresh other hother (heq ▸ .head _), hrest.distinct⟩,
        forall_mem_cons.mpr ⟨hkeys, hrest.keys⟩,
        forall_mem_cons.mpr ⟨?_, hrest.own⟩⟩
      -- the first key has a candidate
      have hfirst : 0 < table.candidates.length := by
        rw [← hlengths]
        exact length_pos_iff.mpr hnonempty
      have hlt' := hcandidates _ (getElem_mem hfirst)
      refine ⟨table.descriptors[table.candidates[0]], getElem_mem hlt', ?_⟩
      rw [hown, getElem?_eq_getElem hfirst, Option.bind_some, getElem?_eq_getElem hlt']
      rfl

theorem expandTables_induct {P : List IndirectImage → Expansion → Prop}
    (h : P done expansion) (hfit : TablesFit program snapshot seen tables)
    (hdone : ∀ other ∈ done, ∀ table ∈ tables, other.resource ≠ table.resource)
    (hexpand : expandTables expansion tables = .ok expansion')
    (hadd : ∀ {done table e e'}, P done e → table.resource < program.info.images.length →
      (∀ other ∈ done, other.resource ≠ table.resource) → table.keys.length ≤ table.capacity →
      expandTable e table = .ok e' → P (table :: done) e') :
    ∃ all, P all expansion' ∧ ∀ table, table ∈ all ↔ table ∈ tables ∨ table ∈ done := by
  induction tables generalizing done expansion with
  | nil =>
    cases hexpand
    exact ⟨done, h, fun table => by simp⟩
  | cons table tables ih =>
    obtain ⟨next, hnext, hrest⟩ := bind_eq_ok.mp hexpand
    have hdistinct := pairwise_cons.mp hfit.distinct
    have hnext := hadd h (hfit.resource _ mem_cons_self)
      (fun other hother => hdone other hother table mem_cons_self)
      (hfit.keys _ mem_cons_self) hnext
    have htail : TablesFit program snapshot seen tables :=
      ⟨fun t ht => hfit.resource t (.tail _ ht),
        fun t ht => hfit.fresh t (.tail _ ht), hdistinct.2,
        fun t ht => hfit.keys t (.tail _ ht),
        fun t ht => hfit.own t (.tail _ ht)⟩
    obtain ⟨all, hall, hmem⟩ := ih hnext htail (fun other hother t ht => by
      obtain rfl | hother := mem_cons.mp hother
      · exact hdistinct.1 t ht
      · exact hdone other hother t (.tail _ ht)) hrest
    refine ⟨all, hall, fun t => (hmem t).trans ?_⟩
    rw [mem_cons, mem_cons]
    tauto

theorem Expanded.addAll (h : Expanded program snapshot srt_reads done expansion)
    (hroots : ∀ image ∈ program.info.images, image.indirect_root = none)
    (hfit : TablesFit program snapshot seen tables)
    (hdone : ∀ other ∈ done, ∀ table ∈ tables, other.resource ≠ table.resource)
    (hexpand : expandTables expansion tables = .ok expansion') :
    ∃ all, Expanded program snapshot srt_reads all expansion' ∧
      ∀ table, table ∈ all ↔ table ∈ tables ∨ table ∈ done :=
  expandTables_induct h hfit hdone hexpand fun h => h.add hroots

end Expansion

/-! ## Families -/

section Families

variable {images images' final : List ImageResource} {descriptors : List DescriptorValue}
  {image_class image image' : ImageResource} {root_index flattened_dwords : ℕ}

/-- An image of a family, with the class that it takes over. -/
def unified (image_class : ImageResource) (root_index : ℕ) (image : ImageResource)
    (descriptor : DescriptorValue) : ImageResource :=
  if image.indirect_root = some root_index ∧ nullImageDescriptor descriptor = true then
    { image with
      kind := image_class.kind
      dimension := image_class.dimension
      mip_count := image_class.mip_count
      storage_swizzle := image_class.storage_swizzle
      cube := image_class.cube }
  else image

theorem unifyCandidate_eq_ok (entry : ImageResource × DescriptorValue) :
    unifyCandidate image_class root_index entry = .ok image' ↔
      (entry.1.indirect_root = some root_index →
        (unified image_class root_index entry.1 entry.2).sameBinding image_class ∧
          (unified image_class root_index entry.1 entry.2).depth_compare =
            image_class.depth_compare) ∧
      image' = unified image_class root_index entry.1 entry.2 := by
  obtain ⟨image, descriptor⟩ := entry
  unfold unifyCandidate unified
  by_cases hroot : image.indirect_root = some root_index
  · cases hnull : nullImageDescriptor descriptor with
    | true =>
      simp only [hroot, hnull, ne_eq, not_true_eq_false, if_false, if_true, and_self,
        bind_eq_ok, check_eq_ok, Except.ok.injEq, true_imp_iff, exists_const]
      rw [eq_comm (b := image')]
    | false =>
      simp only [hroot, hnull, ne_eq, not_true_eq_false, if_false, Bool.false_eq_true, and_false,
        bind_eq_ok, check_eq_ok, Except.ok.injEq, true_imp_iff, exists_const]
      rw [eq_comm (b := image')]
  · simp only [hroot, ne_eq, not_false_eq_true, if_true, false_and, if_false, Except.ok.injEq,
      false_imp_iff, true_and]
    exact eq_comm

/-- What a family keeps of an image that takes over a class. -/
structure Kept (image image' : ImageResource) : Prop where
  mip_mode : image'.mip_mode = image.mip_mode
  indirect_root : image'.indirect_root = image.indirect_root
  indirect_mapping_offset : image'.indirect_mapping_offset = image.indirect_mapping_offset
  indirect_mapping_capacity : image'.indirect_mapping_capacity = image.indirect_mapping_capacity

theorem Kept.refl (image : ImageResource) : Kept image image := ⟨rfl, rfl, rfl, rfl⟩

theorem Kept.trans {image'' : ImageResource} (h : Kept image image') (h' : Kept image' image'') :
    Kept image image'' :=
  ⟨h'.mip_mode.trans h.mip_mode, h'.indirect_root.trans h.indirect_root,
    h'.indirect_mapping_offset.trans h.indirect_mapping_offset,
    h'.indirect_mapping_capacity.trans h.indirect_mapping_capacity⟩

theorem kept_unified (image_class : ImageResource) (root_index : ℕ) (image : ImageResource)
    (descriptor : DescriptorValue) : Kept image (unified image_class root_index image descriptor) := by
  unfold unified
  split
  · exact ⟨rfl, rfl, rfl, rfl⟩
  · exact .refl image

theorem findExemplar_typed {resources : List ℕ}
    (h : findExemplar images descriptors root_index resources = .ok image_class) :
    ∃ (e : ℕ) (descriptor : DescriptorValue), images[e]? = some image_class ∧
      descriptors[e]? = some descriptor ∧ nullImageDescriptor descriptor = false ∧
      image_class.indirect_root = some root_index := by
  induction resources with
  | nil => nomatch h
  | cons resource resources ih =>
    unfold findExemplar at h
    split at h
    next image descriptor himage hdescriptor =>
      obtain ⟨_, hroot, h⟩ := bind_eq_ok.mp h
      cases hnull : nullImageDescriptor descriptor with
      | true =>
        rw [hnull, if_pos rfl] at h
        exact ih h
      | false =>
        rw [hnull, if_neg (by decide)] at h
        cases h
        exact ⟨resource, descriptor, himage, hdescriptor, hnull, check_eq_ok.mp hroot⟩
    · nomatch h

/-- All images of a family are of the class of one that is bound to memory. -/
def FamilyOf (descriptors : List DescriptorValue) (images final : List ImageResource)
    (root_index : ℕ) : Prop :=
  ∃ (e : ℕ) (image_class : ImageResource) (descriptor : DescriptorValue),
    images[e]? = some image_class ∧ descriptors[e]? = some descriptor ∧
    nullImageDescriptor descriptor = false ∧ image_class.indirect_root = some root_index ∧
    ∀ (j : ℕ) (image : ImageResource), images[j]? = some image →
      image.indirect_root = some root_index →
      ∃ image' ∈ final[j]?, image'.sameBinding image_class

/-- What the loop over some roots leaves of the image at an index. -/
def Stays (descriptors : List DescriptorValue) (images final : List ImageResource)
    (roots : List ℕ) : Prop :=
  ∀ (j : ℕ) (image : ImageResource) (descriptor : DescriptorValue), images[j]? = some image →
    descriptors[j]? = some descriptor →
    ∃ image' ∈ final[j]?, Kept image image' ∧
      (nullImageDescriptor descriptor = false → image' = image) ∧
      ((∀ r ∈ roots, image.indirect_root ≠ some r) → image' = image)

theorem Stays.refl {roots : List ℕ} : Stays descriptors images images roots :=
  fun _ image _ himage _ => ⟨image, himage, .refl image, fun _ => rfl, fun _ => rfl⟩

theorem unifyFamily_spec (hlength : images.length = descriptors.length)
    (h : unifyFamily descriptors flattened_dwords images root_index = .ok images') :
    images'.length = images.length ∧ Stays descriptors images images' [root_index] ∧
      ((∃ root ∈ images[root_index]?, root.indirect_root = some root_index) →
        FamilyOf descriptors images images' root_index) := by
  unfold unifyFamily at h
  split at h
  next hnone =>
    cases h
    exact ⟨rfl, .refl, by simp [hnone]⟩
  next root hroot =>
    split at h
    next hne =>
      cases h
      refine ⟨rfl, .refl, ?_⟩
      rintro ⟨root', hroot', hself⟩
      cases hroot.symm.trans hroot'
      exact absurd hself hne
    · obtain ⟨_, -, h⟩ := bind_eq_ok.mp h
      obtain ⟨image_class, hexemplar, h⟩ := bind_eq_ok.mp h
      obtain ⟨hall, rfl⟩ := (mapEach_eq_ok (fun _ entry _ => unifyCandidate_eq_ok entry) _ _ _).mp h
      obtain ⟨e, descriptor, hclass, hdescriptor, hnull, hfamily⟩ := findExemplar_typed hexemplar
      have hget {j : ℕ} {image : ImageResource} {descriptor : DescriptorValue}
          (himage : images[j]? = some image) (hdescriptor : descriptors[j]? = some descriptor) :
          ((images.zip descriptors).map fun entry =>
              unified image_class root_index entry.1 entry.2)[j]? =
            some (unified image_class root_index image descriptor) := by
        have hzip : (images.zip descriptors)[j]? = some (image, descriptor) :=
          getElem?_zip_eq_some.mpr ⟨himage, hdescriptor⟩
        rw [getElem?_map, hzip]
        rfl
      refine ⟨by simp [hlength], ?_, fun _ => ⟨e, image_class, descriptor, hclass, hdescriptor,
        hnull, hfamily, ?_⟩⟩
      · intro j image descriptor himage hdescriptor
        refine ⟨_, hget himage hdescriptor, kept_unified _ _ _ _, fun hnull => ?_, fun hnot => ?_⟩
        · unfold unified
          rw [if_neg (by simp [hnull])]
        · unfold unified
          rw [if_neg (fun h => hnot root_index (mem_singleton_self _) h.1)]
      · intro j image himage hroot
        have hj : j < descriptors.length :=
          hlength ▸ (List.getElem?_eq_some_iff.mp himage).1
        have hdescriptor := getElem?_eq_getElem hj
        have hzip : (images.zip descriptors)[j]? = some (image, descriptors[j]) :=
          getElem?_zip_eq_some.mpr ⟨himage, hdescriptor⟩
        have hmem := mem_of_getElem? hzip
        exact ⟨_, hget himage hdescriptor, (hall _ hmem hroot).1⟩

/-- **Behind the loop over the roots every family has one class.** -/
theorem unifyFamilies_spec {roots : List ℕ} (hlength : images.length = descriptors.length)
    (hroots : roots.Nodup)
    (h : unifyFamilies descriptors flattened_dwords images roots = .ok final) :
    final.length = images.length ∧ Stays descriptors images final roots ∧
      ∀ r ∈ roots, (∃ root ∈ images[r]?, root.indirect_root = some r) →
        FamilyOf descriptors images final r := by
  induction roots generalizing images with
  | nil =>
    cases h
    exact ⟨rfl, fun j image _ himage _ => ⟨image, himage, .refl image, fun _ => rfl,
      fun _ => rfl⟩, nofun⟩
  | cons r roots ih =>
    obtain ⟨next, hnext, hrest⟩ := bind_eq_ok.mp h
    obtain ⟨hfresh, hroots⟩ := nodup_cons.mp hroots
    obtain ⟨hlength', hstays, hfamily⟩ := unifyFamily_spec hlength hnext
    obtain ⟨hfinal, hstays', hfamilies⟩ := ih (hlength'.trans hlength) hroots hrest
    refine ⟨hfinal.trans hlength', ?_, ?_⟩
    · intro j image descriptor himage hdescriptor
      obtain ⟨middle, hmiddle, hkept, hnull, hother⟩ := hstays j image descriptor himage hdescriptor
      obtain ⟨last, hlast, hkept', hnull', hother'⟩ :=
        hstays' j middle descriptor hmiddle hdescriptor
      refine ⟨last, hlast, hkept.trans hkept', fun htyped => ?_, fun hnot => ?_⟩
      · rw [hnull' htyped, hnull htyped]
      · have hsame := hother fun s hs => hnot s (mem_singleton.mp hs ▸ .head _)
        rw [hother' fun s hs => hsame ▸ hnot s (.tail _ hs), hsame]
    · intro s hs hself
      obtain rfl | hs := mem_cons.mp hs
      · -- later roots leave this family alone
        obtain ⟨e, image_class, descriptor, hclass, hdescriptor, hnull, hroot, hmembers⟩ :=
          hfamily hself
        refine ⟨e, image_class, descriptor, hclass, hdescriptor, hnull, hroot, ?_⟩
        intro j image himage hmember
        obtain ⟨middle, hmiddle, hbinding⟩ := hmembers j image himage hmember
        have hj : j < descriptors.length :=
          hlength ▸ (List.getElem?_eq_some_iff.mp himage).1
        have hdescriptor' := getElem?_eq_getElem hj
        obtain ⟨middle', hmiddle', hkept, -, -⟩ := hstays j image _ himage hdescriptor'
        cases Eq.trans (Eq.symm hmiddle) hmiddle'
        obtain ⟨last, hlast, -, -, hother⟩ := hstays' j middle _ hmiddle hdescriptor'
        refine ⟨last, hlast, ?_⟩
        rw [hother fun t ht heq => ?_]
        · exact hbinding
        · rw [hkept.indirect_root, hmember] at heq
          exact hfresh (Option.some.inj heq ▸ ht)
      · have hself' : ∃ root ∈ next[s]?, root.indirect_root = some s := by
          obtain ⟨root, hroot, hself⟩ := hself
          have hj : s < descriptors.length :=
            hlength ▸ (List.getElem?_eq_some_iff.mp hroot).1
          obtain ⟨root', hroot', hkept, -, -⟩ :=
            hstays s root _ hroot (getElem?_eq_getElem hj)
          exact ⟨root', hroot', hkept.indirect_root.trans hself⟩
        obtain ⟨e, image_class, descriptor, hclass, hdescriptor, hnull, hroot, hmembers⟩ :=
          hfamilies s hs hself'
        have hj : e < images.length := hlength' ▸ (List.getElem?_eq_some_iff.mp hclass).1
        obtain ⟨same, hsame, -, htyped, -⟩ :=
          hstays e _ descriptor (getElem?_eq_getElem hj) hdescriptor
        cases Eq.trans (Eq.symm hclass) hsame
        refine ⟨e, image_class, descriptor, ?_, hdescriptor, hnull, hroot, ?_⟩
        · rw [htyped hnull]
          exact getElem?_eq_getElem hj
        · intro j image himage hmember
          have hj : j < descriptors.length :=
            hlength ▸ (List.getElem?_eq_some_iff.mp himage).1
          obtain ⟨middle, hmiddle, hkept, -, -⟩ :=
            hstays j image _ himage (getElem?_eq_getElem hj)
          exact hmembers j middle hmiddle (hkept.indirect_root.trans hmember)

end Families

end MagnusPS5.Shader.ResourceSpecialization
