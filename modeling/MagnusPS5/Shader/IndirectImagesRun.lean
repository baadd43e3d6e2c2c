/-
Materialization of the images of a program (`MaterializeResources`).

The loop goes over the images once. A family is written as a whole at the turn of its root,
and no other turn writes to it.
-/
import MagnusPS5.Shader.IndirectImagesFamilies

namespace MagnusPS5.Shader.ResourceSpecialization

open Lib List Nat

/-! ## Writes -/

variable {flattened_srt : List Word} {i k r : ℕ} {table : IndirectImage}
  {images : List ImageResource} {sources : ℕ → ImageSource} {memory : Memory}
  {first_use_pc : ℕ → Word} {next next' : ImageSnapshot} {image : ImageResource}

section Writes

variable {words : List Word} {offset : ℕ}

theorem writeWords_length (h : offset + words.length ≤ flattened_srt.length) :
    (writeWords flattened_srt offset words).length = flattened_srt.length := by
  unfold writeWords
  rw [length_append, length_append, length_take, length_drop]
  omega

theorem writeWords_written (h : offset ≤ flattened_srt.length) {word : Word}
    (hi : words[i]? = some word) :
    (writeWords flattened_srt offset words)[offset + i]? = some word := by
  have htake : (flattened_srt.take offset).length = offset := length_take_of_le h
  unfold writeWords
  rw [append_assoc, getElem?_append_right (by omega), htake, Nat.add_sub_cancel_left,
    List.getElem?_append_left (List.getElem?_eq_some_iff.mp hi).1]
  exact hi

theorem writeWords_other (h : offset + words.length ≤ flattened_srt.length)
    (hk : k < offset ∨ offset + words.length ≤ k) :
    (writeWords flattened_srt offset words)[k]? = flattened_srt[k]? := by
  have htake : (flattened_srt.take offset).length = offset := length_take_of_le (by omega)
  unfold writeWords
  rw [append_assoc]
  obtain hk | hk := hk
  · rw [getElem?_append_left (by omega), getElem?_take_of_lt hk]
  · rw [getElem?_append_right (by omega), htake, getElem?_append_right (by omega), getElem?_drop]
    congr 1
    omega

end Writes

/-- The descriptor that is written for a candidate. -/
def candidateValue (table : IndirectImage) (candidate : ℕ) : DescriptorValue :=
  ((table.descriptors[if candidate < table.descriptors.length then candidate else 0]?).map
    Subtype.val).getD ⟨Vector.replicate 8 0, 0⟩

theorem candidateValue_of_some {c : ℕ} {descriptor : ImageDescriptor}
    (h : table.descriptors[c]? = some descriptor) : candidateValue table c = descriptor.val := by
  unfold candidateValue
  rw [if_pos (List.getElem?_eq_some_iff.mp h).1, h]
  rfl

/-! ## Turns -/

variable {source : IndirectSource} {material_value heap_value : DescriptorValue}

section Turns

/-- What the loop over the resources of a family writes. -/
structure Wrote (images : List ImageResource) (i : ℕ) (table : IndirectImage) (candidate : ℕ)
    (resources : List ℕ) (next next' : ImageSnapshot) : Prop where
  length : next'.images.length = next.images.length
  srt : next'.flattened_srt = next.flattened_srt
  tables : next'.indirect_images = next.indirect_images
  member : ∀ resource ∈ resources, ∃ member, images[resource]? = some member ∧
    member.indirect_root = some i
  other : ∀ j ∉ resources, next'.images[j]? = next.images[j]?
  written : resources.Nodup → ∀ (m resource : ℕ), resources[m]? = some resource →
    resource < next.images.length →
      next'.images[resource]? = some (candidateValue table (candidate + m))

theorem writeCandidates_of_ok {resources : List ℕ} {candidate : ℕ}
    (h : writeCandidates images i table next candidate resources = .ok next') :
    Wrote images i table candidate resources next next' := by
  induction resources generalizing next candidate with
  | nil =>
    cases h
    exact ⟨rfl, rfl, rfl, forall_mem_nil _, fun _ _ => rfl, fun _ m resource hm =>
      nomatch hm⟩
  | cons resource resources ih =>
    unfold writeCandidates at h
    split at h
    · nomatch h
    next image himage =>
      obtain ⟨_, hroot, h⟩ := bind_eq_ok.mp h
      have hrest := ih h
      refine ⟨?_, hrest.srt, hrest.tables,
        forall_mem_cons.mpr ⟨⟨image, himage, check_eq_ok.mp hroot⟩, hrest.member⟩, ?_, ?_⟩
      · rw [hrest.length]
        exact length_set
      · intro j hj
        rw [hrest.other j fun hmem => hj (.tail _ hmem)]
        refine getElem?_set_ne ?_
        rintro rfl
        exact hj mem_cons_self
      · intro hnodup m other hm hlt
        obtain ⟨hfresh, hnodup⟩ := nodup_cons.mp hnodup
        cases m with
        | zero =>
          -- the resources are different, so what is written first stays
          cases hm
          rw [hrest.other resource hfresh]
          exact getElem?_set_self hlt
        | succ m =>
          have hwritten := hrest.written hnodup m other hm (by rw [length_set]; exact hlt)
          rw [hwritten, add_right_comm, add_assoc]

/-- What a turn leaves: of the images it writes its own, or those of its family, and of the
flattened SRT the key mapping of its family. -/
structure TurnFrame (images : List ImageResource) (sources : ℕ → ImageSource) (i : ℕ)
    (image : ImageResource) (next next' : ImageSnapshot) : Prop where
  length : next'.images.length = next.images.length
  srt_length : next'.flattened_srt.length = next.flattened_srt.length
  tables : ∀ table ∈ next.indirect_images, table ∈ next'.indirect_images
  images : ∀ (j : ℕ) member, images[j]? = some member → member.indirect_root ≠ some i →
    (j = i → member.indirect_root ≠ none ∧ ∃ source material heap,
      sources member.source = .indirect source material heap) →
    next'.images[j]? = next.images[j]?
  srt : ∀ k, (image.indirect_root = some i →
      k < image.indirect_mapping_offset ∨ mappingEnd i image ≤ k) →
    next'.flattened_srt[k]? = next.flattened_srt[k]?

section

variable (hsource : sources image.source = .indirect source material_value heap_value)

include hsource

theorem materializeImage_single (hroot : image.indirect_root = none)
    (h : materializeImage images sources memory first_use_pc next i image = .ok next') :
    ∃ material heap table, decodeBufferDescriptor material_value = some material ∧
      decodeBufferDescriptor heap_value = some heap ∧
      Materialized source material heap memory table ∧
      next'.images = next.images.set i (((table.candidates[0]?.bind (table.descriptors[·]?)).map
        Subtype.val).getD ⟨Vector.replicate 8 0, 0⟩) ∧
      next'.flattened_srt = next.flattened_srt ∧
      (∀ table ∈ next.indirect_images, table ∈ next'.indirect_images) ∧
      (1 < table.descriptors.length → { table with resource := i } ∈ next'.indirect_images) := by
  unfold materializeImage at h
  rw [hsource] at h
  dsimp only at h
  rw [if_neg fun hskip => hskip.1 hroot] at h
  obtain ⟨table, htable, h⟩ := bind_eq_ok.mp h
  rw [if_pos hroot] at h
  cases h
  obtain ⟨material, heap, hmaterial, hheap, hmaterialized⟩ := materialized_of_ok htable
  refine ⟨material, heap, table, hmaterial, hheap, hmaterialized, ?_, ?_, ?_, ?_⟩
  · split <;> rfl
  · split <;> rfl
  · intro other hother
    split
    · exact mem_append_left _ hother
    · exact hother
  · intro hmany
    rw [if_pos hmany]
    exact mem_append_right _ (mem_singleton_self _)

theorem materializeImage_root (hroot : image.indirect_root = some i)
    (h : materializeImage images sources memory first_use_pc next i image = .ok next') :
    ∃ material heap table written, decodeBufferDescriptor material_value = some material ∧
      decodeBufferDescriptor heap_value = some heap ∧
      Materialized source material heap memory table ∧
      table.keys.length ≤ image.indirect_mapping_capacity ∧
      table.descriptors.length ≤ image.indirect_resources.length ∧
      Wrote images i table 0 image.indirect_resources next written ∧
      next' = { written with
        flattened_srt := writeWords written.flattened_srt image.indirect_mapping_offset
          (mappingWords table) } := by
  unfold materializeImage at h
  rw [hsource] at h
  dsimp only at h
  rw [if_neg fun hskip => hskip.2 hroot] at h
  obtain ⟨table, htable, h⟩ := bind_eq_ok.mp h
  rw [if_neg (by simp [hroot])] at h
  obtain ⟨_, hfits, h⟩ := bind_eq_ok.mp h
  obtain ⟨written, hwritten, h⟩ := bind_eq_ok.mp h
  obtain ⟨material, heap, hmaterial, hheap, hmaterialized⟩ := materialized_of_ok htable
  obtain ⟨hkeys, hdescriptors⟩ := check_eq_ok.mp hfits
  exact ⟨material, heap, table, written, hmaterial, hheap, hmaterialized, hkeys, hdescriptors,
    writeCandidates_of_ok hwritten, (Except.ok.inj h).symm⟩

end

theorem mappingWords_end (hroot : image.indirect_root = some i)
    (hkeys : table.keys.length ≤ image.indirect_mapping_capacity) :
    image.indirect_mapping_offset + (mappingWords table).length ≤ mappingEnd i image := by
  unfold mappingEnd
  rw [if_pos hroot, mappingWords_length]
  omega

/-- **What one turn leaves.** -/
theorem materializeImage_frame (himage : images[i]? = some image)
    (hend : mappingEnd i image ≤ next.flattened_srt.length)
    (h : materializeImage images sources memory first_use_pc next i image = .ok next') :
    TurnFrame images sources i image next next' := by
  cases hsource : sources image.source with
  | direct descriptor =>
    unfold materializeImage at h
    rw [hsource] at h
    cases h
    refine ⟨length_set, rfl, fun _ htable => htable, ?_, fun _ _ => rfl⟩
    intro j member hmember hother hown
    refine getElem?_set_ne ?_
    rintro rfl
    obtain ⟨-, source, material, heap, hindirect⟩ := hown rfl
    cases himage.symm.trans hmember
    rw [hsource] at hindirect
    nomatch hindirect
  | indirect source material_value heap_value =>
    by_cases hnone : image.indirect_root = none
    · obtain ⟨material, heap, table, -, -, -, himages, hsrt, htables, -⟩ :=
        materializeImage_single hsource hnone h
      refine ⟨by rw [himages]; exact length_set, by rw [hsrt], htables, ?_,
        fun _ _ => by rw [hsrt]⟩
      intro j member hmember hother hown
      rw [himages]
      refine getElem?_set_ne ?_
      rintro rfl
      cases himage.symm.trans hmember
      exact (hown rfl).1 hnone
    · by_cases hroot : image.indirect_root = some i
      · obtain ⟨material, heap, table, written, -, -, -, hkeys, -, hwrote, rfl⟩ :=
          materializeImage_root hsource hroot h
        have hroom := mappingWords_end hroot hkeys
        refine ⟨hwrote.length, ?_, fun other hother => ?_, ?_, ?_⟩
        · rw [hwrote.srt]
          exact writeWords_length (by omega)
        · rw [hwrote.tables]
          exact hother
        · intro j member hmember hother _
          refine hwrote.other j fun hmem => ?_
          obtain ⟨other, hget, hfamily⟩ := hwrote.member j hmem
          cases hmember.symm.trans hget
          exact hother hfamily
        · intro k hk
          rw [hwrote.srt]
          refine writeWords_other (by omega) ?_
          have houtside := hk hroot
          omega
      · -- an image that belongs to the family of another is passed over
        unfold materializeImage at h
        rw [hsource] at h
        dsimp only at h
        rw [if_pos ⟨hnone, hroot⟩] at h
        cases h
        exact ⟨rfl, rfl, fun _ htable => htable, fun _ _ _ _ _ => rfl, fun _ _ => rfl⟩

end Turns

/-! ## The loop -/

section Loop

variable
  {start final : ImageSnapshot} {size : ℕ}

variable {P : ImageSnapshot → Prop} {rest : List ImageResource}

theorem materializeLoop_keeps (hrest : ∀ m : ℕ, rest[m]? = images[k + m]?)
    (hturn : ∀ (i : ℕ) image next next', k ≤ i → images[i]? = some image → P next →
      materializeImage images sources memory first_use_pc next i image = .ok next' → P next')
    (h : materializeLoop images sources memory first_use_pc next k rest = .ok final)
    (hnext : P next) : P final := by
  induction rest generalizing next k with
  | nil =>
    cases h
    exact hnext
  | cons image rest ih =>
    obtain ⟨middle, hmiddle, h⟩ := bind_eq_ok.mp h
    have himage : images[k]? = some image := (hrest 0).symm
    refine ih (fun m => ?_) (fun i other before after hk => ?_) h
      (hturn k image next middle le_rfl himage hnext hmiddle)
    · have hget := hrest (m + 1)
      rw [getElem?_cons_succ] at hget
      rw [hget, add_comm m 1, add_assoc]
    · exact hturn i other before after (le_of_succ_le hk)

theorem materializeLoop_turn (hrest : ∀ m : ℕ, rest[m]? = images[k + m]?)
    (hturn : ∀ (i : ℕ) image next next', images[i]? = some image → P next →
      materializeImage images sources memory first_use_pc next i image = .ok next' → P next')
    (h : materializeLoop images sources memory first_use_pc start k rest = .ok final)
    (hstart : P start) (hk : k ≤ r) (himage : images[r]? = some image) :
    ∃ next next' behind, P next ∧
      materializeImage images sources memory first_use_pc next r image = .ok next' ∧
      (∀ m : ℕ, behind[m]? = images[r + 1 + m]?) ∧
      materializeLoop images sources memory first_use_pc next' (r + 1) behind = .ok final := by
  induction rest generalizing start k with
  | nil =>
    have hnone := hrest (r - k)
    rw [Nat.add_sub_cancel' hk, himage] at hnone
    nomatch hnone
  | cons first rest ih =>
    obtain ⟨middle, hmiddle, hloop⟩ := bind_eq_ok.mp h
    have hfirst : images[k]? = some first := (hrest 0).symm
    have htail : ∀ m : ℕ, rest[m]? = images[k + 1 + m]? := by
      intro m
      have hget := hrest (m + 1)
      rw [getElem?_cons_succ] at hget
      rw [hget, add_comm m 1, add_assoc]
    obtain hlt | rfl := lt_or_eq_of_le hk
    · exact ih htail hloop (hturn k first start middle hfirst hstart hmiddle) hlt
    · cases hfirst.symm.trans himage
      exact ⟨start, middle, rest, hstart, hmiddle, htail, hloop⟩

theorem le_foldl_max {s x : ℕ} {l : List ℕ} (h : x ≤ s ∨ x ∈ l) : x ≤ l.foldl max s := by
  induction l generalizing s with
  | nil => exact h.resolve_right (not_mem_nil)
  | cons y l ih =>
    rw [foldl_cons]
    obtain h | h := h
    · exact ih (.inl (h.trans (le_max_left _ _)))
    · obtain rfl | h := mem_cons.mp h
      · exact ih (.inl (le_max_right _ _))
      · exact ih (.inr h)

theorem mappingEnd_le {srt_reads : ℕ} (h : images[r]? = some image) :
    mappingEnd r image ≤ flattenedRuntimeDwords images srt_reads := by
  refine le_foldl_max (.inr (mem_map.mpr ⟨(image, r), ?_, rfl⟩))
  exact mem_zipIdx_iff_getElem?.mpr h

/-- What every turn keeps: there is an entry for each image, and room for the mappings. -/
def Roomy (images : List ImageResource) (size : ℕ) (next : ImageSnapshot) : Prop :=
  next.images.length = images.length ∧ size ≤ next.flattened_srt.length

section Family

variable (hsize : ∀ (r : ℕ) image, images[r]? = some image → mappingEnd r image ≤ size)

include hsize

theorem Roomy.turn (himage : images[i]? = some image) (h : Roomy images size next)
    (hturn : materializeImage images sources memory first_use_pc next i image = .ok next') :
    Roomy images size next' := by
  have hframe := materializeImage_frame himage ((hsize i image himage).trans h.2) hturn
  exact ⟨hframe.length.trans h.1, hframe.srt_length ▸ h.2⟩

variable (himage : images[r]? = some image)
  (hsource : sources image.source = .indirect source material_value heap_value)
  (hstart : Roomy images size start)
  (h : materializeLoop images sources memory first_use_pc start 0 images = .ok final)

include himage hsource hstart h

/-- **The family of an image** is written at the turn of its root, and stays. -/
theorem materializeLoop_family {separate_size : ℕ} (hseparate : Separate images separate_size)
    (hroot : image.indirect_root = some r) :
    ∃ material heap, decodeBufferDescriptor material_value = some material ∧
      decodeBufferDescriptor heap_value = some heap ∧
      SamplesHeap source material heap memory final.images final.flattened_srt image := by
  obtain ⟨next, next', behind, hnext, hturn, hbehind, hloop⟩ :=
    materializeLoop_turn (P := Roomy images size) (fun m => by rw [zero_add])
      (fun i other before after hother hroomy => hroomy.turn hsize hother) h hstart
      (zero_le r) himage
  obtain ⟨material, heap, table, written, hmaterial, hheap, hmaterialized, hkeys, hdescriptors,
    hwrote, hnext'⟩ := materializeImage_root hsource hroot hturn
  have hmembers := hseparate.member r image himage hroot
  have hroom := mappingWords_end hroot hkeys
  have hlast := (hsize r image himage).trans hnext.2
  -- the turns behind leave the images and the mapping of the family
  have hkept : Roomy images size final ∧
      (∀ resource ∈ image.indirect_resources, final.images[resource]? = next'.images[resource]?) ∧
      ∀ k, image.indirect_mapping_offset ≤ k → k < mappingEnd r image →
        final.flattened_srt[k]? = next'.flattened_srt[k]? := by
    refine materializeLoop_keeps (P := fun snapshot => Roomy images size snapshot ∧
      (∀ resource ∈ image.indirect_resources,
        snapshot.images[resource]? = next'.images[resource]?) ∧
      ∀ k, image.indirect_mapping_offset ≤ k → k < mappingEnd r image →
        snapshot.flattened_srt[k]? = next'.flattened_srt[k]?) hbehind ?_ hloop
      ⟨hnext.turn hsize himage hturn, fun _ _ => rfl, fun _ _ _ => rfl⟩
    rintro i other before after hi hother ⟨hroomy, himages, hsrt⟩ hafter
    have hframe := materializeImage_frame hother ((hsize i other hother).trans hroomy.2) hafter
    have hne : r ≠ i := by omega
    refine ⟨hroomy.turn hsize hother hafter, ?_, ?_⟩
    · intro resource hresource
      obtain ⟨member, hmember, hsame, hfamily⟩ := hmembers resource hresource
      rw [hframe.images resource member hmember (by simp [hfamily, hne]) fun _ => ?_]
      · exact himages resource hresource
      · exact ⟨by simp [hfamily], source, material_value, heap_value, hsame ▸ hsource⟩
    · intro k hk hk'
      rw [hframe.srt k fun hself => ?_]
      · exact hsrt k hk hk'
      · have hapart := hseparate.apart r i image other hne himage hother hroot hself
        omega
  obtain ⟨-, himages, hsrt⟩ := hkept
  refine ⟨material, heap, hmaterial, hheap, samples_of_mapped hmaterialized ?_ hkeys ?_⟩
  · intro m word hword
    have hm : m < (mappingWords table).length := (List.getElem?_eq_some_iff.mp hword).1
    rw [hsrt _ (le_add_right _ _) (by omega), hnext']
    rw [hwrote.srt]
    exact writeWords_written (by omega) hword
  · intro c descriptor hc
    have hlt : c < image.indirect_resources.length :=
      (List.getElem?_eq_some_iff.mp hc).1.trans_le hdescriptors
    have hresource := getElem?_eq_getElem hlt
    have hmem := getElem_mem hlt
    obtain ⟨member, hmember, -, -⟩ := hmembers _ hmem
    have hin : image.indirect_resources[c] < next.images.length := by
      rw [hnext.1]
      exact (List.getElem?_eq_some_iff.mp hmember).1
    refine ⟨_, hresource, ?_⟩
    rw [himages _ hmem, hnext']
    rw [hwrote.written (hseparate.distinct r image himage hroot) c _ hresource hin, zero_add,
      candidateValue_of_some hc]

/-- **An image that is not specialized yet** has the image of the first key. If its table has
others too, the table is kept for the specialization. -/
theorem materializeLoop_single (hroot : image.indirect_root = none) :
    ∃ material heap table, decodeBufferDescriptor material_value = some material ∧
      decodeBufferDescriptor heap_value = some heap ∧
      Materialized source material heap memory table ∧
      (1 < table.descriptors.length → { table with resource := r } ∈ final.indirect_images) ∧
      (table.descriptors.length ≤ 1 → ∀ selector, ∃ key descriptor,
        selectorKey source material memory selector = some key ∧
        heapImage heap memory key = some descriptor ∧
        final.images[r]? = some descriptor.val) := by
  obtain ⟨next, next', behind, hnext, hturn, hbehind, hloop⟩ :=
    materializeLoop_turn (P := Roomy images size) (fun m => by rw [zero_add])
      (fun i other before after hother hroomy => hroomy.turn hsize hother) h hstart
      (zero_le r) himage
  obtain ⟨material, heap, table, hmaterial, hheap, hmaterialized, himages, -, -, htables⟩ :=
    materializeImage_single hsource hroot hturn
  have hkept : Roomy images size final ∧ final.images[r]? = next'.images[r]? ∧
      ∀ table ∈ next'.indirect_images, table ∈ final.indirect_images := by
    refine materializeLoop_keeps (P := fun snapshot => Roomy images size snapshot ∧
      snapshot.images[r]? = next'.images[r]? ∧
      ∀ table ∈ next'.indirect_images, table ∈ snapshot.indirect_images) hbehind ?_ hloop
      ⟨hnext.turn hsize himage hturn, rfl, fun _ htable => htable⟩
    rintro i other before after hi hother ⟨hroomy, hsame, hkept⟩ hafter
    have hframe := materializeImage_frame hother ((hsize i other hother).trans hroomy.2) hafter
    refine ⟨hroomy.turn hsize hother hafter, ?_, fun t ht => hframe.tables t (hkept t ht)⟩
    rw [hframe.images r image himage (by simp [hroot]) fun heq => absurd heq (by omega)]
    exact hsame
  refine ⟨material, heap, table, hmaterial, hheap, hmaterialized,
    fun hmany => hkept.2.2 _ (htables hmany), ?_⟩
  intro hone selector
  obtain ⟨i, key, c, descriptor, hselector, hi, hc, hdescriptor, hheapImage⟩ :=
    hmaterialized.candidate selector
  refine ⟨key, descriptor, hselector, hheapImage, ?_⟩
  -- all candidates are the first descriptor
  have hi' : i < table.candidates.length := (List.getElem?_eq_some_iff.mp hc).1
  have hfirst : ∃ c', table.candidates[0]? = some c' ∧ table.descriptors[c']? = some descriptor := by
    have hpos : 0 < table.keys.length := by
      rw [← hmaterialized.covers.lengths]
      omega
    obtain ⟨c', descriptor', hc', hdescriptor', -⟩ :=
      hmaterialized.covers.image 0 _ (getElem?_eq_getElem hpos)
    have hlt := (List.getElem?_eq_some_iff.mp hdescriptor).1
    have hlt' := (List.getElem?_eq_some_iff.mp hdescriptor').1
    obtain rfl : c = c' := by omega
    exact ⟨c, hc', hdescriptor⟩
  obtain ⟨c', hc', hdescriptor'⟩ := hfirst
  rw [hkept.2.1, himages, getElem?_set_self (by
    rw [hnext.1]; exact (List.getElem?_eq_some_iff.mp himage).1), hc', Option.bind_some,
    hdescriptor']
  rfl

end Family

theorem materializeImages_loop
    (h : materializeImages images sources memory first_use_pc flattened_srt = .ok final) :
    ∃ start, Roomy images (flattenedRuntimeDwords images flattened_srt.length) start ∧
      materializeLoop images sources memory first_use_pc start 0 images = .ok final := by
  obtain ⟨next, hnext, h⟩ := bind_eq_ok.mp h
  obtain ⟨_, -, h⟩ := bind_eq_ok.mp h
  cases h
  refine ⟨_, ⟨length_replicate, ?_⟩, hnext⟩
  rw [length_append, length_replicate]
  omega

end Loop

/-! ## The claim of the component -/

/-- **Indirect images are complete.** The enumeration of a table ends. The keys of an accepted
table are different and fit its capacity, every selector loads one of them, and a program that
is specialized for the table samples the image that the heap has at that key. So does every
later snapshot of the program that materializes, for the tables it has then; and an image that
no table has specialized is the only one that its selectors can ask for. -/
theorem indirect_images_complete :
    (∀ indirect material_value heap_value memory use_pc,
      materializeIndirectImage indirect material_value heap_value memory use_pc ≠
        .error .unfinished) ∧
    (∀ indirect material_value heap_value memory use_pc table,
      materializeIndirectImage indirect material_value heap_value memory use_pc = .ok table →
      ∃ material heap, decodeBufferDescriptor material_value = some material ∧
        decodeBufferDescriptor heap_value = some heap ∧
        table.keys.Nodup ∧ table.keys.length ≤ table.capacity ∧
        (∀ selector, ∃ key ∈ table.keys,
          selectorKey indirect material memory selector = some key) ∧
        ∀ (program program' : Program) (snapshot snapshot' : ResourceSnapshot) (r : ℕ),
          (∀ image ∈ program.info.images, image.indirect_root = none) →
          specializeResources program snapshot = .ok (program', snapshot') →
          { table with resource := r } ∈ snapshot.indirect_images →
          ∃ image, program'.info.images[r]? = some image ∧
            SamplesHeap indirect material heap memory snapshot'.images snapshot'.flattened_srt
              image) ∧
    (∀ (program program' : Program) (snapshot snapshot' : ResourceSnapshot),
      (∀ image ∈ program.info.images, image.indirect_root = none) →
      specializeResources program snapshot = .ok (program', snapshot') →
      ∀ sources memory first_use_pc flattened_srt next,
        materializeImages program'.info.images sources memory first_use_pc flattened_srt =
          .ok next →
        ∀ (r : ℕ) image indirect material_value heap_value,
          program'.info.images[r]? = some image → image.indirect_root = some r →
          sources image.source = .indirect indirect material_value heap_value →
          ∃ material heap, decodeBufferDescriptor material_value = some material ∧
            decodeBufferDescriptor heap_value = some heap ∧
            SamplesHeap indirect material heap memory next.images next.flattened_srt image) ∧
    ∀ images sources memory first_use_pc flattened_srt next,
      materializeImages images sources memory first_use_pc flattened_srt = .ok next →
      ∀ (r : ℕ) image indirect material_value heap_value, images[r]? = some image →
        image.indirect_root = none →
        sources image.source = .indirect indirect material_value heap_value →
        (∀ table ∈ next.indirect_images, table.resource ≠ r) →
        ∃ material heap, decodeBufferDescriptor material_value = some material ∧
          decodeBufferDescriptor heap_value = some heap ∧
          ∀ selector, ∃ key descriptor,
            selectorKey indirect material memory selector = some key ∧
            heapImage heap memory key = some descriptor ∧
            next.images[r]? = some descriptor.val := by
  refine ⟨?_, ?_, ?_, ?_⟩
  · intro indirect material_value heap_value memory use_pc
    exact materializeIndirectImage_ne_unfinished
  · intro indirect material_value heap_value memory use_pc table h
    obtain ⟨material, heap, hmaterial, hheap, hmaterialized⟩ := materialized_of_ok h
    refine ⟨material, heap, hmaterial, hheap, hmaterialized.nodup, hmaterialized.keys_le,
      hmaterialized.selector, ?_⟩
    intro program program' snapshot snapshot' r hroots hspecialize htable
    exact specialized_samples hroots hspecialize (hmaterialized.withResource r) htable
  · intro program program' snapshot snapshot' hroots hspecialize sources memory first_use_pc
      flattened_srt next h r image indirect material_value heap_value himage hroot hsource
    obtain ⟨start, hstart, hloop⟩ := materializeImages_loop h
    exact materializeLoop_family (fun r image => mappingEnd_le) himage hsource hstart hloop
      (specialized_separate hroots hspecialize) hroot
  · intro images sources memory first_use_pc flattened_srt next h r image indirect material_value
      heap_value himage hroot hsource hnone
    obtain ⟨start, hstart, hloop⟩ := materializeImages_loop h
    obtain ⟨material, heap, table, hmaterial, hheap, -, hmany, hone⟩ :=
      materializeLoop_single (fun r image => mappingEnd_le) himage hsource hstart hloop hroot
    refine ⟨material, heap, hmaterial, hheap, hone ?_⟩
    by_contra hlong
    exact hnone _ (hmany (by omega)) rfl

/-- Two records of four bytes with the keys 0 and 1, and a heap of two images, of which the
first is null. -/
def twoImages : Memory := fun address =>
  match address with
  | 0x1004 => some 1
  | 0x2020 => some 1
  | 0x2024 => some 0x100000
  | 0x202c => some 0x90000000
  | _ => some 0

def twoRecords : DescriptorValue := ⟨#v[0x1000, 0x40000, 2, 0, 0, 0, 0, 0], 4⟩

def twoHeap : DescriptorValue := ⟨#v[0x2000, 0, 64, 0, 0, 0, 0, 0], 4⟩

def twoTable : IndirectImage :=
  ⟨0, 4, [0, 1], [0, 1], [canonicalDescriptor (.replicate 8 0),
    canonicalDescriptor #v[1, 0x100000, 0, 0x90000000, 0, 0, 0, 0]]⟩

/-- A program that samples an image of a table. -/
def tableProgram : Program :=
  { samplingProgram .dim2D with
    values := some ⟨[true], 0, [⟨0, .image, .dim2D, false⟩], [⟨.imageSampleRaw, 0⟩]⟩ }

def tableSnapshot : ResourceSnapshot :=
  { imageSnapshot 9 with images := [⟨.replicate 8 0, 8⟩], indirect_images := [twoTable] }

/-- The table of `twoImages`, and what a program that is specialized for it samples. -/
theorem indirect_images_complete_two :
    materializeIndirectImage ⟨4, 0⟩ twoRecords twoHeap twoImages 0 = .ok twoTable ∧
    ∃ material heap program snapshot image, decodeBufferDescriptor twoRecords = some material ∧
      decodeBufferDescriptor twoHeap = some heap ∧
      (∀ selector, ∃ key ∈ twoTable.keys,
        selectorKey ⟨4, 0⟩ material twoImages selector = some key) ∧
      specializeResources tableProgram tableSnapshot = .ok (program, snapshot) ∧
      program.info.images[0]? = some image ∧
      SamplesHeap ⟨4, 0⟩ material heap twoImages snapshot.images snapshot.flattened_srt image := by
  obtain ⟨material, heap, hmaterial, hheap, -, -, hall, hsamples⟩ :=
    indirect_images_complete.2.1 ⟨4, 0⟩ twoRecords twoHeap twoImages 0 twoTable rfl
  have hlength : (keyMapping twoTable).length = 9 := keyMapping_length (by decide)
  obtain ⟨⟨program, snapshot⟩, hspecialize⟩ :
      ∃ result, specializeResources tableProgram tableSnapshot = .ok result := by
    change ∃ result, (do
      let images ← unifyFamilies _ (keyMapping twoTable).length _ _
      _ : Except Error (Program × ResourceSnapshot)) = _
    rw [hlength]
    exact ⟨_, rfl⟩
  obtain ⟨image, himage, hsampled⟩ := hsamples _ _ _ _ 0
    (fun image himage => by rw [mem_singleton.mp himage]) hspecialize (.head _)
  exact ⟨rfl, material, heap, program, snapshot, image, hmaterial, hheap, hall, hspecialize, himage,
    hsampled⟩

end MagnusPS5.Shader.ResourceSpecialization
