/-
The search that is emitted for a sample of an indirect image finds the candidate of its key.

The key mapping has the keys in increasing order. The iterations of the search are steps of
`Window.search` as long as the words of the mapping lie where the image says, and there are as
many of them as the capacity of the mapping has bits.
-/
import MagnusPS5.Shader.IndirectImagesSpec

namespace MagnusPS5.Shader.ResourceSpecialization

open Lib List BitVec Nat Window Option

/-! ## The words of a key mapping -/

section Mapping

variable {table : IndirectImage} {e i n : ℕ}

/-- The order of the entries of a key mapping. -/
def mappingOrder (table : IndirectImage) : List ℕ :=
  (List.range table.keys.length).mergeSort
    fun i j => decide (table.keys.getD i 0 ≤ table.keys.getD j 0)

/-- The key of an entry. -/
def mappedKey (table : IndirectImage) (e : ℕ) : Word :=
  table.keys.getD ((mappingOrder table).getD e 0) 0

/-- The candidate of an entry. -/
def mappedCandidate (table : IndirectImage) (e : ℕ) : Word :=
  BitVec.ofNat 32 (table.candidates.getD ((mappingOrder table).getD e 0) 0)

theorem mappingOrder_length : (mappingOrder table).length = table.keys.length := by
  unfold mappingOrder
  rw [length_mergeSort, length_range]

theorem mem_mappingOrder : i ∈ mappingOrder table ↔ i < table.keys.length := by
  unfold mappingOrder
  rw [mem_mergeSort, mem_range]

theorem mappedKey_lt (hnodup : table.keys.Nodup) {j : ℕ} (hij : i < j) (hj : j < table.keys.length) :
    (mappedKey table i).toNat < (mappedKey table j).toNat := by
  have hi' : i < (mappingOrder table).length := by rw [mappingOrder_length]; omega
  have hj' : j < (mappingOrder table).length := by rw [mappingOrder_length]; omega
  have hle : table.keys.getD (mappingOrder table)[i] 0 ≤ table.keys.getD (mappingOrder table)[j] 0 := by
    have htrans : ∀ a b c : ℕ, decide (table.keys.getD a 0 ≤ table.keys.getD b 0) = true →
        decide (table.keys.getD b 0 ≤ table.keys.getD c 0) = true →
        decide (table.keys.getD a 0 ≤ table.keys.getD c 0) = true := by
      intro a b c hab hbc
      exact decide_eq_true (BitVec.le_trans (of_decide_eq_true hab) (of_decide_eq_true hbc))
    have htotal : ∀ a b : ℕ, (decide (table.keys.getD a 0 ≤ table.keys.getD b 0) ||
        decide (table.keys.getD b 0 ≤ table.keys.getD a 0)) = true := by
      intro a b
      rw [Bool.or_eq_true, decide_eq_true_iff, decide_eq_true_iff]
      exact BitVec.le_total _ _
    have hsorted : (mappingOrder table).Pairwise fun i j =>
        decide (table.keys.getD i 0 ≤ table.keys.getD j 0) = true :=
      pairwise_mergeSort htrans htotal _
    exact of_decide_eq_true (pairwise_iff_getElem.mp hsorted i j hi' hj' hij)
  have hne : table.keys.getD (mappingOrder table)[i] 0 ≠ table.keys.getD (mappingOrder table)[j] 0 := by
    intro heq
    have hi : (mappingOrder table)[i] < table.keys.length := mem_mappingOrder.mp (getElem_mem hi')
    have hj : (mappingOrder table)[j] < table.keys.length := mem_mappingOrder.mp (getElem_mem hj')
    rw [getD_eq_getElem _ _ hi, getD_eq_getElem _ _ hj] at heq
    have hsame := (List.Nodup.getElem_inj_iff hnodup).mp heq
    have horder : (mappingOrder table).Nodup :=
      (mergeSort_perm _ _).nodup_iff.mpr nodup_range
    have := (List.Nodup.getElem_inj_iff horder).mp hsame
    omega
  unfold mappedKey
  rw [getD_eq_getElem _ _ hi', getD_eq_getElem _ _ hj']
  refine lt_of_le_of_ne (le_def.mp hle) fun heq => hne ?_
  exact eq_of_toNat_eq heq

theorem exists_entry (hi : i < table.keys.length) :
    ∃ e < table.keys.length, (mappingOrder table).getD e 0 = i := by
  obtain ⟨e, he, hget⟩ := getElem_of_mem (mem_mappingOrder.mpr hi)
  refine ⟨e, mappingOrder_length ▸ he, ?_⟩
  rw [getD_eq_getElem _ _ he]
  exact hget

theorem getElem?_pairs {α β : Type} (f g : α → β) (l : List α) (e : ℕ) (a : α)
    (h : l[e]? = some a) :
    (l.flatMap fun a => [f a, g a])[e * 2]? = some (f a) ∧
      (l.flatMap fun a => [f a, g a])[e * 2 + 1]? = some (g a) := by
  induction l generalizing e with
  | nil => nomatch h
  | cons b l ih =>
    rw [flatMap_cons]
    cases e with
    | zero =>
      cases h
      exact ⟨rfl, rfl⟩
    | succ e =>
      have hnext : (e + 1) * 2 = e * 2 + 1 + 1 := by ring
      rw [hnext]
      exact ih e h

theorem mappingWords_entry (he : e < table.keys.length) :
    (mappingWords table)[e * 2 + 1]? = some (mappedKey table e) ∧
      (mappingWords table)[e * 2 + 1 + 1]? = some (mappedCandidate table e) := by
  have he' : e < (mappingOrder table).length := by rw [mappingOrder_length]; exact he
  have hentry : (mappingOrder table)[e]? = some ((mappingOrder table).getD e 0) := by
    rw [getD_eq_getElem _ _ he']
    exact getElem?_eq_getElem he'
  exact getElem?_pairs (fun source => table.keys.getD source 0)
    (fun source => .ofNat 32 (table.candidates.getD source 0)) _ e _ hentry

theorem mappingWords_zero : (mappingWords table)[0]? = some (.ofNat 32 table.keys.length) :=
  rfl

theorem mappingWords_length : (mappingWords table).length = 1 + table.keys.length * 2 := by
  have hpairs : (mappingWords table).length = ((mappingOrder table).flatMap fun source =>
      [table.keys.getD source 0, .ofNat 32 (table.candidates.getD source 0)]).length + 1 :=
    rfl
  rw [hpairs, length_flatMap]
  simp only [length_cons, length_nil, map_const', sum_replicate, mappingOrder_length, smul_eq_mul]
  omega

end Mapping

/-! ## The search -/

section Search

variable {flattened_srt : List Word} {mapping : ℕ} {table : IndirectImage} {key : Word}
  {w : Window Word}

/-- The words of the key mapping of a table lie at an index. -/
def MappedAt (flattened_srt : List Word) (mapping : ℕ) (table : IndirectImage) : Prop :=
  ∀ (i : ℕ) word, (mappingWords table)[i]? = some word → flattened_srt[mapping + i]? = some word

section

variable (hmapped : MappedAt flattened_srt mapping table) (hkeys : 0 < table.keys.length)
  (hhigh : w.high ≤ table.keys.length)

include hmapped hkeys hhigh

theorem searchStep_eq : searchStep flattened_srt mapping key w =
      some (w.step (fun e => (mappedKey table e).toNat) (mappedCandidate table) key.toNat) := by
  have hprobe : w.probe < table.keys.length := probe_lt hhigh hkeys
  obtain ⟨hkey, hcandidate⟩ := mappingWords_entry hprobe
  have hkey := hmapped _ _ hkey
  have hcandidate := hmapped _ _ hcandidate
  unfold searchStep
  dsimp only
  rw [show (if w.low < w.high then (w.low + w.high) / 2 else 0) = w.probe from rfl, hkey,
    bind_eq_bind, bind_some, add_assoc, hcandidate, bind_some]
  unfold step
  simp only [lt_def, toNat_inj]

theorem searchLoop_eq (iterations : ℕ) : searchLoop flattened_srt mapping key iterations w =
      some (w.search (fun e => (mappedKey table e).toNat) (mappedCandidate table) key.toNat
        iterations) := by
  induction iterations generalizing w with
  | zero => rfl
  | succ iterations ih =>
    unfold searchLoop
    rw [searchStep_eq hmapped hkeys hhigh, bind_eq_bind, bind_some]
    exact ih (high_step_le.trans hhigh)

end

/-- **The sample of a family** takes the resource of the candidate of its key. -/
theorem sampledResource_of_mapped {image : ImageResource} {i c : ℕ} {resource : ℕ}
    (hmapped : MappedAt flattened_srt image.indirect_mapping_offset table)
    (hnodup : table.keys.Nodup) (hcapacity : table.keys.length ≤ image.indirect_mapping_capacity)
    (hcount : table.keys.length < 2 ^ 32) (hkey : table.keys[i]? = some key)
    (hcandidate : table.candidates[i]? = some c) (hsmall : c < 2 ^ 32)
    (hresource : image.indirect_resources[c]? = some resource) :
    sampledResource image flattened_srt key = some resource := by
  obtain ⟨hi, hkeyi⟩ := List.getElem?_eq_some_iff.mp hkey
  obtain ⟨e, he, hentry⟩ := exists_entry hi
  have hmappedKey : (mappedKey table e).toNat = key.toNat := by
    unfold mappedKey
    rw [hentry, getD_eq_getElem _ _ hi, hkeyi]
  have hmappedCandidate : (mappedCandidate table e).toNat = c := by
    unfold mappedCandidate
    rw [hentry, getD_eq_getElem?_getD, hcandidate, toNat_ofNat]
    exact mod_eq_of_lt hsmall
  have hhigh : flattened_srt[image.indirect_mapping_offset]? =
      some (.ofNat 32 table.keys.length) := hmapped 0 _ mappingWords_zero
  have hsize : table.keys.length < 2 ^ .size image.indirect_mapping_capacity :=
    hcapacity.trans_lt (lt_size_self _)
  have hselected : (search (fun e => (mappedKey table e).toNat) (mappedCandidate table)
      key.toNat (.size image.indirect_mapping_capacity) ⟨0, table.keys.length, 0⟩).selected =
      mappedCandidate table e :=
    search_selected (fun a b hab hb => mappedKey_lt hnodup hab hb) he hmappedKey hsize 0
  unfold sampledResource
  rw [hhigh, bind_eq_bind, bind_some, toNat_ofNat, mod_eq_of_lt hcount,
    searchLoop_eq hmapped (by omega) le_rfl, bind_eq_bind, bind_some, hselected,
    hmappedCandidate]
  split
  · exact hresource
  · have hc : c < image.indirect_resources.length := (List.getElem?_eq_some_iff.mp hresource).1
    obtain rfl : c = 0 := by omega
    exact hresource

end Search

end MagnusPS5.Shader.ResourceSpecialization
