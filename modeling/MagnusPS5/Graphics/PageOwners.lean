/-
`multiLevelPageTable.h`: which images lie on each page of the guest's memory.

The table has two levels, and a bucket of the second level exists from the first time a
page of it is written. A page has a list of owners. Sixteen owners fit into the list
itself; from the seventeenth on all of them are in a vector, and when there are sixteen
again they move back. What a list holds is `entries`, and each operation is described by
what it does to them.
-/
import Mathlib

namespace MagnusPS5.Graphics

open BitVec List Function Option

/-! ## Image ids (`image.h`) -/

structure ImageId where
  index : BitVec 32 := 0xffffffff#32
  generation : BitVec 32 := 0#32
  deriving DecidableEq

/-- `ImageId::operator bool`. -/
def ImageId.valid (id : ImageId) : Bool := id.index != 0xffffffff#32

/-- `Pack`: the bytes of the id, the index first. -/
def pack (owner : ImageId) : BitVec 64 := owner.generation ++ owner.index

def unpack (packed : BitVec 64) : ImageId where
  index := packed.extractLsb' 0 32
  generation := packed.extractLsb' 32 32

@[simp] theorem unpack_pack (owner : ImageId) : unpack (pack owner) = owner := by
  have hindex : (owner.generation ++ owner.index).extractLsb' 0 32 = owner.index := by
    apply eq_of_getLsbD_eq
    intro i hi
    rw [getLsbD_extractLsb', getLsbD_append]
    simp [hi]
  have hgeneration : (owner.generation ++ owner.index).extractLsb' 32 32 = owner.generation := by
    apply eq_of_getLsbD_eq
    intro i hi
    rw [getLsbD_extractLsb', getLsbD_append]
    simp [hi]
  unfold unpack pack
  rw [hindex, hgeneration]

@[simp] theorem pack_unpack (packed : BitVec 64) : pack (unpack packed) = packed := by
  unfold pack unpack
  apply eq_of_getLsbD_eq
  intro i hi
  rw [getLsbD_append, getLsbD_extractLsb', getLsbD_extractLsb']
  by_cases hlow : i < 32
  · simp [hlow]
  · have hsum : 32 + (i - 32) = i := by omega
    simp [hlow, hsum]
    omega

theorem unpack_injective : Function.Injective unpack := by
  intro a b h
  rw [← pack_unpack a, h, pack_unpack]

/-! ## The owners of a page -/

abbrev INLINE_CAPACITY : ℕ := 16

/-- `InlinePageOwnerList<ImageId, 16>`. -/
structure InlinePageOwnerList where
  /-- `m_inline`, of which the first `inline_size` are written. -/
  inline_owners : ℕ → BitVec 64 := fun _ => 0#64
  overflow : Option (List (BitVec 64)) := none
  inline_size : ℕ := 0
  size_le : inline_size ≤ INLINE_CAPACITY := by decide

namespace InlinePageOwnerList

/-- The owners in the order in which `ForEach` calls its function. -/
def entries (l : InlinePageOwnerList) : List (BitVec 64) :=
  match l.overflow with
  | some owners => owners
  | none => (List.range l.inline_size).map l.inline_owners

def pushBack (l : InlinePageOwnerList) (owner : ImageId) : InlinePageOwnerList :=
  let packed := pack owner
  match l.overflow with
  | some owners => { l with overflow := some (owners ++ [packed]) }
  | none =>
    if h : l.inline_size < INLINE_CAPACITY then
      { inline_owners := Function.update l.inline_owners l.inline_size packed
        overflow := none
        inline_size := l.inline_size + 1
        size_le := h }
    else
      let owners := (List.range INLINE_CAPACITY).map l.inline_owners
      { l with overflow := some (owners ++ [packed]) }

/-- `Erase`: whether the owner was there, and the list without it. -/
def erase (l : InlinePageOwnerList) (owner : ImageId) : Bool × InlinePageOwnerList :=
  let packed := pack owner
  match l.overflow with
  | some owners =>
    match owners.idxOf? packed with
    | none => (false, l)
    | some found =>
      let owners := owners.eraseIdx found
      if owners.length = INLINE_CAPACITY then
        -- all of them fit into the list itself again
        (true,
          { inline_owners := fun i => owners.getD i 0#64
            overflow := none
            inline_size := INLINE_CAPACITY
            size_le := le_rfl })
      else (true, { l with overflow := some owners })
  | none =>
    match ((List.range l.inline_size).map l.inline_owners).idxOf? packed with
    | none => (false, l)
    | some found =>
      (true,
        { inline_owners := fun i =>
            if found ≤ i ∧ i + 1 < l.inline_size then l.inline_owners (i + 1)
            else l.inline_owners i
          overflow := none
          inline_size := l.inline_size - 1
          size_le := (Nat.sub_le _ _).trans l.size_le })

theorem map_getD {α : Type} (l : List α) (d : α) :
    (range l.length).map (fun i => l.getD i d) = l := by
  apply ext_getElem
  · rw [length_map, length_range]
  · intro i h1 h2
    rw [getElem_map, getElem_range, getD_eq_getElem _ _ h2]

/-- **`push_back`** puts the owner behind the others. -/
theorem entries_pushBack (l : InlinePageOwnerList) (owner : ImageId) :
    (l.pushBack owner).entries = l.entries ++ [pack owner] := by
  unfold pushBack entries
  cases hover : l.overflow with
  | some owners => rfl
  | none =>
    dsimp only
    by_cases h : l.inline_size < INLINE_CAPACITY
    · rw [dif_pos h]
      dsimp only
      rw [range_succ, map_append, map_singleton, update_self]
      -- the new owner is written behind those there are
      have hkept : (range l.inline_size).map
          (update l.inline_owners l.inline_size (pack owner)) =
          (range l.inline_size).map l.inline_owners := by
        apply map_congr_left
        intro i hi
        rw [update_of_ne (mem_range.mp hi).ne]
      rw [hkept]
    · -- the list is full, so the array is all of it
      have hfull : l.inline_size = INLINE_CAPACITY := le_antisymm l.size_le (Nat.le_of_not_lt h)
      rw [dif_neg h]
      dsimp only
      rw [hfull]

theorem map_shift {α : Type} (f : ℕ → α) {size found : ℕ} (h : found < size) :
    (range (size - 1)).map (fun i => if found ≤ i ∧ i + 1 < size then f (i + 1) else f i) =
      ((range size).map f).eraseIdx found := by
  apply ext_getElem
  · rw [length_map, length_range, length_eraseIdx, length_map, length_range, if_pos h]
  · intro i h1 h2
    rw [length_map, length_range] at h1
    rw [getElem_map, getElem_range, getElem_eraseIdx]
    by_cases hi : i < found
    · rw [if_neg (by omega), dif_pos hi, getElem_map, getElem_range]
    · rw [if_pos (by omega), dif_neg hi, getElem_map, getElem_range]

/-- **`Erase`** takes the owner out where it is first. -/
theorem erase_spec (l : InlinePageOwnerList) (owner : ImageId) :
    (l.erase owner).1 = decide (pack owner ∈ l.entries) ∧
    (l.erase owner).2.entries = l.entries.erase (pack owner) := by
  unfold erase entries
  cases hover : l.overflow with
  | some owners =>
    dsimp only
    rw [erase_eq_eraseIdx]
    cases hfound : owners.idxOf? (pack owner) with
    | none =>
      have hnot : pack owner ∉ owners := idxOf?_eq_none_iff.mp hfound
      rw [hover, decide_eq_false hnot]
      exact ⟨rfl, rfl⟩
    | some found =>
      have hmem : pack owner ∈ owners := isSome_idxOf?.mp (by rw [hfound]; rfl)
      dsimp only
      rw [decide_eq_true hmem]
      by_cases hlen : (owners.eraseIdx found).length = INLINE_CAPACITY
      · rw [if_pos hlen]
        refine ⟨rfl, ?_⟩
        dsimp only
        rw [← hlen]
        exact map_getD _ _
      · rw [if_neg hlen]
        exact ⟨rfl, rfl⟩
  | none =>
    dsimp only
    rw [erase_eq_eraseIdx]
    cases hfound : ((range l.inline_size).map l.inline_owners).idxOf? (pack owner) with
    | none =>
      have hnot : pack owner ∉ (range l.inline_size).map l.inline_owners :=
        idxOf?_eq_none_iff.mp hfound
      rw [hover, decide_eq_false hnot]
      exact ⟨rfl, rfl⟩
    | some found =>
      have hmem : pack owner ∈ (range l.inline_size).map l.inline_owners :=
        isSome_idxOf?.mp (by rw [hfound]; rfl)
      have hlt : found < l.inline_size := by
        obtain ⟨hindex, -⟩ := idxOf?_eq_some_iff.mp hfound
        rw [length_map, length_range] at hindex
        exact hindex
      rw [decide_eq_true hmem]
      exact ⟨rfl, map_shift l.inline_owners hlt⟩

/-- The ids in a list. -/
def ids (l : InlinePageOwnerList) : List ImageId := l.entries.map unpack

@[simp] theorem ids_empty : ids {} = [] := rfl

section

variable (l : InlinePageOwnerList) (owner : ImageId)

include l owner

theorem ids_pushBack : (l.pushBack owner).ids = l.ids ++ [owner] := by
  unfold ids
  rw [entries_pushBack, map_append, map_singleton, unpack_pack]

theorem pack_mem_entries : pack owner ∈ l.entries ↔ owner ∈ l.ids := by
  unfold ids
  rw [List.mem_map]
  constructor
  · intro h
    exact ⟨_, h, unpack_pack owner⟩
  · rintro ⟨packed, hmem, rfl⟩
    rwa [pack_unpack]

/-- **`Erase`** takes the id out where it is first. -/
theorem ids_erase :
    (l.erase owner).1 = decide (owner ∈ l.ids) ∧ (l.erase owner).2.ids = l.ids.erase owner := by
  obtain ⟨hfound, hentries⟩ := l.erase_spec owner
  refine ⟨?_, ?_⟩
  · rw [hfound, decide_eq_decide]
    exact l.pack_mem_entries owner
  · unfold ids
    rw [hentries, map_erase unpack_injective, unpack_pack]

end

end InlinePageOwnerList

/-! ## The table -/

/-- `kPageBits`, `kAddressSpaceBits` and `kFirstLevelBits` of `ImagePageTable`. -/
abbrev PAGE_BITS : ℕ := 20

abbrev ADDRESS_SPACE_BITS : ℕ := 40

abbrev FIRST_LEVEL_BITS : ℕ := 10

/-- `kSecondLevelBits`. -/
abbrev SECOND_LEVEL_BITS : ℕ := ADDRESS_SPACE_BITS - FIRST_LEVEL_BITS - PAGE_BITS

/-- `kBucketEntries`. -/
abbrev BUCKET_ENTRIES : ℕ := 2 ^ SECOND_LEVEL_BITS

/-- `kPageCount`. -/
abbrev PAGE_COUNT : ℕ := 2 ^ (ADDRESS_SPACE_BITS - PAGE_BITS)

/-- `kAddressSpaceSize`. -/
abbrev ADDRESS_SPACE_SIZE : ℕ := 2 ^ ADDRESS_SPACE_BITS

/-- `ImagePageTable`, a `MultiLevelPageTable` of owner lists. -/
structure ImagePageTable where
  /-- `m_first_level`: the buckets that exist. -/
  first_level : ℕ → Option (ℕ → InlinePageOwnerList) := fun _ => none

namespace ImagePageTable

variable (t : ImagePageTable)

def find (page : ℕ) : Option InlinePageOwnerList :=
  if page < PAGE_COUNT then
    (t.first_level (page / BUCKET_ENTRIES)).map fun bucket => bucket (page % BUCKET_ENTRIES)
  else none

/-- `GetOrCreate`: the entry, in a new bucket if there is none. -/
def getOrCreate (page : ℕ) : Option InlinePageOwnerList :=
  if page < PAGE_COUNT then
    some ((t.first_level (page / BUCKET_ENTRIES)).getD (fun _ => {}) (page % BUCKET_ENTRIES))
  else none

/-- The table with another entry for a page. -/
def set (page : ℕ) (l : InlinePageOwnerList) : ImagePageTable where
  first_level := Function.update t.first_level (page / BUCKET_ENTRIES)
    (some (Function.update ((t.first_level (page / BUCKET_ENTRIES)).getD fun _ => {})
      (page % BUCKET_ENTRIES) l))

/-- `TryGetPageRange`: the first page and the one behind the last. -/
def tryGetPageRange (address size : ℕ) : Option (ℕ × ℕ) :=
  if size = 0 ∨ address ≥ ADDRESS_SPACE_SIZE ∨ size > ADDRESS_SPACE_SIZE - address then none
  else some (address / 2 ^ PAGE_BITS, (address + size - 1) / 2 ^ PAGE_BITS + 1)

/-- The owners of a page. -/
def owners (page : ℕ) : List ImageId := ((t.find page).elim [] fun l => l.ids)

variable {page : ℕ} {l : InlinePageOwnerList}

theorem owners_of_find {t : ImagePageTable} (h : t.find page = some l) : t.owners page = l.ids := by
  unfold owners
  rw [h]
  rfl

theorem owners_of_getOrCreate {t : ImagePageTable}
    (h : t.getOrCreate page = some l) : t.owners page = l.ids := by
  unfold getOrCreate at h
  unfold owners find
  by_cases hpage : page < PAGE_COUNT
  · rw [if_pos hpage] at h ⊢
    cases h
    cases t.first_level (page / BUCKET_ENTRIES) with
    | none | some => rfl
  · rw [if_neg hpage] at h
    cases h

/-- **Writing the entry of one page** leaves the owners of the others. -/
theorem owners_set (t : ImagePageTable) (hpage : page < PAGE_COUNT)
    (l : InlinePageOwnerList) (p : ℕ) :
    (t.set page l).owners p = if p = page then l.ids else t.owners p := by
  unfold owners find set
  dsimp only
  by_cases hp : p = page
  · subst hp
    rw [if_pos hpage, if_pos rfl, update_self, map_some, elim_some, update_self]
  · rw [if_neg hp]
    by_cases hvalid : p < PAGE_COUNT
    · rw [if_pos hvalid, if_pos hvalid]
      by_cases hbucket : p / BUCKET_ENTRIES = page / BUCKET_ENTRIES
      · -- another page of the same bucket
        have hindex : p % BUCKET_ENTRIES ≠ page % BUCKET_ENTRIES := by
          intro hsame
          apply hp
          rw [← Nat.div_add_mod p BUCKET_ENTRIES, hbucket, hsame, Nat.div_add_mod]
        rw [hbucket, update_self, map_some, elim_some, update_of_ne hindex]
        cases t.first_level (page / BUCKET_ENTRIES) with
        | none | some => rfl
      · rw [update_of_ne hbucket]
    · rw [if_neg hvalid, if_neg hvalid]

/-- The page range is found exactly for a range that is not empty and lies in the address
space. -/
theorem tryGetPageRange_eq_some {address size first last_exclusive : ℕ} :
    tryGetPageRange address size = some (first, last_exclusive) ↔
      0 < size ∧ address + size ≤ ADDRESS_SPACE_SIZE ∧
        first = address / 2 ^ PAGE_BITS ∧
        last_exclusive = (address + size - 1) / 2 ^ PAGE_BITS + 1 := by
  unfold tryGetPageRange
  by_cases h : size = 0 ∨ address ≥ ADDRESS_SPACE_SIZE ∨ size > ADDRESS_SPACE_SIZE - address
  · rw [if_pos h]
    constructor
    · intro hnone
      cases hnone
    · intro hrange
      exfalso
      omega
  · rw [if_neg h, some.injEq, Prod.mk.injEq]
    constructor
    · rintro ⟨rfl, rfl⟩
      refine ⟨by omega, by omega, rfl, rfl⟩
    · rintro ⟨-, -, rfl, rfl⟩
      exact ⟨rfl, rfl⟩

end ImagePageTable

end MagnusPS5.Graphics
